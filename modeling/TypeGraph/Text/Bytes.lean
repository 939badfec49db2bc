/-!
# Places in a text, counted in bytes

A place in a text is the number of bytes that the characters before it take in UTF-8. `dropBytes?`
and `takeBytes?` cut a text at a place; they fail at a place within a character or behind the end.
-/

namespace TypeGraph.Text

/-- The number of bytes that a text takes. -/
def byteSize : List Char → Nat
  | [] => 0
  | c :: cs => c.utf8Size + byteSize cs

/-- The text behind a place. -/
def dropBytes? : (place : Nat) → List Char → Option (List Char)
  | 0, cs => some cs
  | _ + 1, [] => none
  | n + 1, c :: cs => if c.utf8Size ≤ n + 1 then dropBytes? (n + 1 - c.utf8Size) cs else none

/-- The text before a place. -/
def takeBytes? : (place : Nat) → List Char → Option (List Char)
  | 0, _ => some []
  | _ + 1, [] => none
  | n + 1, c :: cs =>
    if c.utf8Size ≤ n + 1 then (takeBytes? (n + 1 - c.utf8Size) cs).map (c :: ·) else none

/-- The text from a place on, as long as a given number of bytes. -/
def cut? (place size : Nat) (cs : List Char) : Option (List Char) :=
  (dropBytes? place cs).bind (takeBytes? size)

end TypeGraph.Text
