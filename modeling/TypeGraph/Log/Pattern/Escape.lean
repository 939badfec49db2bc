import TypeGraph.Log.Pattern.Basic

/-!
# Escapes in patterns

What a backslash together with the signs behind it stands for.
-/

namespace TypeGraph.Log.Pattern

/-- What an escape stands for. -/
inductive Escape where
  /-- A character. It may be given as a byte, which is two hexadecimal digits. -/
  | char (c : Char) (asByte : Bool)
  /-- Any character of some class. -/
  | anyOf
  /-- A place between characters. -/
  | place (shape : Shape)

namespace Escape

/-- The value of a hexadecimal digit. -/
def hexValue? (c : Char) : Option Nat :=
  if c.isDigit then some (c.toNat - '0'.toNat)
  else if 'a' ≤ c ∧ c ≤ 'f' then some (c.toNat - 'a'.toNat + 10)
  else if 'A' ≤ c ∧ c ≤ 'F' then some (c.toNat - 'A'.toNat + 10)
  else none

/-- Read a number of hexadecimal digits, behind which the number so far has the given value. -/
def hexDigits? (m : Modes) : (count value : Nat) → List Char → Option (Nat × List Char)
  | 0, value, text => some (value, text)
  | _ + 1, _, [] => none
  | count + 1, value, c :: text => do
    hexDigits? m count (16 * value + (← hexValue? c)) (m.skip text)

/-- The character with the given code point. -/
def charOf? (n : Nat) : Option Char :=
  if n < 0xD800 || (0xDFFF < n && n < 0x110000) then some (Char.ofNat n) else none

/-- Read a character that is given by a number of hexadecimal digits. -/
def hexChar? (m : Modes) (count : Nat) (text : List Char) : Option (Char × List Char) := do
  let (n, rest) ← hexDigits? m count 0 (m.skip text)
  return (← charOf? n, rest)

/-- The letters for the main categories of characters, in both cases. -/
def categories : List Char := "CLMNPSZclmnpsz".toList

/-- Read the category of characters that an escape names. -/
def category? (m : Modes) (text : List Char) : Option (List Char) :=
  match m.skip text with
  | [] => none
  | c :: rest => if m.unicode && categories.contains c then some (m.skip rest) else none

/-- The signs for control characters. -/
def controls : List (Char × Char) :=
  [('a', '\x07'), ('f', '\x0c'), ('t', '\t'), ('n', '\n'), ('r', '\r'), ('v', '\x0b')]

/-- A sign that stands for itself behind a backslash. -/
def isPlainSign (c : Char) : Bool := c.toNat < 0x80 && !c.isAlphanum && c ≠ '<' && c ≠ '>'

/-- What a single sign behind a backslash stands for. -/
def ofSign? (m : Modes) (c : Char) : Option Escape :=
  if ['d', 's', 'w'].contains c then some anyOf
  else if ['D', 'S', 'W'].contains c then if m.unicode then some anyOf else none
  else if ['A', 'z'].contains c then some (place .plain)
  else if ['b', 'B', '<', '>'].contains c then some (place ⟨0, m.unicode⟩)
  else if isPlainSign c then some (char c false)
  else (controls.lookup c).map (char · false)

/-- Read an escape behind its backslash. No brace that an escape opens is ever closed. -/
def read? (m : Modes) : List Char → Option (Escape × List Char)
  | [] => none
  | 'x' :: text => (hexChar? m 2 text).map fun (c, rest) => (char c true, rest)
  | 'u' :: text => (hexChar? m 4 text).map fun (c, rest) => (char c false, rest)
  | 'U' :: text => (hexChar? m 8 text).map fun (c, rest) => (char c false, rest)
  | 'p' :: text => (category? m text).map (anyOf, ·)
  | 'P' :: text => (category? m text).map (anyOf, ·)
  | c :: text => (ofSign? m c).map (·, text)

end Escape

end TypeGraph.Log.Pattern
