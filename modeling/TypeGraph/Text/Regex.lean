/-!
# Regular expressions

`Regex.ways` lists the ways in which an expression matches from a place in a text on, in the order
in which a search that turns back where it fails comes upon them: the first alternative before the
second one, and one more repetition before none. `Regex.find?` takes the first way from the leftmost
place from which there is one. What is read within a group is kept under the name of the group.
-/

namespace TypeGraph.Text

/-- The character in all cases. The letters s and k have a third form each, the long s and the
Kelvin sign. Letters that are not English are left as they are. -/
def caseVariants (c : Char) : List Char :=
  if c ∈ ['s', 'S', '\u017f'] then ['s', 'S', '\u017f']
  else if c ∈ ['k', 'K', '\u212a'] then ['k', 'K', '\u212a']
  else [c.toLower, c.toUpper]

/-- A regular expression. -/
inductive Regex where
  /-- Reads nothing. -/
  | empty
  /-- Reads nothing, at the start of the text only. -/
  | textStart
  /-- Reads nothing, at the end of the text only. -/
  | textEnd
  /-- One character of a class. -/
  | one (isMember : Char → Bool)
  | seq (first second : Regex)
  /-- The first one or else the second one. -/
  | alt (first second : Regex)
  /-- Any number of times, and as often as possible. -/
  | many (body : Regex)
  /-- Keeps what is read. -/
  | group (name : String) (body : Regex)

/-- A way to match: what is read, what is left, and what the groups keep, the last one first. -/
structure Way where
  read : List Char
  rest : List Char
  groups : List (String × List Char)

namespace Way

/-- Reading nothing. -/
def still (text : List Char) : Way := ⟨[], text, []⟩

/-- One way, and then another one from where it ends. -/
def andThen (first second : Way) : Way :=
  ⟨first.read ++ second.read, second.rest, second.groups ++ first.groups⟩

/-- What the group of the given name keeps. -/
def group? (w : Way) (name : String) : Option (List Char) := w.groups.lookup name

end Way

namespace Regex

/-! ### Building expressions -/

/-- A single character. -/
def sign (c : Char) : Regex := one (· == c)

/-- Expressions one after the other. -/
def inOrder : List Regex → Regex
  | [] => empty
  | [r] => r
  | r :: rs => seq r (inOrder rs)

/-- The first of the expressions that leads to a match. -/
def firstOf : List Regex → Regex
  | [] => one fun _ => false
  | [r] => r
  | r :: rs => alt r (firstOf rs)

/-- The characters of a word. -/
def word (s : String) : Regex := inOrder (s.toList.map sign)

/-- Once or more, and as often as possible. -/
def several (r : Regex) : Regex := seq r (many r)

/-- Once if possible. -/
def optional (r : Regex) : Regex := alt r empty

/-- As often as said. -/
def times (n : Nat) (r : Regex) : Regex := inOrder (List.replicate n r)

/-- The expression in which no class tells the cases of a letter apart. -/
def ignoringCase : Regex → Regex
  | empty => empty
  | textStart => textStart
  | textEnd => textEnd
  | one isMember => one fun c => (caseVariants c).any isMember
  | seq r s => seq r.ignoringCase s.ignoringCase
  | alt r s => alt r.ignoringCase s.ignoringCase
  | many r => many r.ignoringCase
  | group name r => group name r.ignoringCase

/-! ### Matching -/

/-- The ways to go on any number of times, up to a limit. A time that reads nothing is not counted,
so that the length of the text is limit enough. -/
def repeated (once : Nat → List Char → List Way) : (limit : Nat) → Nat → List Char → List Way
  | 0, _, text => [.still text]
  | limit + 1, place, text =>
    ((once place text).filter (!·.read.isEmpty)).flatMap (fun w =>
      (repeated once limit (place + w.read.length) w.rest).map w.andThen) ++ [.still text]

/-- The ways to match from a place on, given the text behind it. The preferred ways come first. -/
def ways : Regex → (place : Nat) → List Char → List Way
  | empty, _, text => [.still text]
  | textStart, place, text => if place = 0 then [.still text] else []
  | textEnd, _, text => if text.isEmpty then [.still text] else []
  | one _, _, [] => []
  | one isMember, _, c :: text => if isMember c then [⟨[c], text, []⟩] else []
  | seq r s, place, text =>
    (r.ways place text).flatMap fun w => (s.ways (place + w.read.length) w.rest).map w.andThen
  | alt r s, place, text => r.ways place text ++ s.ways place text
  | many r, place, text => repeated r.ways text.length place text
  | group name r, place, text =>
    (r.ways place text).map fun w => { w with groups := (name, w.read) :: w.groups }

/-- The preferred way from the leftmost place from which there is one. -/
def find? (r : Regex) (text : List Char) : Option Way :=
  (List.range (text.length + 1)).findSome? fun place => (r.ways place (text.drop place)).head?

end Regex

end TypeGraph.Text
