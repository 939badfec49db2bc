import TypeGraph.Log.Pattern.Escape

/-!
# Sets of characters in patterns

A set stands in brackets. Its members are characters, ranges, classes and further sets; operators
may stand between them. Where a pattern is about bytes, a set holds nothing outside ASCII.
-/

namespace TypeGraph.Log.Pattern

/-- A set that is being read. -/
structure OpenSet where
  /-- The shape of what stands before the last operator. -/
  left : Option Shape
  /-- The shapes of the members behind it, the last one first. -/
  members : List Shape
  /-- Nothing but hyphens was read yet. -/
  fresh : Bool

namespace OpenSet

/-- A set of which nothing was read yet. -/
def start : OpenSet := ⟨none, [], true⟩

/-- The shape of what stands in the brackets. -/
def content (s : OpenSet) : Shape :=
  match s.left with
  | none => .together s.members
  | some left => (left.beside (.together s.members)).around

/-- The set with one more member. -/
def add (s : OpenSet) (member : Shape) : OpenSet := ⟨s.left, member :: s.members, false⟩

end OpenSet

/-- A part of the text of a set. -/
inductive SetElement where
  /-- A hyphen at the start of the set. -/
  | hyphen
  | member
  | operator
  | opened
  | closed

namespace CharSet

/-- The names of classes. -/
def classNames : List String :=
  ["alnum", "alpha", "ascii", "blank", "cntrl", "digit", "graph", "lower", "print", "punct",
   "space", "upper", "word", "xdigit"]

/-- Read the name of a class and the signs that end it. -/
def className? (text : List Char) : Option (List Char) :=
  match text.span (· ≠ ':') with
  | (name, ':' :: ']' :: rest) =>
    if classNames.contains (String.ofList name) then some rest else none
  | _ => none

/-- Read a class such as `[:alpha:]` or `[:^alpha:]` behind its bracket. The complement of the class
is told apart. -/
def namedClass? : List Char → Option (Bool × List Char)
  | ':' :: '^' :: text => (className? text).map (true, ·)
  | ':' :: text => (className? text).map (false, ·)
  | _ => none

/-- Read what may follow an opening bracket to ask for the complement of the set. -/
def opening? (m : Modes) (text : List Char) : Option (List Char) :=
  match m.skip text with
  | '^' :: rest => if m.unicode then some rest else none
  | rest => some rest

/-- Read a character or a class, which is no character. -/
def item? (m : Modes) (text : List Char) : Option (Option Char × List Char) := do
  let (item, rest) ←
    match text with
    | [] => none
    | '\\' :: text =>
      match Escape.read? m text with
      | some (.char c _, rest) => some (some c, rest)
      | some (.anyOf, rest) => some (none, rest)
      | _ => none
    | c :: rest => some (some c, rest)
  if m.unicode || item.all (·.toNat < 0x80) then some (item, rest) else none

/-- Read a range, a character or a class. A hyphen does not make a range before a closing bracket or
another hyphen. -/
def member? (m : Modes) (text : List Char) : Option (List Char) := do
  let (first, rest) ← item? m text
  match m.skip rest with
  | '-' :: rest =>
    if [some ']', some '-'].contains (m.peek rest) then some ('-' :: rest)
    else
      match first, ← item? m (m.skip rest) with
      | some first, (some last, rest) => if first ≤ last then some rest else none
      | _, _ => none
  | rest => some rest

/-- Read the next part of a set. A closing bracket that comes first is a member. -/
def element? (m : Modes) (s : OpenSet) : List Char → Option (SetElement × List Char)
  | [] => none
  | '[' :: text =>
    match namedClass? text with
    | some (complement, rest) =>
      if complement && !m.unicode then none else some (.member, rest)
    | none => (opening? m text).map (.opened, ·)
  | ']' :: text =>
    if s.fresh && s.members.isEmpty then some (.member, text) else some (.closed, text)
  | '&' :: '&' :: text => some (.operator, text)
  | '~' :: '~' :: text => some (.operator, text)
  | '-' :: text =>
    if s.fresh then some (.hyphen, text)
    else
      match text with
      | '-' :: text => some (.operator, text)
      | text => (member? m ('-' :: text)).map (.member, ·)
  | text => (member? m text).map (.member, ·)

/-- Read a set up to its closing bracket, with the sets around it. Every part takes a character, so
that the length of the text bounds the number of steps. -/
def readFrom (m : Modes) :
    (steps : Nat) → OpenSet → (outer : List OpenSet) → List Char → Option (Shape × List Char)
  | 0, _, _, _ => none
  | steps + 1, s, outer, text => do
    let (element, rest) ← element? m s (m.skip text)
    match element, outer with
    | .hyphen, _ => readFrom m steps { s.add .plain with fresh := true } outer rest
    | .member, _ => readFrom m steps (s.add .plain) outer rest
    | .operator, _ => readFrom m steps ⟨some s.content, [], false⟩ outer rest
    | .opened, _ => readFrom m steps .start (s :: outer) rest
    | .closed, [] => some (s.content.around, rest)
    | .closed, t :: outer => readFrom m steps (t.add s.content.around) outer rest

/-- Read a set behind its opening bracket. -/
def read? (m : Modes) (text : List Char) : Option (Shape × List Char) := do
  readFrom m (text.length + 1) .start [] (← opening? m text)

end CharSet

end TypeGraph.Log.Pattern
