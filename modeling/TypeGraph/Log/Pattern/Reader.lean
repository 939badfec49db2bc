import TypeGraph.Log.Pattern.CharSet
import TypeGraph.Text.Alphanumeric

/-!
# Reading patterns

A pattern is read from left to right, with the groups that are open on a stack. `error?` says
whether a pattern can be used.

A pattern stands between braces itself. So no brace within it is ever closed, and a repetition with
a count is never complete.
-/

namespace TypeGraph.Log.Pattern

open Text (isAlphabetic isAlphanumeric)

/-- A part of the text of a pattern. -/
inductive Element where
  /-- The start of a group, with or without a name, and the modes within it. -/
  | opened (name : Option (List Char)) (modes : Modes)
  /-- Flags for the rest of the group. -/
  | switched (modes : Modes)
  | closed
  /-- The sign between alternatives. -/
  | bar
  /-- The sign that something is repeated. -/
  | repeated
  | piece (shape : Shape)

namespace Element

/-- The name of a group: a letter or low line, and then letters, numbers and some signs. -/
def isName : List Char → Bool
  | [] => false
  | c :: cs =>
    (c == '_' || isAlphabetic c) &&
      cs.all fun c => c == '_' || c == '.' || c == '[' || c == ']' || isAlphanumeric c

/-- Read the name of a group and the sign that ends it. -/
def named? (m : Modes) (text : List Char) : Option (Element × List Char) :=
  match text.span (· ≠ '>') with
  | (name, '>' :: rest) => if isName name then some (opened (some name) m, rest) else none
  | _ => none

/-- Read flags, which hold for a group or for the rest of the group around them. -/
def flags? (m : Modes) (text : List Char) : Option (Element × List Char) :=
  match text.span fun c => c ≠ ':' && c ≠ ')' with
  | (flags, ':' :: rest) => (m.switch? flags).map (opened none ·, rest)
  | ([], _) => none
  | (flags, _ :: rest) => (m.switch? flags).map (switched ·, rest)
  | (_, []) => none

/-- Read what follows an opening parenthesis. -/
def group? (m : Modes) : List Char → Option (Element × List Char)
  | '?' :: 'P' :: '<' :: text => named? m text
  | '?' :: '<' :: text => named? m text
  | '?' :: text => flags? m text
  | text => some (opened none m, text)

/-- The text behind the sign that a repetition is to be short. -/
def withoutShort : List Char → List Char
  | '?' :: text => text
  | text => text

/-- The shape of an escape outside of sets. A byte outside ASCII is no character. -/
def ofEscape? (m : Modes) : Escape → Option Shape
  | .char c asByte => if asByte && !m.unicode && 0x80 ≤ c.toNat then none else some .plain
  | .anyOf => some .plain
  | .place shape => some shape

/-- Read the next part of a pattern. -/
def read? (m : Modes) : List Char → Option (Element × List Char)
  | [] => none
  | '(' :: text => group? m (m.skip text)
  | ')' :: text => some (closed, text)
  | '|' :: text => some (bar, text)
  | '[' :: text => (CharSet.read? m text).map fun (shape, rest) => (piece shape, rest)
  | '?' :: text => some (repeated, withoutShort text)
  | '*' :: text => some (repeated, withoutShort text)
  | '+' :: text => some (repeated, withoutShort text)
  | '\x7b' :: _ => none
  | '\\' :: text => do
    let (escape, rest) ← Escape.read? m text
    return (piece (← ofEscape? m escape), rest)
  | '.' :: text => if m.unicode then some (piece .plain, text) else none
  | _ :: text => some (piece .plain, text)

end Element

/-- A group that is open, or the whole pattern. -/
structure OpenGroup where
  /-- The shapes of the alternatives that are complete. -/
  alternatives : List Shape
  /-- The shapes of the parts of the last alternative, the last one first; flags have none. -/
  parts : List (Option Shape)
  /-- How its text is read from here on. -/
  modes : Modes

namespace OpenGroup

/-- A group of which nothing was read yet. -/
def start (modes : Modes) : OpenGroup := ⟨[], [], modes⟩

/-- The shape of the last alternative. -/
def sequence (g : OpenGroup) : Shape := .together (g.parts.map (·.getD .plain))

/-- The shape of what the group holds. -/
def content (g : OpenGroup) : Shape := .together (g.sequence :: g.alternatives)

/-- The group with one more part. -/
def add (g : OpenGroup) (part : Option Shape) : OpenGroup := { g with parts := part :: g.parts }

end OpenGroup

/-- How far a pattern was read. -/
structure Progress where
  group : OpenGroup
  /-- The groups around it, the innermost first. -/
  outer : List OpenGroup
  /-- The names of groups that are taken. -/
  names : List (List Char)

namespace Progress

/-- Nothing was read yet. -/
def initial : Progress := ⟨.start .initial, [], []⟩

/-- Add the next part. A name is given once, a repetition follows what is repeated, and only an open
group is closed. -/
def add? (p : Progress) : Element → Option Progress
  | .opened none modes => some ⟨.start modes, p.group :: p.outer, p.names⟩
  | .opened (some name) modes =>
    if p.names.contains name then none
    else some ⟨.start modes, p.group :: p.outer, name :: p.names⟩
  | .switched modes => some { p with group := { p.group.add none with modes := modes } }
  | .closed =>
    match p.outer with
    | [] => none
    | g :: outer => some ⟨g.add (some p.group.content.around), outer, p.names⟩
  | .bar =>
    some { p with
      group := ⟨p.group.sequence :: p.group.alternatives, [], p.group.modes⟩ }
  | .repeated =>
    match p.group.parts with
    | some shape :: parts =>
      some { p with group := { p.group with parts := some shape.around :: parts } }
    | _ => none
  | .piece shape => some { p with group := p.group.add (some shape) }

/-- Read the rest of a pattern. Every part takes a character, so that the length of the text bounds
the number of steps. -/
def read? : (steps : Nat) → Progress → List Char → Option Shape
  | 0, _, _ => none
  | steps + 1, p, text =>
    match p.group.modes.skip text with
    | [] => if p.outer.isEmpty then some p.group.content else none
    | text => do
      let (element, rest) ← Element.read? p.group.modes text
      read? steps (← p.add? element) rest

end Progress

/-- The greatest depth of a pattern. -/
def maxDepth : Nat := 250

/-- The shape of a pattern that is no deeper than allowed. -/
def shape? (text : List Char) : Option Shape :=
  (Progress.initial.read? (text.length + 1) text).filter fun shape => shape.depth ≤ maxDepth

/-- Why a pattern cannot be used. -/
inductive PatternError where
  | malformed
  /-- The pattern asks for the boundaries of words of all scripts. -/
  | boundary
  deriving DecidableEq

/-- The wording of an error. -/
def PatternError.message : PatternError → String
  | malformed => "error building NFA"
  | boundary =>
    "unsupported regex feature for DFAs: cannot build DFAs for regexes with Unicode word " ++
      "boundaries; switch to ASCII word boundaries, or heuristically enable Unicode word " ++
      "boundaries or use a different regex engine"

/-- What keeps a pattern from being used, if anything does. -/
def error? (text : List Char) : Option PatternError :=
  match shape? text with
  | none => some .malformed
  | some shape => if shape.boundary then some .boundary else none

end TypeGraph.Log.Pattern
