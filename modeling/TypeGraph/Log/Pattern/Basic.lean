import TypeGraph.Text.Blank

/-!
# Patterns: modes and shapes

A pattern is a regular expression. Flags within it change how the signs behind them are read; this
is what `Modes` holds. Nothing is ever matched here, so that of a pattern only its `Shape` is kept:
what decides whether it can be used at all.
-/

namespace TypeGraph.Log.Pattern

open Text (isBlank)

/-- How a part of a pattern is read. -/
structure Modes where
  /-- The pattern is about characters, and not about bytes. -/
  unicode : Bool
  /-- Blanks and comments are passed over. -/
  spaced : Bool
  deriving DecidableEq

namespace Modes

/-- The modes at the start of a pattern. -/
def initial : Modes := ⟨true, false⟩

/-- The text behind blanks and comments. A comment starts with a number sign and ends with its
line; the text may start within one. -/
def skipSpace : (comment : Bool) → List Char → List Char
  | _, [] => []
  | true, c :: cs => skipSpace (c ≠ '\n') cs
  | false, c :: cs =>
    if isBlank c then skipSpace false cs
    else if c = '#' then skipSpace true cs
    else c :: cs

/-- The text from the next sign on. -/
def skip (m : Modes) (text : List Char) : List Char :=
  if m.spaced then skipSpace false text else text

/-- The next sign, as far as it decides what a hyphen in a set stands for: of a comment that comes
first it is the first sign. -/
def peek (m : Modes) (text : List Char) : Option Char :=
  if m.spaced then
    match text.dropWhile isBlank with
    | '#' :: rest => (rest.dropWhile isBlank).head?
    | rest => rest.head?
  else text.head?

/-- The letters that may stand for flags, and the sign that turns the flags behind it off. -/
def flagLetters : List Char := ['i', 'm', 's', 'U', 'u', 'R', 'x', '-']

/-- The modes after some flags. No flag may be repeated, and the sign that turns flags off must have
flags behind it. -/
def switch? (m : Modes) (flags : List Char) : Option Modes :=
  let (on, off) := flags.span (· ≠ '-')
  let state (letter : Char) (before : Bool) : Bool :=
    on.contains letter || (before && !off.contains letter)
  if flags.all flagLetters.contains && decide flags.Nodup && flags.getLast? ≠ some '-' then
    some ⟨state 'u' m.unicode, state 'x' m.spaced⟩
  else none

end Modes

/-- What is kept of a part of a pattern. -/
structure Shape where
  /-- How deep sequences, alternatives, groups, repetitions and sets lie within each other. -/
  depth : Nat
  /-- The part asks for the boundaries of words of all scripts. -/
  boundary : Bool
  deriving DecidableEq

namespace Shape

/-- The shape of a single sign. -/
def plain : Shape := ⟨0, false⟩

/-- The shape of a part that holds another one. -/
def around (s : Shape) : Shape := ⟨s.depth + 1, s.boundary⟩

/-- The shape of two parts side by side. -/
def beside (s t : Shape) : Shape := ⟨max s.depth t.depth, s.boundary || t.boundary⟩

/-- The shape of parts that are taken together. One part alone is left as it is. -/
def together : List Shape → Shape
  | [] => plain
  | [s] => s
  | s :: rest => around (rest.foldl beside s)

end Shape

end TypeGraph.Log.Pattern
