import TypeGraph.Event
import TypeGraph.Log.Pattern.Reader
import TypeGraph.Text.Bytes
import TypeGraph.Text.Fields
import TypeGraph.Text.Numeral

/-!
# Directives of a log filter

A directive sets how much detail of some events is logged. It is a level alone, which holds for all
events, or a target, a selector in brackets or both, which an equals sign and a level may follow:

* `debug`, `4`: the events of all targets, up to the level;
* `store=info`, `store`, `store=`: the events whose target starts like this one;
* `store[{size}]=info`: of these the events that have a field of the name;
* `store[load]=info`, `store[load{size}]`, `[{size=1}]`: the events within a span. The value of a
  field is a number or a pattern. There are no spans here, so that these directives are read but
  hold for no event.

Without a level all these events are logged.

The parts of a directive are found in the text between the blanks at its ends, but they are cut out
of the whole text at the same places. So blanks at the start shift all parts, and blanks at the end
belong to the last one.
-/

namespace TypeGraph.Log

open Text (byteSize cut? dropBytes? fields isAlphanumeric isNumeral trimmed)
open Pattern (PatternError)

/-- The most detailed level that is logged; `none` is nothing at all. -/
abbrev Limit : Type := Option Level

namespace Limit

/-- The limits, from nothing to all. -/
def scale : List Limit :=
  [none, some .error, some .warn, some .info, some .debug, some .trace]

/-- The limits with their names in lower case. -/
def names : List (String × Limit) :=
  ["off", "error", "warn", "info", "debug", "trace"].zip scale

/-- The number that decimal digits stand for, behind a plus sign or not. -/
def number? (text : List Char) : Option Nat :=
  let digits := if text.head? = some '+' then text.tail else text
  if !digits.isEmpty && digits.all Char.isDigit then
    some (digits.foldl (fun n c => 10 * n + (c.toNat - '0'.toNat)) 0)
  else none

/-- The limit with the given number on the scale, or with the given name in letters of any case. -/
def ofText? (text : List Char) : Option Limit :=
  match number? text with
  | some n => scale[n]?
  | none => names.lookup (String.ofList (text.map Char.toLower))

end Limit

/-- Which of the events of a target a directive holds for. -/
inductive Selector where
  | every
  /-- Those that have a field of the name. -/
  | withField (name : String)
  /-- Those within a span that has a name or a field of a certain value. -/
  | withinSpan
  deriving DecidableEq

/-- How much detail of some events is logged. -/
structure Directive where
  /-- The start of the targets for which the directive holds. -/
  target : String
  selector : Selector
  limit : Limit
  deriving DecidableEq

/-- Why a text is no directive. -/
inductive DirectiveError where
  | malformed
  | unknownLevel
  /-- The pattern for the value of a field cannot be used. -/
  | unusable (cause : PatternError)
  deriving DecidableEq

/-- The wording of an error. -/
def DirectiveError.message : DirectiveError → String
  | malformed => "invalid filter directive"
  | unknownLevel =>
    "error parsing level filter: expected one of \"off\", \"error\", \"warn\", \"info\", " ++
      "\"debug\", \"trace\", or a number 0-5"
  | unusable cause => "invalid field filter: " ++ cause.message

namespace Selector

/-- What keeps a text from being the value of a field, if anything does. -/
def valueError? (value : List Char) : Option PatternError :=
  if isNumeral value then none else Pattern.error? value

/-- The selector for the given text between braces: the name of a field, and behind an equals sign
its value. What a second equals sign separates is passed over. -/
def ofField (field : List Char) : Except DirectiveError Selector :=
  match fields '=' field with
  | _ :: value :: _ =>
    match valueError? value with
    | none => .ok .withinSpan
    | some cause => .error (.unusable cause)
  | _ => .ok (.withField (.ofList field))

/-- The selector takes an event in. -/
def holds : Selector → Event → Bool
  | every, _ => true
  | withField name, event => name = "message" || event.fields.any (·.1 = name)
  | withinSpan, _ => false

end Selector

namespace Directive

/-- A target may start with the character. -/
def isTargetStart (c : Char) : Bool := c == '-' || c == ':' || c == '_' || isAlphanumeric c

/-- The part of a text at the place where `part` stands behind `before`. -/
def partAt (text before part : List Char) : Except DirectiveError (List Char) :=
  match cut? (byteSize before) (byteSize part) text with
  | some part => .ok part
  | none => .error .malformed

/-- The limit at the place behind `before`, up to the end of the text. Nothing there stands for all
events. -/
def limitAt (text before : List Char) : Except DirectiveError Limit :=
  match dropBytes? (byteSize before) text with
  | none => .error .malformed
  | some [] => .ok (some .trace)
  | some level =>
    match Limit.ofText? level with
    | some limit => .ok limit
    | none => .error .unknownLevel

/-- Read what follows a selector, which stands behind `before`: a limit or nothing. -/
def readEnd (text before rest : List Char) : Except DirectiveError Limit :=
  match rest with
  | [] => .ok (some .trace)
  | '=' :: _ => limitAt text (before ++ ['='])
  | _ => .error .malformed

/-- Read a selector and what follows it. The rest stands behind `before`, which ends with the
opening bracket. -/
def readSelector (text before rest : List Char) : Except DirectiveError (Selector × Limit) :=
  match rest.span fun c => c ≠ ']' && c ≠ '\x7b' with
  | (span, ']' :: rest) => do
    return (.withinSpan, ← readEnd text (before ++ span ++ [']']) rest)
  | (span, '\x7b' :: rest) =>
    let before := before ++ span ++ ['\x7b']
    match rest.span (· ≠ '\x7d') with
    | ([], _) => .error .malformed
    | (field, '\x7d' :: rest) => do
      let selector ← Selector.ofField (← partAt text before field)
      match rest with
      | ']' :: rest =>
        let limit ← readEnd text (before ++ field ++ ['\x7d', ']']) rest
        return (if span.isEmpty then selector else .withinSpan, limit)
      | _ => .error .malformed
    | _ => .error .malformed
  | _ => .error .malformed

/-- The directive that a single word stands for: a limit for all targets, or a target that is logged
in full. -/
def ofWord (word : List Char) : Directive :=
  match Limit.ofText? word with
  | some limit => ⟨"", .every, limit⟩
  | none => ⟨.ofList word, .every, some .trace⟩

/-- Read a directive off a text. -/
def read (text : List Char) : Except DirectiveError Directive :=
  match trimmed text with
  | [] => .error .malformed
  | '[' :: rest => do
    let (selector, limit) ← readSelector text ['['] rest
    return ⟨"", selector, limit⟩
  | c :: cs =>
    if isTargetStart c then
      match (c :: cs).span fun c => c ≠ '=' && c ≠ '[' with
      | (target, '=' :: _) => do
        let shown ← partAt text [] target
        return ⟨.ofList shown, .every, ← limitAt text (target ++ ['='])⟩
      | (target, '[' :: rest) => do
        let shown ← partAt text [] target
        let (selector, limit) ← readSelector text (target ++ ['[']) rest
        return ⟨.ofList shown, selector, limit⟩
      | _ => .ok (ofWord text)
    else .error .malformed

/-- The directive holds for an event. -/
def holds (d : Directive) (event : Event) : Bool :=
  d.target.toList.isPrefixOf event.target.toList && d.selector.holds event

/-- The first of two directives that hold for an event gives way to the second: the target of the
second is longer, or equally long and the second asks for a field that the first does not ask for,
unless the name of the field comes before the one that the first asks for. -/
def yields (d e : Directive) : Bool :=
  if d.target.length = e.target.length then
    match d.selector, e.selector with
    | .withField _, .every => false
    | .withField name, .withField other => !decide (other < name)
    | _, _ => true
  else d.target.length < e.target.length

end Directive

end TypeGraph.Log
