import TypeGraph.Json
import TypeGraph.Log.Filter

/-!
# Log lines

An event is logged as a line of text or as a JSON record.
-/

namespace TypeGraph.Log

/-- The form of a log. -/
inductive Style where
  | text
  | json
  deriving DecidableEq

/-- The form with the given name, in letters of any case; every other name means text. No letter
outside the English alphabet has a lower case in the name `json`. -/
def Style.named (name : String) : Style :=
  if name.toList.map Char.toLower = "json".toList then .json else .text

/-- The name of a form. -/
def Style.name : Style → String
  | text => "Text"
  | json => "Json"

/-- A character between double quotes. The names that commands log hold visible characters only, so
that no other character needs an escape. -/
def quoteChar (c : Char) : List Char :=
  if c = '"' then ['\\', '"']
  else if c = '\\' then ['\\', '\\']
  else if c = '\n' then ['\\', 'n']
  else if c = '\r' then ['\\', 'r']
  else if c = '\t' then ['\\', 't']
  else if c = '\x00' then ['\\', '0']
  else [c]

/-- A text between double quotes. -/
def quote (text : String) : String :=
  String.ofList ('"' :: (text.toList.flatMap quoteChar ++ ['"']))

/-- The value of a field on a line of text. -/
def valueText : FieldValue → String
  | .number n => toString n
  | .plain text => text
  | .string text => quote text

/-- The value of a field in a record. -/
def valueJson : FieldValue → Json
  | .number n => .number n
  | .plain text => .text text
  | .string text => .text text

/-- An event as a line of text. -/
def textLine (event : Event) : String :=
  event.level.name ++ " " ++ event.target ++ ": " ++ event.message ++
    String.join (event.fields.map fun f => " " ++ f.1 ++ "=" ++ valueText f.2)

/-- An event as a record. -/
def record (event : Event) : Json :=
  .object
    [("level", .text event.level.name),
     ("fields", .object (("message", .text event.message) ::
       event.fields.map fun f => (f.1, valueJson f.2))),
     ("target", .text event.target)]

/-- What is logged for an event. -/
inductive Line where
  | text (text : String)
  | record (record : Json)

/-- A line as it is written. -/
def Line.written : Line → String
  | text shown => shown
  | record shown => shown.compact

/-- What is logged for an event in the given form. -/
def line : Style → Event → Line
  | .text, event => .text (textLine event)
  | .json, event => .record (record event)

/-- The lines for the events that a filter lets through. -/
def lines (format : Style) (filter : Filter) (events : List Event) : List Line :=
  (events.filter filter.passes).map (line format)

end TypeGraph.Log
