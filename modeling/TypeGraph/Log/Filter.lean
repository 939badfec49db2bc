import TypeGraph.Log.Directive
import TypeGraph.Text.Fields

/-!
# Log filters

A filter is a list of directives with commas between them. Of the directives that hold for an event
the most specific one decides; the event is logged if its level is no more detailed than the
directive's. What is no directive is passed over with a complaint.
-/

namespace TypeGraph.Log

open Text (fields)

/-- A filter, as its directives. -/
abbrev Filter : Type := List Directive

namespace Filter

/-- The texts between the commas, without the empty ones. -/
def parts (text : String) : List (List Char) :=
  (fields ',' text.toList).filter fun part => !part.isEmpty

/-- The filter that a text stands for. Without any directive only errors are logged. -/
def ofText (text : String) : Filter :=
  match (parts text).filterMap fun part => (Directive.read part).toOption with
  | [] => [⟨"", .every, some .error⟩]
  | directives => directives

/-- The complaint about a text that is no directive. -/
def complaint? (part : List Char) : Option String :=
  match Directive.read part with
  | .ok _ => none
  | .error cause => some ("ignoring `" ++ String.ofList part ++ "`: " ++ cause.message)

/-- The complaints about the text of a filter. -/
def complaints (text : String) : List String := (parts text).filterMap complaint?

/-- The directive that decides on an event: the most specific that holds for it, and the last of
several that are equally specific. -/
def deciding? (filter : Filter) (event : Event) : Option Directive :=
  (filter.filter (·.holds event)).foldl
    (fun best d =>
      match best with
      | none => some d
      | some b => if b.yields d then some d else some b)
    none

/-- The filter lets an event through. -/
def passes (filter : Filter) (event : Event) : Bool :=
  match (filter.deciding? event).bind (·.limit) with
  | some limit => event.level.rank ≤ limit.rank
  | none => false

end Filter

end TypeGraph.Log
