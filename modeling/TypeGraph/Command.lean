import TypeGraph.Graph.Fresh
import TypeGraph.Modifier
import TypeGraph.Recipe
import TypeGraph.Resource.Body
import TypeGraph.Report

/-!
# Commands

Each command makes the types that it needs in a fresh graph and shows them.
-/

namespace TypeGraph

open Resource (Reference)

/-- What the program is asked to show. -/
inductive Command where
  /-- The types that declarations know. -/
  | types
  /-- The modifiers of parameters of the named type. -/
  | modifier (typeName : String)
  /-- The body of the resource type that a text refers to. -/
  | resource (text : String)
  deriving DecidableEq

/-- Why a command shows nothing. -/
inductive CommandError where
  /-- No type is known by the name. -/
  | unknownType (name expected : String)
  /-- The modifiers of the named type are refused. -/
  | cannotModify (typeName : String) (cause : Refusal)
  | refused (cause : Refusal)
  /-- What was made is not an object. -/
  | notObject (what : String)

namespace CommandError

/-- The wording of an error. -/
def message : CommandError → String
  | unknownType name expected => "Unknown type '" ++ name ++ "'. Expected one of: " ++ expected
  | cannotModify typeName _ => "Cannot build modifiers for '" ++ typeName ++ "'"
  | refused cause => cause.message
  | notObject what => what ++ " is not an object"

/-- The refusal behind an error. -/
def refusal? : CommandError → Option Refusal
  | cannotModify _ cause => some cause
  | refused cause => some cause
  | _ => none

/-- The wording of an error, followed by that of what caused it. -/
def chain : CommandError → List String
  | e@(cannotModify _ cause) => [e.message, cause.message]
  | e => [e.message]

end CommandError

/-- What a command shows, and what happens on the way. -/
structure CommandOutcome where
  result : Except CommandError String
  events : List Event

namespace Command

/-- Show the object that a build in a fresh graph makes. -/
def showObject (format : Format) (what : String) (refusal : Refusal → CommandError)
    (build : Build Recipe TypeId) : CommandOutcome :=
  let outcome := build .fresh
  { events := outcome.events
    result :=
      match outcome.result with
      | .error (.refused cause) => .error (refusal cause)
      | .error .dangling => .error (.notObject what)
      | .ok id =>
        match outcome.graph.objectReport? id with
        | some view => .ok (view.render format)
        | none => .error (.notObject what) }

/-- The names that declarations know. -/
def expectedTypes : String :=
  Vocabulary.listed ((Graph.fresh : Graph Recipe).declarations.map (·.1))

/-- Carry a command out. -/
def run (format : Format) : Command → CommandOutcome
  | types => ⟨.ok ((Graph.fresh : Graph Recipe).typesReport.render format), Graph.freshEvents⟩
  | modifier typeName =>
    match (Graph.fresh : Graph Recipe).builtin? typeName with
    | none => ⟨.error (.unknownType typeName expectedTypes), Graph.freshEvents⟩
    | some target =>
      let shown := showObject format ("Modifier type for '" ++ typeName ++ "'")
        (.cannotModify typeName) (Build.modifier target)
      ⟨shown.result, Graph.freshEvents ++ .modifierRequested typeName :: shown.events⟩
  | resource text =>
    match Reference.parse text with
    | .error cause => ⟨.error (.refused cause), []⟩
    | .ok reference =>
      let shown := showObject format ("Resource type '" ++ reference.text ++ "'") .refused
        (Build.resource reference)
      ⟨shown.result, Graph.freshEvents ++ shown.events⟩

end Command

end TypeGraph
