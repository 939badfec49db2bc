import TypeGraph.Graph
import TypeGraph.Json

/-!
# Reports about types

`ObjectReport` shows an object with its properties, `TypesReport` the types that declarations know
by name. Both are written as indented text or as a JSON document.
-/

namespace TypeGraph

/-- The form of a report. -/
inductive Format where
  | text
  | json
  deriving DecidableEq

/-- What is shown of a property. -/
structure PropertyRow where
  name : String
  typeName : String
  flags : List String
  deriving DecidableEq

/-- What is shown of an object. -/
structure ObjectReport where
  name : String
  properties : List PropertyRow
  additional : Option String
  deriving DecidableEq

/-- What is shown of a builtin type. -/
structure BuiltinRow where
  name : String
  id : TypeId
  kind : String

/-- What is shown of the types that declarations know. -/
structure TypesReport where
  declarationTypes : List String
  builtins : List BuiltinRow

namespace Graph

variable {δ : Type}

/-- What is shown of a property. -/
def propertyRow [Deferral δ] (g : Graph δ) (p : Property (Edge δ)) : PropertyRow :=
  ⟨p.name, g.display (g.resolve p.type), p.flags.names⟩

/-- What is shown of an object with the given name and body. -/
def objectReport [Deferral δ] (g : Graph δ) (name : String) (body : Body (Edge δ)) : ObjectReport :=
  ⟨name, body.properties.map g.propertyRow, body.additional.map fun e => g.display (g.resolve e)⟩

/-- What is shown of the object with the given id. -/
def objectReport? [Deferral δ] (g : Graph δ) (id : TypeId) : Option ObjectReport :=
  ((g.node? id).bind (·.body?)).map (g.objectReport (g.display id))

/-- What is shown of the types that declarations know. -/
def typesReport (g : Graph δ) : TypesReport where
  declarationTypes := g.declarations.map (·.1)
  builtins := g.builtins.filterMap fun entry =>
    (g.kind? entry.2).map fun kind => ⟨entry.1, entry.2, kind.name⟩

end Graph

namespace PropertyRow

/-- The line for a property. -/
def line (p : PropertyRow) : String :=
  "\n  " ++ p.name ++ ": " ++ p.typeName ++
    if p.flags.isEmpty then "" else " [" ++ Vocabulary.listed p.flags ++ "]"

/-- A property as a JSON value. -/
def json (p : PropertyRow) : Json :=
  .object [("name", .text p.name), ("type", .text p.typeName), ("flags", .list (p.flags.map .text))]

end PropertyRow

namespace ObjectReport

/-- An object as indented text. -/
def lines (v : ObjectReport) : String :=
  v.name ++ String.join (v.properties.map (·.line)) ++
    match v.additional with
    | some typeName => "\n  *: " ++ typeName
    | none => ""

/-- An object as a JSON value. -/
def json (v : ObjectReport) : Json :=
  .object <|
    [("name", .text v.name), ("properties", .list (v.properties.map (·.json)))] ++
      (v.additional.map fun typeName => ("additionalProperties", .text typeName)).toList

/-- An object in the given form. -/
def render (v : ObjectReport) : Format → String
  | .text => v.lines
  | .json => v.json.pretty

end ObjectReport

/-- A text followed by blanks up to the given width. -/
def padded (width : Nat) (s : String) : String :=
  s ++ String.ofList (List.replicate (width - s.length) ' ')

namespace TypesReport

/-- The types as indented text. -/
def lines (v : TypesReport) : String :=
  "Declaration types: " ++ Vocabulary.listed v.declarationTypes ++ "\nBuiltins:" ++
    String.join (v.builtins.map fun b => "\n  " ++ padded 10 b.name ++ " " ++ b.kind)

/-- The types as a JSON value. -/
def json (v : TypesReport) : Json :=
  .object
    [("declarationTypes", .list (v.declarationTypes.map .text)),
     ("builtins", .list (v.builtins.map fun b =>
       .object [("name", .text b.name), ("id", .number b.id.index), ("kind", .text b.kind)]))]

/-- The types in the given form. -/
def render (v : TypesReport) : Format → String
  | .text => v.lines
  | .json => v.json.pretty

end TypesReport

end TypeGraph
