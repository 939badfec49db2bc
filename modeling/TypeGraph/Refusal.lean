import TypeGraph.Node

/-!
# Refusals

The reasons for which an operation on types is refused, and the message for each.
-/

namespace TypeGraph

/-- Why an operation is refused. -/
inductive Refusal where
  /-- A member of a discriminated object is not a named object. -/
  | memberNotObject (object member : String) (kind : Kind)
  /-- A member of a discriminated object lacks the property that tells members apart. -/
  | missingDiscriminator (object member key : String)
  /-- The property that tells members apart is not a string literal. -/
  | discriminatorNotLiteral (object member key found : String)
  /-- Two members of a discriminated object have the same value. -/
  | repeatedDiscriminator (object member key value : String)
  /-- The type has no parameter modifiers. -/
  | noModifiers (name : String)
  /-- The text is not a reference to a resource type. -/
  | malformedReference (text : String)
  /-- The id does not belong to a declared object that still lacks its definition. -/
  | notAwaitingDefinition (id : TypeId)
  /-- No type is registered under the name. -/
  | undefinedName (name : String)
  deriving DecidableEq

/-- The wording of a refusal. -/
def Refusal.message : Refusal → String
  | memberNotObject object member kind =>
    "Invalid member '" ++ member ++ "' of kind " ++ kind.name ++ " in discriminated object '" ++
      object ++ "'"
  | missingDiscriminator object member key =>
    "Missing discriminator field '" ++ key ++ "' on member '" ++ member ++
      "' of discriminated object '" ++ object ++ "'"
  | discriminatorNotLiteral object member key found =>
    "Invalid discriminator field type " ++ found ++ " for '" ++ key ++ "' on member '" ++ member ++
      "' of discriminated object '" ++ object ++ "'"
  | repeatedDiscriminator object member _ value =>
    "Duplicate discriminator field " ++ value ++ " on member '" ++ member ++
      "' of discriminated object '" ++ object ++ "'"
  | noModifiers name => "Modifiers are not supported for type '" ++ name ++ "'."
  | malformedReference text => "Invalid resource type reference '" ++ text ++ "'"
  | notAwaitingDefinition id =>
    "Type " ++ toString id.index ++ " is not a declared named object awaiting definition"
  | undefinedName name => "Undefined type: " ++ name

end TypeGraph
