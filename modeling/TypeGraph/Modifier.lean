import TypeGraph.Graph.Construct

/-!
# Parameter modifiers

The declaration of a parameter may carry modifiers, which depend on the type of the parameter. They
are described by a table of rules; the modifier type of a parameter type is the named object with
the properties that the rules for it give.
-/

namespace TypeGraph

namespace Modifier

/-- The types of parameters that may carry modifiers. -/
def targets : List TypeId := [.string, .object, .int, .bool, .array, .null]

/-- The type of a modifier's value, in terms of the type of the parameter. -/
inductive Value where
  /-- The same for every parameter. -/
  | fixed (id : TypeId)
  /-- A value of the parameter. -/
  | target
  /-- Several values of the parameter. -/
  | targets

/-- A modifier and the parameters to which it applies. -/
structure Rule where
  name : String
  value : Value
  flags : Flags
  targets : List TypeId

/-- All modifiers, in the order in which they are listed. -/
def rules : List Rule :=
  [⟨"secure", .fixed .bool, .constant, [.string, .object]⟩,
   ⟨"default", .target, .none, targets⟩,
   ⟨"allowed", .targets, .constant, targets⟩,
   ⟨"minValue", .fixed .int, .constant, [.int]⟩,
   ⟨"maxValue", .fixed .int, .constant, [.int]⟩,
   ⟨"minLength", .fixed .int, .constant, [.string, .array]⟩,
   ⟨"maxLength", .fixed .int, .constant, [.string, .array]⟩,
   ⟨"metadata", .fixed .modifierMetadata, .constant, targets⟩]

/-- The type of a modifier's value, given the parameter's type and the array of it. -/
def Value.type (target array : TypeId) : Value → TypeId
  | .fixed id => id
  | .target => target
  | .targets => array

/-- The property that a rule gives. -/
def Rule.property {δ : Type} (target array : TypeId) (rule : Rule) : Property (Edge δ) :=
  ⟨rule.name, .direct (rule.value.type target array), rule.flags⟩

end Modifier

namespace Build

variable {δ : Type} [Deferral δ]

/-- The modifiers of a parameter of the given type. -/
def modifierProperties (target : TypeId) : Build δ (List (Property (Edge δ))) := do
  if target ∈ Modifier.targets then
    let array ← array (.direct target)
    return (Modifier.rules.filter (target ∈ ·.targets)).map (·.property target array)
  else
    refuse (.noModifiers (← read (·.display target)))

/-- The object that holds the modifiers of a parameter of the given type. -/
def modifier (target : TypeId) : Build δ TypeId := do
  let properties ← modifierProperties target
  let name ← read fun g => Vocabulary.modifierNameStart ++ g.display target
  emit (.modifierFormed name properties.length)
  named name properties none .none

end Build

end TypeGraph
