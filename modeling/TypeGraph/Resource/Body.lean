import TypeGraph.Graph.Construct
import TypeGraph.Resource.Reference

/-!
# Bodies of resources

The body of a resource is an object named after the reference to its type. It has the same eighteen
properties for every reference; two of them are string literals that spell the reference out.
-/

namespace TypeGraph

open Resource (Reference)

/-- The properties of a body, given the types of those that are not the same in every graph. -/
def Resource.bodyProperties {δ : Type} (type version strings resources : TypeId) :
    List (Property (Edge δ)) :=
  [⟨"id", .direct .string, .readOnly ||| .skipInlining⟩,
   ⟨"name", .direct .string, .required ||| .skipInlining⟩,
   ⟨"type", .direct type, .readOnly ||| .skipInlining⟩,
   ⟨"apiVersion", .direct version, .readOnly ||| .skipInlining⟩,
   ⟨"sku", .direct .object, .none⟩,
   ⟨"kind", .direct .string, .none⟩,
   ⟨"managedBy", .direct .string, .none⟩,
   ⟨"managedByExtended", .direct strings, .none⟩,
   ⟨"location", .direct .string, .none⟩,
   ⟨"extendedLocation", .direct .object, .none⟩,
   ⟨"zones", .direct strings, .none⟩,
   ⟨"plan", .direct .object, .none⟩,
   ⟨"eTag", .direct .string, .none⟩,
   ⟨"tags", .direct .tags, .none⟩,
   ⟨"scale", .direct .object, .none⟩,
   ⟨"identity", .direct .object, .none⟩,
   ⟨"properties", .direct .object, .none⟩,
   ⟨"dependsOn", .direct resources, .writeOnly⟩]

namespace Build

variable {δ : Type} [Deferral δ]

/-- The properties of the body for a reference. -/
def resourceProperties (reference : Reference) : Build δ (List (Property (Edge δ))) := do
  let type ← literal reference.fullType
  let version ← literal reference.version
  let strings ← array (.direct .string)
  let resources ← array (.direct .resource)
  return Resource.bodyProperties type version strings resources

/-- The body for a reference. -/
def resource (reference : Reference) : Build δ TypeId := do
  let properties ← resourceProperties reference
  emit (.resourceFormed reference.text properties.length)
  named reference.text properties none .none

end Build

end TypeGraph
