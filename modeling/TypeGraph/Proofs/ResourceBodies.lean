import TypeGraph.Proofs.ArrayLabels
import TypeGraph.Proofs.ObjectIdentity
import TypeGraph.Proofs.ReferencePattern

/-!
# Bodies of resources are known by their references

The body of a resource is put together from five types that are all shared: two literals, two arrays
and the body itself. Some of them, or all, may be there before, made for another purpose.

* `Resource.propertyNames`, `Resource.propertyFlags`, `Resource.propertyType`: the eighteen
  properties, told by name.
* `Graph.SharesBody`: the five types are in the table. This is what a build brings about
  (`Graph.Sound.resource`), and it stays true.
* `Graph.HoldsBody`: the five slots. They are what the entries of the table call for, in every graph
  that a run leads to (`Graph.Regular.holdsBody`).
-/

namespace TypeGraph

open Resource (Reference)

variable {δ : Type}

/-! ### The properties of a body -/

namespace Resource

/-- The properties that every body has. -/
def propertyNames : List String :=
  ["id", "name", "type", "apiVersion", "sku", "kind", "managedBy", "managedByExtended", "location",
   "extendedLocation", "zones", "plan", "eTag", "tags", "scale", "identity", "properties",
   "dependsOn"]

/-- What tells the resource apart is not inlined, and only the name among it may be assigned. -/
def propertyFlags (name : String) : Flags :=
  if name = "name" then .required ||| .skipInlining
  else if name ∈ ["id", "type", "apiVersion"] then .readOnly ||| .skipInlining
  else if name = "dependsOn" then .writeOnly
  else .none

/-- The type of a property, given those that are not the same in every graph. -/
def propertyType (type version strings resources : TypeId) (name : String) : TypeId :=
  if name = "type" then type
  else if name = "apiVersion" then version
  else if name ∈ ["managedByExtended", "zones"] then strings
  else if name = "dependsOn" then resources
  else if name = "tags" then .tags
  else if name ∈ ["sku", "extendedLocation", "plan", "scale", "identity", "properties"] then .object
  else .string

/-- The properties of a body with the ids of their types. -/
def propertyKeys (type version strings resources : TypeId) : List (Property TypeId) :=
  propertyNames.map fun name =>
    ⟨name, propertyType type version strings resources name, propertyFlags name⟩

/-- No property is given twice. -/
theorem nodup_propertyKeys (type version strings resources : TypeId) :
    ((propertyKeys type version strings resources).map (·.name)).Nodup := by
  have hnames : (propertyKeys type version strings resources).map (·.name) = propertyNames := by
    rw [propertyKeys, List.map_map]
    exact List.map_id _
  rw [hnames]
  decide

theorem bodyProperties_eq (type version strings resources : TypeId) :
    (bodyProperties type version strings resources : List (Property (Edge δ))) =
      (propertyKeys type version strings resources).map (Property.map .direct) := by
  simp [bodyProperties, propertyKeys, propertyNames, propertyType, propertyFlags, Property.map]

end Resource

/-! ### A body in the table -/

namespace Graph

/-- The body for a reference and the types in it are shared. -/
structure SharesBody (g : Graph δ) (strings resources : TypeId) (reference : Reference)
    (id : TypeId) : Prop where
  stringArray : (.array (some .string), strings) ∈ g.shared
  resourceArray : (.array (some .resource), resources) ∈ g.shared
  body : ∃ type version, (.literal reference.fullType, type) ∈ g.shared ∧
    (.literal reference.version, version) ∈ g.shared ∧
    (.named reference.text
      ⟨Resource.propertyKeys type version strings resources, none, .none⟩, id) ∈ g.shared

namespace SharesBody

variable {g g' : Graph δ} {strings resources id : TypeId} {reference : Reference}

theorem mono (h : g.SharesBody strings resources reference id) (hext : g.Extends g') :
    g'.SharesBody strings resources reference id := by
  obtain ⟨hstrings, hresources, type, version, htype, hversion, hbody⟩ := h
  exact ⟨hext.mem_shared hstrings, hext.mem_shared hresources, type, version,
    hext.mem_shared htype, hext.mem_shared hversion, hext.mem_shared hbody⟩

/-- A reference has one body. -/
theorem id_unique {declared : List TypeId} (hs : g.Sound declared) {id' : TypeId}
    (h : g.SharesBody strings resources reference id)
    (h' : g.SharesBody strings resources reference id') : id = id' := by
  obtain ⟨-, -, type, version, htype, hversion, hbody⟩ := h
  obtain ⟨-, -, type', version', htype', hversion', hbody'⟩ := h'
  obtain rfl := hs.id_unique htype htype'
  obtain rfl := hs.id_unique hversion hversion'
  exact hs.id_unique hbody hbody'

/-- A body tells how its reference is written. -/
theorem text_unique {declared : List TypeId} (hs : g.Sound declared) {reference' : Reference}
    (h : g.SharesBody strings resources reference id)
    (h' : g.SharesBody strings resources reference' id) : reference.text = reference'.text := by
  obtain ⟨-, -, type, version, -, -, hbody⟩ := h
  obtain ⟨-, -, type', version', -, -, hbody'⟩ := h'
  exact (Node.named.inj (hs.key_unique hbody hbody')).1

end SharesBody

/-- The graph holds the body for a reference. It is named after the reference, and the literals in
it spell the reference out. -/
structure HoldsBody (g : Graph δ) (strings resources : TypeId) (reference : Reference)
    (id : TypeId) : Prop where
  stringArray : g.slot? strings = some ⟨"string[]", .array (some .string)⟩
  resourceArray : g.slot? resources = some ⟨"resource[]", .array (some .resource)⟩
  body : ∃ type version,
    g.slot? type = some ⟨Text.quoted reference.fullType, .literal reference.fullType⟩ ∧
    g.slot? version = some ⟨Text.quoted reference.version, .literal reference.version⟩ ∧
    g.slot? id = some ⟨reference.text, .named reference.text
      ⟨(Resource.propertyKeys type version strings resources).map (Property.map .direct), none,
        .none⟩⟩

namespace Sound

variable {declared : List TypeId} {g : Graph δ}

theorem literal (h : g.Sound declared) (value : String) :
    (Build.literal value).Yields g declared fun id g' => (.literal value, id) ∈ g'.shared :=
  h.place (by exact rfl) rfl

variable [Deferral δ]

/-- The body for a reference can always be made, and then it is shared. -/
theorem resource (h : g.Sound declared) (reference : Reference) :
    (Build.resource reference).Yields g declared fun id g' =>
      ∃ strings resources, g'.SharesBody strings resources reference id := by
  simp only [Build.resource, Build.resourceProperties, bind_assoc, pure_bind]
  refine (h.literal _).bind fun type g₁ h₁ _ htype => ?_
  refine (h₁.literal _).bind fun version g₂ h₂ hext₂ hversion => ?_
  refine (h₂.array _).bind fun strings g₃ h₃ hext₃ hstrings => ?_
  refine (h₃.array _).bind fun resources g₄ h₄ hext₄ hresources => ?_
  refine (Build.Yields.emit h₄ _).bind fun _ g₅ h₅ _ hsame => ?_
  subst hsame
  rw [Resource.bodyProperties_eq]
  obtain ⟨id, g₆, events, hrun, h₆, hext₆, hbody⟩ := h₅.named reference.text
    (Resource.nodup_propertyKeys type version strings resources)
  refine ⟨id, g₆, events, hrun, h₆, hext₆, strings, resources, ?_, ?_, type, version, ?_, ?_, hbody⟩
  · exact hext₆.mem_shared (hext₄.mem_shared hstrings)
  · exact hext₆.mem_shared hresources
  · exact (hext₂.trans (hext₃.trans (hext₄.trans hext₆))).mem_shared htype
  · exact (hext₃.trans (hext₄.trans hext₆)).mem_shared hversion

end Sound

/-- A body that is shared is held in the slots that its reference calls for. -/
theorem Regular.holdsBody {declared : List TypeId} {g : Graph δ} (h : g.Regular declared)
    {strings resources id : TypeId} {reference : Reference}
    (hbody : g.SharesBody strings resources reference id) :
    g.HoldsBody strings resources reference id := by
  have hstring : (TypeId.string, "string") ∈ plainBuiltins := by decide
  have hresource : (TypeId.resource, "resource") ∈ plainBuiltins := by decide
  obtain ⟨hstrings, hresources, type, version, htype, hversion, hnamed⟩ := hbody
  refine ⟨?_, ?_, type, version, h.slot?_literal htype, h.slot?_literal hversion,
    h.slot?_named hnamed⟩
  · rw [h.slot?_array hstring hstrings]
    rfl
  · rw [h.slot?_array hresource hresources]
    rfl

end Graph

namespace Run

variable [Deferral δ]

theorem graph_perform_resource (r : Run δ) {text : String} {reference : Reference}
    (h : Reference.parse text = .ok reference) :
    (r.perform (.make (.resource text))).graph = (Build.resource reference r.graph).graph := by
  rw [graph_perform_make, Construction.build, h]

/-- The bodies for two references that were read, made at any two points of a run, whatever happens
in between. They have the same id if and only if the references are written in the same way. Each
body is named after its reference and has the eighteen properties and no others, and the bodies
differ only in the literals that spell the references out. -/
theorem resource_bodies_known_by_reference (ops later : List (Operation (Edge δ) TypeId))
    {text₁ text₂ : String} {ref₁ ref₂ : Reference} (h₁ : Reference.parse text₁ = .ok ref₁)
    (h₂ : Reference.parse text₂ = .ok ref₂) :
    let r := (start : Run δ).after ops
    let r' := (r.perform (.make (.resource text₁))).after later
    let first := Build.resource ref₁ r.graph
    let second := Build.resource ref₂ r'.graph
    ∃ id₁ id₂ strings resources, first.result = .ok id₁ ∧ second.result = .ok id₂ ∧
      (id₁ = id₂ ↔ ref₁.text = ref₂.text) ∧
      first.graph.HoldsBody strings resources ref₁ id₁ ∧
      second.graph.HoldsBody strings resources ref₁ id₁ ∧
      second.graph.HoldsBody strings resources ref₂ id₂ := by
  intro r r' first second
  have hr : r.graph.Regular r.declared := regular ops
  have hperform := regular_after hr [.make (.resource text₁)]
  have hr' : r'.graph.Regular r'.declared := regular_after hperform later
  have hlater : first.graph.Extends r'.graph := by
    rw [← graph_perform_resource r h₁]
    exact (sound_after hperform.sound later).2
  have hreg := hr.grows (Build.grows_resource ref₁ r.graph)
  have hreg' := hr'.grows (Build.grows_resource ref₂ r'.graph)
  obtain ⟨id₁, g₁, _, hrun, -, -, strings, resources, hbody⟩ := hr.sound.resource ref₁
  obtain ⟨id₂, g₂, _, hrun', -, hext, strings', resources', hbody'⟩ := hr'.sound.resource ref₂
  obtain rfl : first.graph = g₁ := congrArg Outcome.graph hrun
  obtain rfl : second.graph = g₂ := congrArg Outcome.graph hrun'
  have hkept : second.graph.SharesBody strings resources ref₁ id₁ := hbody.mono (hlater.trans hext)
  -- the last graph holds one array of each kind
  obtain rfl := hreg'.sound.id_unique hkept.stringArray hbody'.stringArray
  obtain rfl := hreg'.sound.id_unique hkept.resourceArray hbody'.resourceArray
  refine ⟨id₁, id₂, strings, resources, congrArg Outcome.result hrun, congrArg Outcome.result hrun',
    ⟨?_, fun htext => ?_⟩, hreg.holdsBody hbody, hreg'.holdsBody hkept, hreg'.holdsBody hbody'⟩
  · rintro rfl
    exact hkept.text_unique hreg'.sound hbody'
  · obtain rfl := Reference.eq_of_text_eq h₁ h₂ htext
    exact hkept.id_unique hreg'.sound hbody'

/-- Two references that differ in a capital only. An object with the name of the first body and some
of the types in it were there before. -/
theorem resource_bodies_known_by_reference_with_capitals :
    let ops : List (Operation (Edge Recipe) TypeId) :=
      [.declare "A/b@2020-01-01", .make (.literal "A/b"), .make (.array (.direct .string))]
    let later : List (Operation (Edge Recipe) TypeId) :=
      [.define ⟨11⟩ [⟨"type", .direct ⟨12⟩, .none⟩] none .none]
    let r := (start : Run Recipe).after ops
    let r' := (r.perform (.make (.resource "A/b@2020-01-01"))).after later
    let ref₁ : Reference := ⟨"A", ["b"], "2020-01-01"⟩
    let ref₂ : Reference := ⟨"a", ["b"], "2020-01-01"⟩
    Reference.parse "A/b@2020-01-01" = .ok ref₁ ∧ Reference.parse "a/b@2020-01-01" = .ok ref₂ ∧
      ∃ id₁ id₂, (Build.resource ref₁ r.graph).result = .ok id₁ ∧
        (Build.resource ref₂ r'.graph).result = .ok id₂ ∧ id₁ ≠ id₂ := by
  intro ops later r r' ref₁ ref₂
  have h₁ : Reference.parse "A/b@2020-01-01" = .ok ref₁ := by decide
  have h₂ : Reference.parse "a/b@2020-01-01" = .ok ref₂ := by decide
  have htext : ref₁.text ≠ ref₂.text := by decide
  obtain ⟨id₁, id₂, -, -, hid₁, hid₂, hiff, -⟩ :=
    resource_bodies_known_by_reference ops later h₁ h₂
  exact ⟨h₁, h₂, id₁, id₂, hid₁, hid₂, fun hsame => htext (hiff.1 hsame)⟩

end Run

end TypeGraph
