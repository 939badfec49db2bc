import TypeGraph.Proofs.ArrayLabels
import TypeGraph.Proofs.ObjectIdentity
import TypeGraph.Proofs.Rebuilding

/-!
# Modifiers follow the table

The rules for modifiers are listed by modifier, each with the types of parameters to which it
applies. Listed the other way round they give the modifiers of each type of parameters, and these
are the properties of the object that is made for it, in every graph that a run leads to.

* `Modifier.table`: the modifiers of each type of parameters.
* `Graph.SharesModifiers`: the object and the array in it are in the table of shared types. This is
  what a build brings about (`Graph.Regular.modifier`), and it stays true.
* `Graph.HoldsModifiers`: the slots of the two.
-/

namespace TypeGraph

variable {δ : Type}

/-! ### The table -/

namespace Modifier

/-- A type of parameters, its name, and the modifiers that its parameters may carry. -/
structure Entry where
  target : TypeId
  name : String
  modifiers : List String

/-- The types of parameters that may carry modifiers. -/
def table : List Entry :=
  [⟨.string, "string", ["secure", "default", "allowed", "minLength", "maxLength", "metadata"]⟩,
   ⟨.object, "object", ["secure", "default", "allowed", "metadata"]⟩,
   ⟨.int, "int", ["default", "allowed", "minValue", "maxValue", "metadata"]⟩,
   ⟨.bool, "bool", ["default", "allowed", "metadata"]⟩,
   ⟨.array, "array", ["default", "allowed", "minLength", "maxLength", "metadata"]⟩,
   ⟨.null, "null", ["default", "allowed", "metadata"]⟩]

/-- The value of a modifier is a constant, except for the value that a parameter has by default. -/
def flagsOf (modifier : String) : Flags := if modifier = "default" then .none else .constant

/-- The type of a modifier's value, given the parameter's type and the array of it. The limits are
numbers. -/
def typeOf (target allowed : TypeId) (modifier : String) : TypeId :=
  if modifier = "secure" then .bool
  else if modifier = "default" then target
  else if modifier = "allowed" then allowed
  else if modifier = "metadata" then .modifierMetadata
  else .int

namespace Entry

/-- The properties that hold the modifiers, with the ids of their types. -/
def propertyKeys (entry : Entry) (allowed : TypeId) : List (Property TypeId) :=
  entry.modifiers.map fun modifier =>
    ⟨modifier, typeOf entry.target allowed modifier, flagsOf modifier⟩

/-- The name of the object that holds the modifiers. -/
def objectName (entry : Entry) : String := "ParameterModifier_" ++ entry.name

end Entry

theorem mem_targets_iff {target : TypeId} :
    target ∈ targets ↔ ∃ entry ∈ table, entry.target = target := by
  have htargets : targets = table.map Entry.target := rfl
  rw [htargets, List.mem_map]

theorem mem_plainBuiltins {entry : Entry} (h : entry ∈ table) :
    (entry.target, entry.name) ∈ plainBuiltins := by
  have hknown : ∀ entry ∈ table, (entry.target, entry.name) ∈ plainBuiltins := by decide
  exact hknown entry h

/-- Different types of parameters have different names. -/
theorem target_eq_of_name_eq {entry entry' : Entry} (h : entry ∈ table) (h' : entry' ∈ table)
    (hname : entry.name = entry'.name) : entry.target = entry'.target := by
  have hnodup : (table.map Entry.name).Nodup := by decide
  rw [List.inj_on_of_nodup_map hnodup h h' hname]

theorem eq_of_target_eq {entry entry' : Entry} (h : entry ∈ table) (h' : entry' ∈ table)
    (htarget : entry.target = entry'.target) : entry = entry' := by
  have hnodup : (table.map Entry.target).Nodup := by decide
  exact List.inj_on_of_nodup_map hnodup h h' htarget

/-- The rules that apply to a type of parameters give the modifiers that its entry lists. -/
theorem map_property_rules {entry : Entry} (h : entry ∈ table) (allowed : TypeId) :
    ((rules.filter (entry.target ∈ ·.targets)).map (·.property entry.target allowed) :
      List (Property (Edge δ))) = (entry.propertyKeys allowed).map (Property.map .direct) := by
  simp only [table, List.mem_cons, List.not_mem_nil, or_false] at h
  rcases h with rfl | rfl | rfl | rfl | rfl | rfl <;> rfl

theorem nodup_propertyKeys {entry : Entry} (h : entry ∈ table) (allowed : TypeId) :
    ((entry.propertyKeys allowed).map (·.name)).Nodup := by
  have hnodup : ∀ entry ∈ table, entry.modifiers.Nodup := by decide
  have hnames : (entry.propertyKeys allowed).map (·.name) = entry.modifiers := by
    rw [Entry.propertyKeys, List.map_map]
    exact List.map_id _
  rw [hnames]
  exact hnodup entry h

end Modifier

/-! ### The object in a graph -/

namespace Graph

open Modifier (Entry)

/-- The object that holds the modifiers of an entry, and the array in it, are shared. -/
structure SharesModifiers (g : Graph δ) (entry : Entry) (allowed id : TypeId) : Prop where
  array : (.array (some entry.target), allowed) ∈ g.shared
  object : (.named entry.objectName ⟨entry.propertyKeys allowed, none, .none⟩, id) ∈ g.shared

theorem SharesModifiers.mono {g g' : Graph δ} {entry : Entry} {allowed id : TypeId}
    (h : g.SharesModifiers entry allowed id) (hext : g.Extends g') :
    g'.SharesModifiers entry allowed id :=
  ⟨hext.mem_shared h.array, hext.mem_shared h.object⟩

/-- The objects for two entries are the same if and only if their parameters are of the same
type. -/
theorem SharesModifiers.id_eq_iff {declared : List TypeId} {g : Graph δ} (hs : g.Sound declared)
    {entry entry' : Entry} (hentry : entry ∈ Modifier.table) (hentry' : entry' ∈ Modifier.table)
    {allowed allowed' id id' : TypeId} (h : g.SharesModifiers entry allowed id)
    (h' : g.SharesModifiers entry' allowed' id') : id = id' ↔ entry.target = entry'.target := by
  constructor
  · rintro rfl
    have hname : entry.objectName = entry'.objectName :=
      (Node.named.inj (hs.key_unique h.object h'.object)).1
    exact Modifier.target_eq_of_name_eq hentry hentry' ((String.append_right_inj _).1 hname)
  · intro htarget
    obtain rfl := Modifier.eq_of_target_eq hentry hentry' htarget
    obtain rfl := hs.id_unique h.array h'.array
    exact hs.id_unique h.object h'.object

/-- The graph holds the object with the modifiers of an entry. -/
def HoldsModifiers (g : Graph δ) (entry : Entry) (id : TypeId) : Prop :=
  ∃ allowed, g.slot? allowed = some ⟨entry.name ++ "[]", .array (some entry.target)⟩ ∧
    g.slot? .modifierMetadata = some ⟨"ParameterModifierMetadata",
      .named "ParameterModifierMetadata"
        ⟨[⟨"description", .direct .string, .constant⟩], some (.direct .any), .constant⟩⟩ ∧
    g.slot? id = some ⟨"ParameterModifier_" ++ entry.name,
      .named ("ParameterModifier_" ++ entry.name)
        ⟨(entry.propertyKeys allowed).map (Property.map .direct), none, .none⟩⟩

namespace Regular

variable {declared : List TypeId} {g : Graph δ}

/-- What is shared is held in the slots that the entry calls for. -/
theorem holdsModifiers (h : g.Regular declared) {entry : Entry} (hentry : entry ∈ Modifier.table)
    {allowed id : TypeId} (hshares : g.SharesModifiers entry allowed id) :
    g.HoldsModifiers entry id := by
  refine ⟨allowed, h.slot?_array (Modifier.mem_plainBuiltins hentry) hshares.array, ?_,
    h.slot?_named hshares.object⟩
  rw [h.fresh.slot?_of_lt_eleven (by decide)]
  rfl

variable [Deferral δ]

/-- The object for an entry can always be made, and then it is shared. -/
theorem modifier (h : g.Regular declared) {entry : Entry} (hentry : entry ∈ Modifier.table) :
    (Build.modifier entry.target).Yields g declared fun id g' =>
      ∃ allowed, g'.SharesModifiers entry allowed id := by
  have htarget : entry.target ∈ Modifier.targets := Modifier.mem_targets_iff.2 ⟨entry, hentry, rfl⟩
  rw [Build.modifier_of_mem htarget]
  refine (h.sound.array _).bind fun allowed g₁ h₁ hext₁ harray => ?_
  refine (Build.Yields.read h₁ _).bind fun name g₂ h₂ _ hread => ?_
  obtain ⟨rfl, rfl⟩ := hread
  refine (Build.Yields.emit h₂ _).bind fun _ g₃ h₃ _ hsame => ?_
  subst hsame
  rw [Modifier.map_property_rules hentry, hext₁.display_eq (h.sound.index_lt_of_target htarget),
    h.display_builtin (Modifier.mem_plainBuiltins hentry)]
  obtain ⟨id, g₄, events, hrun, h₄, hext₄, hobject⟩ :=
    h₃.named entry.objectName (Modifier.nodup_propertyKeys hentry allowed)
  exact ⟨id, g₄, events, hrun, h₄, hext₄, allowed, hext₄.mem_shared harray, hobject⟩

end Regular

end Graph

namespace Run

variable [Deferral δ]

theorem graph_perform_modifier (r : Run δ) (target : TypeId) :
    (r.perform (.make (.modifier (.direct target)))).graph =
      (Build.modifier target r.graph).graph := by
  rw [graph_perform_make]
  rfl

/-- Modifiers at any point of a run. A type is refused, and shown in the refusal, if and only if the
table has no entry for it. For an entry, an object is made that is named after the type and has the
modifiers of the entry as its properties, in order, and no others. Whatever happens in between, the
objects for two entries are the same if and only if the entries are for the same type. -/
theorem modifiers_follow_table (ops : List (Operation (Edge δ) TypeId)) :
    let r := (start : Run δ).after ops
    (∀ target, (Build.modifier target r.graph).result =
        .error (.refused (.noModifiers (r.graph.display target))) ↔
      ∀ entry ∈ Modifier.table, entry.target ≠ target) ∧
    ∀ entry ∈ Modifier.table, ∃ id,
      (Build.modifier entry.target r.graph).result = .ok id ∧
      (Build.modifier entry.target r.graph).graph.HoldsModifiers entry id ∧
      ∀ (later : List (Operation (Edge δ) TypeId)), ∀ entry' ∈ Modifier.table,
        let r' := (r.perform (.make (.modifier (.direct entry.target)))).after later
        ∃ id', (Build.modifier entry'.target r'.graph).result = .ok id' ∧
          (id = id' ↔ entry.target = entry'.target) := by
  intro r
  have hreg : r.graph.Regular r.declared := regular ops
  refine ⟨fun target => ⟨?_, fun hnone => ?_⟩, fun entry hentry => ?_⟩
  · rintro hrefused entry hentry rfl
    obtain ⟨id, g, events, hrun, -⟩ := hreg.modifier hentry
    rw [hrun] at hrefused
    cases hrefused
  · refine Build.modifier_of_not_mem (fun htarget => ?_) r.graph
    obtain ⟨entry, hentry, heq⟩ := Modifier.mem_targets_iff.1 htarget
    exact hnone entry hentry heq
  · obtain ⟨id, g, events, hrun, -, -, allowed, hshares⟩ := hreg.modifier hentry
    have hmade := hreg.grows (Build.grows_modifier entry.target r.graph)
    rw [hrun] at hmade ⊢
    refine ⟨id, rfl, hmade.holdsModifiers hentry hshares, fun later entry' hentry' => ?_⟩
    intro r'
    have hperform := regular_after hreg [.make (.modifier (.direct entry.target))]
    have hreg' : r'.graph.Regular r'.declared := regular_after hperform later
    have hlater : g.Extends r'.graph := by
      have hgraph : (r.perform (.make (.modifier (.direct entry.target)))).graph = g := by
        rw [graph_perform_modifier, hrun]
      rw [← hgraph]
      exact (sound_after hperform.sound later).2
    obtain ⟨id', g', events', hrun', hs', hext, allowed', hshares'⟩ := hreg'.modifier hentry'
    refine ⟨id', congrArg Outcome.result hrun', ?_⟩
    exact (hshares.mono (hlater.trans hext)).id_eq_iff hs' hentry hentry' hshares'

/-- The object for integers after an array of integers and an object with the same name were made,
and the object for null after that one was defined. -/
theorem modifiers_follow_table_across_definition :
    let ops : List (Operation (Edge Recipe) TypeId) :=
      [.make (.array (.direct .int)), .declare "ParameterModifier_int"]
    let later : List (Operation (Edge Recipe) TypeId) :=
      [.define ⟨12⟩ [⟨"default", .direct .int, .none⟩] none .none]
    let r := (start : Run Recipe).after ops
    let r' := (r.perform (.make (.modifier (.direct .int)))).after later
    let entry : Modifier.Entry :=
      ⟨.int, "int", ["default", "allowed", "minValue", "maxValue", "metadata"]⟩
    let entry' : Modifier.Entry := ⟨.null, "null", ["default", "allowed", "metadata"]⟩
    entry ∈ Modifier.table ∧ entry' ∈ Modifier.table ∧
      ∃ id id', (Build.modifier .int r.graph).result = .ok id ∧
        (Build.modifier .int r.graph).graph.HoldsModifiers entry id ∧
        (Build.modifier .null r'.graph).result = .ok id' ∧ id ≠ id' := by
  intro ops later r r' entry entry'
  have hentry : entry ∈ Modifier.table := by simp [entry, Modifier.table]
  have hentry' : entry' ∈ Modifier.table := by simp [entry', Modifier.table]
  obtain ⟨id, hid, hholds, hother⟩ := (modifiers_follow_table ops).2 entry hentry
  obtain ⟨id', hid', hiff⟩ := hother later entry' hentry'
  refine ⟨hentry, hentry', id, id', hid, hholds, hid', fun hsame => ?_⟩
  exact absurd (hiff.1 hsame) (by decide)

end Run

end TypeGraph
