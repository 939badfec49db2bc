import TypeGraph.Proofs.Properties
import TypeGraph.Proofs.Variants

/-!
# Grounded runs

Types mention each other by direct edges, and a direct edge may lead to an id that is not there. A
run is grounded if no operation stores such an edge. Unions, discriminated objects and modifiers
need no care, since they are refused if an id is not there.

* `Node.targets`, `Graph.PointsTo`: the direct edges of a type and of a graph.
* `GroundedGrowth`: one change that neither declares nor defines, with a new slot that leads to
  older types only.
* `Build.Grounds`: a build makes such changes only. Every construction does if its own edges lead to
  types that are there (`Construction.grounds_build`).
* `Run.Grounded.induction`: what such changes, declarations and definitions preserve holds after
  every grounded run.
-/

namespace TypeGraph

open Relation (ReflTransGen)
open Resource (Reference)

variable {δ : Type}

/-! ### Direct edges -/

/-- The targets of the direct edges of a body. -/
def Body.targets (body : Body (Edge δ)) : List TypeId := body.types.filterMap Edge.direct?

theorem Body.mem_targets {body : Body (Edge δ)} {id : TypeId} :
    id ∈ body.targets ↔ .direct id ∈ body.types := by
  simp [targets, Edge.direct?_eq_some_iff]

/-- The targets of the direct edges of a type. -/
def Node.targets : Node (Edge δ) → List TypeId
  | object body => body.targets
  | named _ body => body.targets
  | array item => item.toList
  | union members => members
  | discriminated _ _ variants => variants.filterMap fun v => v.2.direct?
  | _ => []

namespace Graph

/-- A direct edge leads from one type to the other. -/
def PointsTo (g : Graph δ) (a b : TypeId) : Prop := ∃ node, g.node? a = some node ∧ b ∈ node.targets

/-- All the types are there. -/
def Covers (g : Graph δ) (ids : List TypeId) : Prop := ∀ id ∈ ids, id.index < g.size

instance (g : Graph δ) (ids : List TypeId) : Decidable (g.Covers ids) :=
  inferInstanceAs (Decidable (∀ id ∈ ids, id.index < g.size))

/-- The direct edges of the properties lead to types that are there. -/
def CoversTypes (g : Graph δ) (ps : List (Property (Edge δ))) : Prop :=
  ∀ p ∈ ps, ∀ id, p.type = .direct id → id.index < g.size

/-- Only those properties of an object count that it keeps. -/
theorem CoversTypes.covers_targets {g : Graph δ} {ps : List (Property (Edge δ))}
    {additional : Option (Edge δ)} {flags : Flags} (hps : g.CoversTypes ps)
    (hadditional : ∀ id, additional = some (.direct id) → id.index < g.size) :
    g.Covers (Body.ofProperties ps additional flags).targets := by
  intro id hid
  rcases List.mem_append.1 (Body.mem_targets.1 hid) with h | h
  · obtain ⟨p, hp, htype⟩ := List.mem_map.1 h
    rw [Body.ofProperties, Property.distinct_eq_settle] at hp
    exact hps p (Property.mem_of_mem_settle hp) id htype
  · exact hadditional id (Option.mem_toList.1 h)

end Graph

/-! ### Grounded changes -/

/-- One change that neither declares nor defines an object. The new slot, if there is one, leads to
types that were there before. -/
structure GroundedGrowth (g g' : Graph δ) : Prop where
  growth : Growth g g'
  covers : ∀ slot, g'.slot? ⟨g.size⟩ = some slot → g.Covers slot.node.targets

/-- Such changes lead from one graph to another. -/
abbrev GrowsGrounded : Graph δ → Graph δ → Prop := ReflTransGen GroundedGrowth

namespace GrowsGrounded

variable {g g' : Graph δ}

theorem grows (h : GrowsGrounded g g') : Grows g g' :=
  h.lift id fun _ _ hstep => hstep.growth

theorem index_lt (h : GrowsGrounded g g') {id : TypeId} (hid : id.index < g.size) :
    id.index < g'.size :=
  lt_of_lt_of_le hid h.grows.size_le

theorem coversTypes (h : GrowsGrounded g g') {ps : List (Property (Edge δ))}
    (hps : g.CoversTypes ps) : g'.CoversTypes ps :=
  fun p hp id hid => h.index_lt (hps p hp id hid)

/-- What single changes preserve in a sound graph, sequences of them preserve. -/
theorem preserves {declared : List TypeId} {P : List TypeId → Graph δ → Prop}
    (grow : ∀ {declared g g'}, g.Sound declared → P declared g → GroundedGrowth g g' →
      P declared g')
    (h : GrowsGrounded g g') (hs : g.Sound declared) (hg : P declared g) :
    g'.Sound declared ∧ P declared g' := by
  induction h with
  | refl => exact ⟨hs, hg⟩
  | tail _ hstep ih => exact ⟨ih.1.growth hstep.growth, grow ih.1 ih.2 hstep⟩

end GrowsGrounded

/-! ### Builds -/

/-- The value of a modifier is of a type that every graph holds, or it is made of the parameter's
type. -/
theorem Modifier.type_mem {rule : Modifier.Rule} (h : rule ∈ Modifier.rules)
    (target array : TypeId) :
    rule.value.type target array ∈ [.bool, .int, .modifierMetadata, target, array] := by
  simp only [Modifier.rules, List.mem_cons, List.not_mem_nil, or_false] at h
  rcases h with rfl | rfl | rfl | rfl | rfl | rfl | rfl | rfl <;> simp [Modifier.Value.type]

namespace Build

variable {α β : Type} {declared : List TypeId} {g : Graph δ}

/-- Carried out on `g`, the build makes grounded changes only, and if it ends with a value, then `Q`
holds of the value and the graph. -/
def Grounds (x : Build δ α) (g : Graph δ) (Q : α → Graph δ → Prop) : Prop :=
  GrowsGrounded g (x g).graph ∧ ∀ a, (x g).result = .ok a → Q a (x g).graph

/-- The type is there. -/
abbrev InRange (id : TypeId) (g : Graph δ) : Prop := id.index < g.size

namespace Grounds

theorem pure {a : α} {Q : α → Graph δ → Prop} (h : Q a g) : (Pure.pure a : Build δ α).Grounds g Q :=
  ⟨.refl, by rintro _ ⟨⟩; exact h⟩

theorem fail {failure : Failure} {Q : α → Graph δ → Prop} :
    (fail failure : Build δ α).Grounds g Q :=
  ⟨.refl, by rintro _ ⟨⟩⟩

theorem emit {event : Event} : (emit event : Build δ Unit).Grounds g fun _ _ => True :=
  ⟨.refl, fun _ _ => trivial⟩

theorem bind {x : Build δ α} {f : α → Build δ β} {P : α → Graph δ → Prop} {Q : β → Graph δ → Prop}
    (hs : g.Sound declared) (hx : x.Grounds g P)
    (hf : ∀ a g', g'.Sound declared → GrowsGrounded g g' → P a g' → (f a).Grounds g' Q) :
    (x >>= f).Grounds g Q := by
  obtain ⟨hgrows, hP⟩ := hx
  cases hrun : x g with
  | mk result g' events =>
    rw [hrun] at hgrows hP
    unfold Grounds
    cases result with
    | error failure =>
      rw [bind_apply_error hrun]
      exact ⟨hgrows, by rintro _ ⟨⟩⟩
    | ok a =>
      rw [bind_apply_ok hrun]
      obtain ⟨hgrows', hQ⟩ := hf a g' (hs.grows hgrows.grows).1 hgrows (hP a rfl)
      exact ⟨hgrows.trans hgrows', hQ⟩

theorem congr {x y : Build δ α} {Q : α → Graph δ → Prop} (h : y.Grounds g Q) (hxy : x g = y g) :
    x.Grounds g Q := by
  unfold Grounds
  rw [hxy]
  exact h

theorem read_bind {f : Graph δ → α} {k : α → Build δ β} {Q : β → Graph δ → Prop}
    (h : (k (f g)).Grounds g Q) : (read f >>= k).Grounds g Q := h

end Grounds

/-- A slot that leads to types that are there is placed by grounded changes. -/
theorem grounds_place {slot : Slot δ} (hs : g.Sound declared) (fits : slot.Fits g)
    (h : g.Covers slot.node.targets) : (place slot).Grounds g InRange := by
  have hpush : ∀ {slot'}, (g.push slot).slot? ⟨g.size⟩ = some slot' →
      g.Covers slot'.node.targets := by
    intro slot' hslot
    rw [g.slot?_push_size] at hslot
    obtain rfl := Option.some.inj hslot
    exact h
  unfold Grounds
  cases hdirect : slot.node.direct? with
  | none =>
    rw [place_of_unshared hdirect]
    refine ⟨.single ⟨.push fits hdirect, fun _ => hpush⟩, ?_⟩
    rintro _ ⟨⟩
    show g.size < (g.push slot).size
    simp
  | some key =>
    cases hknown : g.shared.lookup key with
    | some id =>
      rw [place_of_known hdirect hknown]
      refine ⟨.refl, ?_⟩
      rintro _ ⟨⟩
      exact hs.index_lt_of_shared (hs.lookup_eq_some_iff.1 hknown)
    | none =>
      rw [place_of_new hdirect hknown]
      refine ⟨.single ⟨.share fits hdirect hknown, fun _ => hpush⟩, ?_⟩
      rintro _ ⟨⟩
      show g.size < (g.push slot).size
      simp

theorem grounds_literal (hs : g.Sound declared) (value : String) :
    (literal value).Grounds g InRange :=
  grounds_place hs rfl (by simp [Graph.Covers, Node.targets])

theorem grounds_object (hs : g.Sound declared) {ps : List (Property (Edge δ))}
    {additional : Option (Edge δ)} (h : g.Covers (Body.ofProperties ps additional .none).targets) :
    (object ps additional).Grounds g InRange :=
  grounds_place hs rfl h

theorem grounds_named (hs : g.Sound declared) {name : String} {ps : List (Property (Edge δ))}
    {additional : Option (Edge δ)} {flags : Flags}
    (h : g.Covers (Body.ofProperties ps additional flags).targets) :
    (named name ps additional flags).Grounds g InRange :=
  grounds_place hs rfl h

theorem grounds_named_of_coversTypes (hs : g.Sound declared) {name : String} {event : Event}
    {ps : List (Property (Edge δ))} (hps : g.CoversTypes ps) :
    (do emit event; named name ps none .none).Grounds g InRange := by
  refine .bind hs .emit fun _ g' hs' hgrows _ => grounds_named hs' ?_
  exact (hgrows.coversTypes hps).covers_targets (by simp)

theorem grounds_unite (hs : g.Sound declared) {ids : List TypeId} (hord : g.Ordered ids)
    (hleaf : ∀ m ∈ ids, g.IsLeaf m) : (unite ids).Grounds g InRange := by
  rcases ids with _ | ⟨a, _ | ⟨b, rest⟩⟩
  · exact .pure (hs.index_lt_of_lt_eleven (by decide))
  · exact .pure (hleaf a (by simp)).index_lt
  · unfold Grounds
    rw [unite_cons_cons]
    exact grounds_place hs ⟨by simp, rfl, hord, hleaf⟩ fun m hm => (hleaf m hm).index_lt

variable [Deferral δ]

theorem grounds_array (hs : g.Sound declared) {item : Edge δ}
    (h : (g.resolve item).index < g.size) : (array item).Grounds g InRange := by
  refine .congr (grounds_place hs ?_ ?_) (array_apply item g)
  · exact rfl
  · intro id hid
    obtain rfl : id = g.resolve item := by simpa [Node.targets] using hid
    exact h

theorem grounds_union (hs : g.Sound declared) (members : List (Edge δ)) :
    (union members).Grounds g InRange := by
  have happly := union_apply members g
  cases hleaves : gather g.leaves? (members.map g.resolve) with
  | none =>
    rw [hleaves] at happly
    exact .congr (y := Build.fail .dangling) .fail happly
  | some leaves =>
    rw [hleaves] at happly
    refine .congr (grounds_unite hs (g.ordered_canonical leaves) fun m hm => ?_) happly
    obtain ⟨a, -, l, hl, hml⟩ := (mem_gather hleaves m).1 (Graph.mem_canonical.1 hm)
    exact Graph.isLeaf_of_mem_leavesWithin hl hml

/-- The members of a discriminated object are there if they pass the check. -/
theorem grounds_discriminated (hs : g.Sound declared) (name key : String)
    (members : List (Edge δ)) : (discriminated name key members).Grounds g InRange := by
  refine .read_bind ?_
  cases hcheck : g.variants name key members with
  | error failure =>
    cases failure with
    | refused cause => exact .bind hs .emit fun _ _ _ _ _ => .fail
    | dangling => exact .fail
  | ok variants =>
    refine .bind hs .emit fun _ g' hs' hgrows _ => grounds_place hs' rfl fun id hid => ?_
    obtain ⟨entry, hentry, hdirect⟩ := List.mem_filterMap.1 hid
    obtain ⟨value, hvalue, -⟩ := (Graph.variants_eq_ok_iff.1 hcheck).2.1 entry hentry
    obtain ⟨_, body, p, hnode, -⟩ := Graph.discriminator_eq_ok_iff.1 hvalue
    rw [Edge.direct?_eq_some_iff.1 hdirect] at hnode
    exact hgrows.index_lt (Graph.index_lt_of_node? hnode)

theorem grounds_modifierProperties (hs : g.Sound declared) (target : TypeId) :
    (modifierProperties target).Grounds g fun ps g' => g'.CoversTypes ps := by
  unfold modifierProperties
  split_ifs with htarget
  · have hlt := hs.index_lt_of_target htarget
    refine .bind hs (grounds_array hs hlt) fun array g' hs' hgrows harray => .pure ?_
    intro p hp id hid
    obtain ⟨rule, hrule, rfl⟩ := List.mem_map.1 hp
    obtain rfl := Edge.direct.inj hid
    have hmem := Modifier.type_mem (List.mem_of_mem_filter hrule) target array
    simp only [List.mem_cons, List.not_mem_nil, or_false] at hmem
    rcases hmem with h | h | h | h | h <;> rw [h]
    · exact hs'.index_lt_of_lt_eleven (by decide)
    · exact hs'.index_lt_of_lt_eleven (by decide)
    · exact hs'.index_lt_of_lt_eleven (by decide)
    · exact hgrows.index_lt hlt
    · exact harray
  · exact .read_bind .fail

theorem grounds_modifier (hs : g.Sound declared) (target : TypeId) :
    (modifier target).Grounds g InRange := by
  refine .bind hs (grounds_modifierProperties hs target) fun ps g' hs' _ hps => .read_bind ?_
  exact grounds_named_of_coversTypes hs' hps

theorem grounds_resourceProperties (hs : g.Sound declared) (reference : Reference) :
    (resourceProperties reference).Grounds g fun ps g' => g'.CoversTypes ps := by
  refine .bind hs (grounds_literal hs _) fun type g₁ hs₁ hgrows₁ htype => ?_
  refine .bind hs₁ (grounds_literal hs₁ _) fun version g₂ hs₂ hgrows₂ hversion => ?_
  have hstring := hs₂.index_lt_of_lt_eleven (show TypeId.string.index < 11 by decide)
  refine .bind hs₂ (grounds_array hs₂ hstring) fun strings g₃ hs₃ hgrows₃ hstrings => ?_
  have hresource := hs₃.index_lt_of_lt_eleven (show TypeId.resource.index < 11 by decide)
  refine .bind hs₃ (grounds_array hs₃ hresource)
    fun resources g₄ hs₄ hgrows₄ hresources => .pure ?_
  have htype' := hgrows₄.index_lt (hgrows₃.index_lt (hgrows₂.index_lt htype))
  have hversion' := hgrows₄.index_lt (hgrows₃.index_lt hversion)
  have hstrings' := hgrows₄.index_lt hstrings
  have hstring' := hgrows₄.index_lt (hgrows₃.index_lt hstring)
  have hobject := hs₄.index_lt_of_lt_eleven (show TypeId.object.index < 11 by decide)
  have htags := hs₄.index_lt_of_lt_eleven (show TypeId.tags.index < 11 by decide)
  simp [Graph.CoversTypes, Resource.bodyProperties, htype', hversion', hstrings', hstring', hobject,
    htags, hresources]

theorem grounds_resource (hs : g.Sound declared) (reference : Reference) :
    (resource reference).Grounds g InRange := by
  refine .bind hs (grounds_resourceProperties hs reference) fun ps g' hs' _ hps => ?_
  exact grounds_named_of_coversTypes hs' hps

end Build

/-! ### Operations -/

variable [Deferral δ]

/-- The direct edges that the type will store lead to types that are there. A union, a discriminated
object or a modifier is refused otherwise. -/
def Construction.Grounded (g : Graph δ) : Construction (Edge δ) → Prop
  | array item => (g.resolve item).index < g.size
  | object properties additional => g.Covers (Body.ofProperties properties additional .none).targets
  | named _ properties additional additionalFlags =>
    g.Covers (Body.ofProperties properties additional additionalFlags).targets
  | _ => True

/-- The direct edges that the operation stores lead to types that are there. -/
def Operation.Grounded (g : Graph δ) : Operation (Edge δ) TypeId → Prop
  | make construction => construction.Grounded g
  | define _ properties additional additionalFlags =>
    g.Covers (Body.ofProperties properties additional additionalFlags).targets
  | _ => True

instance (g : Graph δ) : (c : Construction (Edge δ)) → Decidable (c.Grounded g)
  | .array item => inferInstanceAs (Decidable ((g.resolve item).index < g.size))
  | .object properties additional =>
    inferInstanceAs (Decidable (g.Covers (Body.ofProperties properties additional .none).targets))
  | .named _ properties additional flags =>
    inferInstanceAs (Decidable (g.Covers (Body.ofProperties properties additional flags).targets))
  | .literal _ | .union _ | .discriminated _ _ _ | .modifier _ | .resource _ => .isTrue trivial

instance (g : Graph δ) : (op : Operation (Edge δ) TypeId) → Decidable (op.Grounded g)
  | .make c => inferInstanceAs (Decidable (c.Grounded g))
  | .define _ properties additional flags =>
    inferInstanceAs (Decidable (g.Covers (Body.ofProperties properties additional flags).targets))
  | .declare _ | .register _ _ | .registered _ | .variants _ _ _ | .modifierProperties _
  | .resourceProperties _ | .same _ _ | .edge _ | .inspect _ _ | .query _ => .isTrue trivial

theorem Construction.grounds_build {declared : List TypeId} {g : Graph δ} (hs : g.Sound declared)
    {c : Construction (Edge δ)} (h : c.Grounded g) : c.build.Grounds g Build.InRange := by
  cases c with
  | literal value => exact Build.grounds_literal hs value
  | array item => exact Build.grounds_array hs h
  | object ps additional => exact Build.grounds_object hs h
  | named name ps additional flags => exact Build.grounds_named hs h
  | union members => exact Build.grounds_union hs members
  | discriminated name key members => exact Build.grounds_discriminated hs name key members
  | modifier target => exact .read_bind (Build.grounds_modifier hs _)
  | resource text =>
    simp only [build]
    split
    · exact Build.grounds_resource hs _
    · exact .fail

/-- A grounded operation that neither declares nor defines makes grounded changes only. -/
theorem Operation.growsGrounded_run {declared : List TypeId} {g : Graph δ} (hs : g.Sound declared)
    {op : Operation (Edge δ) TypeId} (hop : op.isTwoStep = false) (h : op.Grounded g) :
    GrowsGrounded g (op.run g).graph := by
  -- what is shown in the end does not change the graph
  have quiet : ∀ {α : Type} {g' : Graph δ} (f : Graph δ → α),
      (Build.read f).Grounds g' fun _ _ => True := fun _ => ⟨.refl, fun _ _ => trivial⟩
  cases op with
  | make c => exact (Build.Grounds.bind hs (c.grounds_build hs h) fun _ _ _ _ _ => quiet _).1
  | declare name => cases hop
  | define id ps additional flags => cases hop
  | register name type =>
    refine .single ⟨.register name (g.resolve type), fun slot hslot => ?_⟩
    exact absurd (Graph.index_lt_of_slot? hslot) (lt_irrefl _)
  | registered name =>
    have hrun : (Build.registered name).Grounds g fun _ _ => True := by
      refine .read_bind ?_
      cases g.lookup? name with
      | none => exact .fail
      | some id => exact .pure trivial
    exact (Build.Grounds.bind hs hrun fun _ _ _ _ _ => quiet _).1
  | variants name key members =>
    simp only [run, Build.read_bind_apply]
    cases g.variants name key members <;> exact .refl
  | modifierProperties target =>
    have hrun := Build.grounds_modifierProperties hs (g.resolve target)
    exact (Build.Grounds.bind hs hrun fun _ _ _ _ _ => quiet _).1
  | resourceProperties text =>
    simp only [run]
    cases Reference.parse text with
    | ok reference =>
      have hrun := Build.grounds_resourceProperties hs reference
      exact (Build.Grounds.bind hs hrun fun _ _ _ _ _ => quiet _).1
    | error cause => exact .refl
  | same a b => exact .refl
  | edge type => exact .refl
  | inspect type question =>
    simp only [run, Build.read_bind_apply]
    cases question.answer g (g.resolve type) <;> exact .refl
  | query question => exact .refl

/-! ### Runs -/

namespace Run

/-- Going on with the operations, no direct edge is stored that leads to an id that is not there. -/
def Grounded : Run δ → List (Operation (Edge δ) TypeId) → Prop
  | _, [] => True
  | r, op :: ops => op.Grounded r.graph ∧ (r.perform op).Grounded ops

instance decidableGrounded (r : Run δ) :
    (ops : List (Operation (Edge δ) TypeId)) → Decidable (r.Grounded ops)
  | [] => .isTrue trivial
  | op :: ops =>
    have := decidableGrounded (r.perform op) ops
    inferInstanceAs (Decidable (op.Grounded r.graph ∧ (r.perform op).Grounded ops))

/-- A property of the declared objects and the graph that grounded changes, declarations and
grounded definitions preserve is preserved by every grounded run. -/
theorem Grounded.induction {P : List TypeId → Graph δ → Prop}
    (grow : ∀ {declared g g'}, g.Sound declared → P declared g → GroundedGrowth g g' →
      P declared g')
    (declare : ∀ {declared g} (name : String), g.Sound declared → P declared g →
      P (⟨g.size⟩ :: declared) (g.declare name))
    (define : ∀ {declared g id} (body : Body (Edge δ)), g.Sound declared → P declared g →
      id ∈ g.pending → g.Covers body.targets → P declared (g.define id body))
    {r : Run δ} (hs : r.graph.Sound r.declared) (h : P r.declared r.graph)
    {ops : List (Operation (Edge δ) TypeId)} (hops : r.Grounded ops) :
    P (r.after ops).declared (r.after ops).graph := by
  induction ops generalizing r with
  | nil => exact h
  | cons op ops ih =>
    obtain ⟨hop, hops⟩ := hops
    refine ih (sound_after hs [op]).1 ?_ hops
    rcases r.perform_forms op with ⟨name, -, hgraph, hdeclared⟩ |
      ⟨id, ps, additional, flags, rfl, hid, hgraph, hdeclared⟩ | ⟨hform, hdeclared⟩
    · rw [hgraph, hdeclared]
      exact declare name hs h
    · rw [hgraph, hdeclared]
      exact define _ hs h hid hop
    · rw [hdeclared]
      rcases hform with hform | hsame
      · have hgrows : GrowsGrounded r.graph (r.perform op).graph :=
          Operation.growsGrounded_run hs hform hop
        exact (hgrows.preserves grow hs h).2
      · rwa [hsame]

end Run

end TypeGraph
