import TypeGraph.Proofs.Sharing

/-!
# Labels of slots

A slot gets its label when it is made, from its type and, for a union, from the labels that the
members have at that time. Labels do not change, so that the label of a slot is right for good:
`Graph.Labelled` holds after every run (`Run.labelled_after`). The labels of arrays are left out
here, since an array can be made of items that are not there yet.
-/

namespace TypeGraph

variable {δ : Type}

/-- The label of the slot is the one that its type calls for. -/
def Slot.Labelled (g : Graph δ) (slot : Slot δ) : Prop :=
  match slot.node with
  | .any => slot.label = "any"
  | .primitive p => slot.label = p.name
  | .literal value => slot.label = Text.quoted value
  | .object _ => slot.label = "object"
  | .named name _ => slot.label = name
  | .array none => slot.label = "array"
  | .array (some _) => True
  | .union members =>
    slot.label = if members = [] then "never" else g.unionLabel members
  | .discriminated name _ _ => slot.label = name
  | .resource => slot.label = "resource"

theorem Slot.Fits.labelled {g : Graph δ} {slot : Slot δ} (fits : slot.Fits g) :
    slot.Labelled g := by
  obtain ⟨label, node⟩ := slot
  cases node with
  | union members =>
    obtain ⟨hlength, hlabel, -⟩ := fits
    have hne : members ≠ [] := by
      rintro rfl
      simp at hlength
    exact hlabel.trans (if_neg hne).symm
  | array item =>
    cases item with
    | none => cases fits
    | some item => trivial
  | any => cases fits
  | primitive p => cases fits
  | resource => cases fits
  | _ => exact fits

namespace Graph

theorem Extends.unionLabel_eq {g g' : Graph δ} (h : g.Extends g') {members : List TypeId}
    (hleaf : ∀ m ∈ members, g.IsLeaf m) : g'.unionLabel members = g.unionLabel members := by
  have hmap : members.map g'.display = members.map g.display :=
    List.map_congr_left fun m hm => h.display_eq (hleaf m hm).index_lt
  rw [unionLabel, unionLabel, hmap]

/-- A label stays right in later graphs. -/
theorem Extends.labelled {g g' : Graph δ} (h : g.Extends g') {slot : Slot δ}
    (hleaf : ∀ members, slot.node = .union members → ∀ m ∈ members, g.IsLeaf m)
    (hslot : slot.Labelled g) : slot.Labelled g' := by
  obtain ⟨label, node⟩ := slot
  cases node with
  | union members =>
    show label = if members = [] then "never" else g'.unionLabel members
    rw [h.unionLabel_eq (hleaf members rfl)]
    exact hslot
  | array item => cases item <;> exact hslot
  | _ => exact hslot

/-- All labels of the graph are right. -/
def Labelled (g : Graph δ) : Prop :=
  ∀ (id : TypeId) (slot : Slot δ), g.slot? id = some slot → slot.Labelled g

namespace Labelled

variable {declared : List TypeId} {g g' : Graph δ}

theorem slot?_literal (h : g.Labelled) {id : TypeId} {value : String}
    (hnode : g.node? id = some (.literal value)) :
    g.slot? id = some ⟨Text.quoted value, .literal value⟩ := by
  obtain ⟨⟨label, _⟩, hslot, rfl⟩ := node?_eq_some_iff.1 hnode
  obtain rfl : label = Text.quoted value := h id _ hslot
  exact hslot

theorem slot?_named (h : g.Labelled) {id : TypeId} {name : String} {body : Body (Edge δ)}
    (hnode : g.node? id = some (.named name body)) :
    g.slot? id = some ⟨name, .named name body⟩ := by
  obtain ⟨⟨label, _⟩, hslot, rfl⟩ := node?_eq_some_iff.1 hnode
  obtain rfl : label = name := h id _ hslot
  exact hslot

theorem fresh : (Graph.fresh : Graph δ).Labelled := by
  intro id slot hslot
  obtain ⟨i⟩ := id
  have hi : i < 11 := by
    have hlt := index_lt_of_slot? hslot
    rwa [size_fresh] at hlt
  rw [fresh_eq] at hslot
  interval_cases i <;> obtain rfl := Option.some.inj hslot <;> rfl

/-- A slot of a later graph was there before, or its label is right in the earlier graph. -/
theorem of_slots (h : g.Labelled) (hsound : g.Sound declared) (hext : g.Extends g')
    (hslots : ∀ id slot, g'.slot? id = some slot → g.slot? id = some slot ∨ (slot.Labelled g ∧
      ∀ members, slot.node = .union members → ∀ m ∈ members, g.IsLeaf m)) : g'.Labelled := by
  intro id slot hslot
  rcases hslots id slot hslot with hold | ⟨hlabel, hleaf⟩
  · refine hext.labelled (fun members hnode m hm => ?_) (h id slot hold)
    exact ((hsound.union (node?_eq_some_iff.2 ⟨slot, hold, hnode⟩)).2.2 m hm).2
  · exact hext.labelled hleaf hlabel

theorem of_push (h : g.Labelled) (hsound : g.Sound declared) (hext : g.Extends g') {slot : Slot δ}
    (hslot : ∀ id, g'.slot? id = (g.push slot).slot? id) (hlabel : slot.Labelled g)
    (hleaf : ∀ members, slot.node = .union members → ∀ m ∈ members, g.IsLeaf m) :
    g'.Labelled := by
  refine h.of_slots hsound hext fun id slot' hslot' => ?_
  rw [hslot, slot?_push] at hslot'
  split_ifs at hslot' with hid
  · obtain rfl := Option.some.inj hslot'
    exact .inr ⟨hlabel, hleaf⟩
  · exact .inl hslot'

theorem growth (h : g.Labelled) (hsound : g.Sound declared) (hstep : Growth g g') :
    g'.Labelled := by
  have hext := Extends.of_growth hstep
  cases hstep with
  | share fits direct unknown =>
    exact h.of_push hsound hext (fun _ => rfl) fits.labelled fun _ hnode => (fits.union hnode).2.2
  | push fits unshared =>
    exact h.of_push hsound hext (fun _ => rfl) fits.labelled fun _ hnode => (fits.union hnode).2.2
  | register name id => exact h.of_slots hsound hext fun _ _ hslot => .inl hslot

theorem declare (h : g.Labelled) (hsound : g.Sound declared) (name : String) :
    (g.declare name).Labelled := by
  have hext : g.Extends (g.declare name) := .of_push (fun _ => rfl) (.inl rfl)
  refine h.of_push hsound hext (fun _ => rfl) rfl fun members hnode => ?_
  cases hnode

theorem define (h : g.Labelled) (hsound : g.Sound declared) {id : TypeId} (hid : id ∈ g.pending)
    (body : Body (Edge δ)) : (g.define id body).Labelled := by
  refine h.of_slots hsound (hsound.extends_define hid body) fun x slot hslot => ?_
  rw [slot?_define] at hslot
  split_ifs at hslot with hx
  · right
    obtain ⟨old, -, rfl⟩ := Option.map_eq_some_iff.1 hslot
    refine ⟨rfl, fun members hnode => ?_⟩
    cases hnode
  · exact .inl hslot

end Labelled

end Graph

namespace Run

variable [Deferral δ]

/-- Runs keep the labels right. -/
theorem labelled_after {r : Run δ} (hsound : r.graph.Sound r.declared) (h : r.graph.Labelled)
    (ops : List (Operation (Edge δ) TypeId)) : (r.after ops).graph.Labelled := by
  have hboth : (r.after ops).graph.Sound (r.after ops).declared ∧ (r.after ops).graph.Labelled := by
    refine after_induction (P := fun declared g => g.Sound declared ∧ g.Labelled) ?_ ?_ ?_
      ⟨hsound, h⟩ ops
    · rintro declared g g' ⟨hsound, h⟩ hstep
      exact ⟨hsound.growth hstep, h.growth hsound hstep⟩
    · rintro declared g name ⟨hsound, h⟩
      exact ⟨hsound.declare name, h.declare hsound name⟩
    · rintro declared g id body ⟨hsound, h⟩ hid
      exact ⟨hsound.define hid body, h.define hsound hid body⟩
  exact hboth.2

theorem labelled (ops : List (Operation (Edge δ) TypeId)) :
    ((start : Run δ).after ops).graph.Labelled := by
  have hfresh : (start : Run δ).graph.Labelled := by
    rw [graph_start]
    exact Graph.Labelled.fresh
  exact labelled_after (sound []) hfresh ops

end Run

end TypeGraph
