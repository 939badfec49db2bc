import TypeGraph.Proofs.ByteOrder
import TypeGraph.Proofs.Labels
import TypeGraph.Proofs.Lifecycle
import TypeGraph.Proofs.Members

/-!
# Unions in their slots

The order of the members of a union and its label are found when the union is made, from the labels
that the members have at that time. Labels do not change, so order and label are right for good.
`Graph.IsCanonical` is all that holds of a union in its slot. It holds in sound graphs whose labels
are right (`Graph.Sound.isCanonical`), that is, at every point of a run.
-/

namespace TypeGraph

variable {δ : Type}

namespace Graph

/-- The ids increase by the bytes of their labels in UTF-8, and by number where labels are equal. -/
def Increasing (g : Graph δ) (ids : List TypeId) : Prop :=
  ids.Pairwise fun a b =>
    Text.utf8 (g.display a) < Text.utf8 (g.display b) ∨
      (g.display a = g.display b ∧ a.index < b.index)

theorem rank_lt_rank_iff {g : Graph δ} {a b : TypeId} :
    g.rank a < g.rank b ↔ Text.utf8 (g.display a) < Text.utf8 (g.display b) ∨
      (g.display a = g.display b ∧ a.index < b.index) := by
  rw [rank, rank, Prod.Lex.toLex_lt_toLex, Text.utf8_lt_utf8_iff]

theorem Ordered.increasing {g : Graph δ} {ids : List TypeId} (h : g.Ordered ids) :
    g.Increasing ids :=
  h.imp rank_lt_rank_iff.1

/-! ### Unions in a sound graph -/

/-- The union at the id is in canonical form: its members and its label are as they would be if it
were made now, and there is no other union with these members. -/
structure IsCanonical (g : Graph δ) (id : TypeId) (label : String) (members : List TypeId) :
    Prop where
  /-- The union of no types is `never`. -/
  empty_iff : members = [] ↔ id = .never
  /-- There is no union of one type. -/
  two_le : members ≠ [] → 2 ≤ members.length
  increasing : g.Increasing members
  /-- The members are there, are older than the union, and are not unions. -/
  member : ∀ m ∈ members, m.index < g.size ∧ m.index < id.index ∧
    ∃ node, g.node? m = some node ∧ ∀ members', node ≠ .union members'
  label_eq : members ≠ [] → label = " | ".intercalate (members.map g.display)
  unique : ∀ other label', g.slot? other = some ⟨label', .union members⟩ → other = id

theorem Sound.isCanonical {declared : List TypeId} {g : Graph δ} (h : g.Sound declared)
    (hlabelled : g.Labelled) {id : TypeId} {label : String} {members : List TypeId}
    (hslot : g.slot? id = some ⟨label, .union members⟩) : g.IsCanonical id label members := by
  have hentry : ∀ {x : TypeId} {label' : String} {members' : List TypeId},
      g.slot? x = some ⟨label', .union members'⟩ → (.union members', x) ∈ g.shared :=
    fun hx => h.mem_shared_of_union (node?_eq_some_iff.2 ⟨_, hx, rfl⟩)
  have hnever : (.union [], .never) ∈ g.shared := h.foundation (by decide)
  obtain ⟨hlength, hord, hmembers⟩ := h.union (node?_eq_some_iff.2 ⟨_, hslot, rfl⟩)
  constructor
  case empty_iff =>
    constructor
    · rintro rfl
      exact h.id_unique (hentry hslot) hnever
    · rintro rfl
      have hkey := h.key_unique (hentry hslot) hnever
      cases hkey
      rfl
  case two_le =>
    intro hne
    have hpos := List.length_pos_of_ne_nil hne
    omega
  case increasing => exact hord.increasing
  case member =>
    intro m hm
    obtain ⟨hlt, node, hnode, hleaf⟩ := hmembers m hm
    refine ⟨index_lt_of_node? hnode, hlt, node, hnode, ?_⟩
    rintro members' rfl
    cases hleaf
  case label_eq =>
    intro hne
    exact (hlabelled id _ hslot).trans (if_neg hne)
  case unique => exact fun other label' hother => h.id_unique (hentry hother) (hentry hslot)

end Graph

namespace Run

variable [Deferral δ]

/-- A union that is stored at some point of a run stays in its slot, and it is in canonical form
then and for the rest of the run, whatever is made, declared or defined. -/
theorem stored_unions_canonical (ops later : List (Operation (Edge δ) TypeId)) (id : TypeId)
    (label : String) (members : List TypeId) :
    let r := (start : Run δ).after ops
    r.graph.slot? id = some ⟨label, .union members⟩ →
      (r.after later).graph.slot? id = some ⟨label, .union members⟩ ∧
        (r.after later).graph.IsCanonical id label members := by
  intro r hslot
  have hsound : r.graph.Sound r.declared := sound ops
  have hkept : (r.after later).graph.slot? id = some ⟨label, .union members⟩ := by
    refine (inStep ops).lifecycle.slot?_later (r.later_after later) hslot ?_
    rintro name hnode
    cases hnode
  have hlabelled : (r.after later).graph.Labelled := labelled_after hsound (labelled ops) later
  exact ⟨hkept, (sound_after hsound later).1.isCanonical hlabelled hkept⟩

/-- The union of a declared object and `string` is canonical in its slot, also after the object has
been defined with a property that leads back to the union. -/
theorem stored_unions_canonical_across_definition :
    let r := (start : Run Recipe).after
      [.declare "é", .make (.union [.direct ⟨11⟩, .direct .string])]
    let r' := r.after [.define ⟨11⟩ [⟨"p", .direct ⟨12⟩, .none⟩] none .none]
    r.graph.slot? ⟨12⟩ = some ⟨"string | é", .union [.string, ⟨11⟩]⟩ ∧
      r'.graph.slot? ⟨12⟩ = some ⟨"string | é", .union [.string, ⟨11⟩]⟩ ∧
      r'.graph.IsCanonical ⟨12⟩ "string | é" [.string, ⟨11⟩] := by
  intro r r'
  have hslot : r.graph.slot? ⟨12⟩ = some ⟨"string | é", .union [.string, ⟨11⟩]⟩ := by
    simp only [r, after_cons, after_nil, graph_perform_make, graph_perform_declare, graph_start,
      Graph.fresh_eq]
    rfl
  exact ⟨hslot, stored_unions_canonical _ _ _ _ _ hslot⟩

end Run

end TypeGraph
