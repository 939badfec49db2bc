import Mathlib.Data.List.Sort
import Mathlib.Data.Prod.Lex
import Mathlib.Data.String.Basic
import TypeGraph.Graph.Union

/-!
# The order of members in a union

`Graph.precedes` compares labels first and ids second, so it is a strict linear order on ids:
`Graph.rank` maps an id to the pair that is compared. A list in this order is determined by its
elements (`Ordered.eq_of_mem_iff`), and `Graph.canonical` is such a list (`ordered_canonical`,
`mem_canonical`). The last section says what `Graph.leaves?` collects: types in the graph that are
not unions.
-/

namespace TypeGraph

variable {δ : Type}

namespace Graph

/-- What `precedes` compares. -/
def rank (g : Graph δ) (id : TypeId) : String ×ₗ ℕ := toLex (g.display id, id.index)

theorem precedes_iff {g : Graph δ} {a b : TypeId} :
    g.precedes a b = true ↔ g.rank a < g.rank b := by
  simp [precedes, rank, Prod.Lex.toLex_lt_toLex]

theorem rank_injective (g : Graph δ) : Function.Injective g.rank := by
  intro a b h
  have hi : a.index = b.index := congrArg (fun r => (ofLex r).2) h
  cases a; cases b; exact congrArg TypeId.mk hi

/-- The ids stand in the order of members; in particular none is repeated. -/
def Ordered (g : Graph δ) (ids : List TypeId) : Prop :=
  ids.Pairwise fun a b => g.rank a < g.rank b

/-- A list in the order of members is determined by its elements. -/
theorem Ordered.eq_of_mem_iff {g : Graph δ} {l₁ l₂ : List TypeId} (h₁ : g.Ordered l₁)
    (h₂ : g.Ordered l₂) (h : ∀ id, id ∈ l₁ ↔ id ∈ l₂) : l₁ = l₂ := by
  apply List.map_injective_iff.2 g.rank_injective
  apply List.SortedLT.eq_of_mem_iff
  · exact (List.pairwise_map.2 h₁).sortedLT
  · exact (List.pairwise_map.2 h₂).sortedLT
  · intro r
    simp [h]

/-- The order depends on labels alone, so graphs with the same labels order ids alike. -/
theorem Ordered.congr {g g' : Graph δ} {ids : List TypeId} (h : g.Ordered ids)
    (same : ∀ id ∈ ids, g'.display id = g.display id) : g'.Ordered ids := by
  refine List.Pairwise.imp_of_mem ?_ h
  intro a b ha hb hab
  simpa only [rank, same a ha, same b hb] using hab

/-! ### The canonical list -/

theorem mem_insertMember {g : Graph δ} {x id : TypeId} {ids : List TypeId} :
    x ∈ g.insertMember id ids ↔ x = id ∨ x ∈ ids := by
  induction ids with
  | nil => simp [insertMember]
  | cons m ms ih =>
    rw [insertMember]
    split_ifs with heq hlt
    · subst heq
      simp
    · simp
    · rw [List.mem_cons, ih, List.mem_cons]
      tauto

theorem ordered_insertMember {g : Graph δ} {id : TypeId} {ids : List TypeId} (h : g.Ordered ids) :
    g.Ordered (g.insertMember id ids) := by
  induction ids with
  | nil => simp [insertMember, Ordered]
  | cons m ms ih =>
    obtain ⟨hm, hms⟩ := List.pairwise_cons.1 h
    rw [insertMember]
    split_ifs with heq hlt
    · exact h
    · have hid := precedes_iff.1 hlt
      refine List.pairwise_cons.2 ⟨fun x hx => ?_, h⟩
      rcases List.mem_cons.1 hx with rfl | hx
      · exact hid
      · exact hid.trans (hm x hx)
    · have hge : g.rank m < g.rank id := by
        refine lt_of_le_of_ne (not_lt.1 fun h' => hlt (precedes_iff.2 h')) fun e => ?_
        exact heq (g.rank_injective e).symm
      refine List.pairwise_cons.2 ⟨fun x hx => ?_, ih hms⟩
      rcases mem_insertMember.1 hx with rfl | hx
      · exact hge
      · exact hm x hx

@[simp] theorem mem_canonical {g : Graph δ} {x : TypeId} {ids : List TypeId} :
    x ∈ g.canonical ids ↔ x ∈ ids := by
  induction ids with
  | nil => simp [canonical]
  | cons id ids ih =>
    rw [List.mem_cons, ← ih]
    exact mem_insertMember

theorem ordered_canonical (g : Graph δ) (ids : List TypeId) : g.Ordered (g.canonical ids) := by
  induction ids with
  | nil => exact List.Pairwise.nil
  | cons id ids ih => exact ordered_insertMember ih

end Graph

/-! ### What is collected -/

/-- A list is gathered if `f` gives a list for each element. -/
theorem exists_gather {α β : Type} {f : α → Option (List β)} {as : List α}
    (h : ∀ a ∈ as, ∃ bs, f a = some bs) : ∃ bs, gather f as = some bs := by
  induction as with
  | nil => exact ⟨[], rfl⟩
  | cons a as ih =>
    obtain ⟨bs, hbs⟩ := h a (by simp)
    obtain ⟨rest, hrest⟩ := ih fun a' ha' => h a' (List.mem_cons_of_mem a ha')
    exact ⟨bs ++ rest, by simp [gather, hbs, hrest]⟩

theorem gather_cons_eq_some_iff {α β : Type} {f : α → Option (List β)} {a : α} {as : List α}
    {bs : List β} :
    gather f (a :: as) = some bs ↔
      ∃ first rest, f a = some first ∧ gather f as = some rest ∧ bs = first ++ rest := by
  rw [gather]
  cases hf : f a <;> cases hg : gather f as <;> simp [eq_comm]

theorem gather_one {α β : Type} (f : α → Option (List β)) (a : α) : gather f [a] = f a := by
  simp only [gather]
  cases f a <;> simp

theorem exists_of_gather {α β : Type} {f : α → Option (List β)} {as : List α} {bs : List β}
    (h : gather f as = some bs) {a : α} (ha : a ∈ as) : ∃ l, f a = some l := by
  induction as generalizing bs with
  | nil => cases ha
  | cons first as ih =>
    obtain ⟨l, rest, hl, hrest, -⟩ := gather_cons_eq_some_iff.1 h
    rcases List.mem_cons.1 ha with rfl | ha
    · exact ⟨l, hl⟩
    · exact ih hrest ha

/-- What is gathered comes from the lists that `f` gives. -/
theorem mem_gather {α β : Type} {f : α → Option (List β)} {as : List α} {bs : List β}
    (h : gather f as = some bs) (b : β) : b ∈ bs ↔ ∃ a ∈ as, ∃ l, f a = some l ∧ b ∈ l := by
  induction as generalizing bs with
  | nil =>
    obtain rfl : [] = bs := by simpa [gather] using h
    simp
  | cons a as ih =>
    obtain ⟨l, rest, hl, hrest, rfl⟩ := gather_cons_eq_some_iff.1 h
    rw [List.mem_append, ih hrest]
    simp [hl]

theorem gather_congr {α β : Type} {f f' : α → Option (List β)} {as : List α}
    (h : ∀ a ∈ as, f a = f' a) : gather f as = gather f' as := by
  induction as with
  | nil => rfl
  | cons a as ih =>
    rw [gather, gather, h a (by simp), ih fun a' ha' => h a' (List.mem_cons_of_mem a ha')]

theorem gather_mono {α β : Type} {f f' : α → Option (List β)} {as : List α} {bs : List β}
    (hf : ∀ a ∈ as, ∀ l, f a = some l → f' a = some l) (h : gather f as = some bs) :
    gather f' as = some bs := by
  rw [← h]
  refine gather_congr fun a ha => ?_
  obtain ⟨l, hl⟩ := exists_of_gather h ha
  rw [hl, hf a ha l hl]

theorem gather_singleton {α : Type} (as : List α) : gather (fun a => some [a]) as = some as := by
  induction as with
  | nil => rfl
  | cons a as ih => simp [gather, ih]

namespace Graph

/-- The id leads to a type that is not a union. -/
def IsLeaf (g : Graph δ) (id : TypeId) : Prop :=
  ∃ node, g.node? id = some node ∧ node.members? = none

theorem leavesWithin_of_isLeaf {g : Graph δ} {depth : ℕ} {id : TypeId} (hid : g.IsLeaf id) :
    g.leavesWithin (depth + 1) id = some [id] := by
  obtain ⟨node, hnode, hmembers⟩ := hid
  rw [leavesWithin, hnode]
  cases node with
  | union members => cases hmembers
  | _ => rfl

theorem leavesWithin_union {g : Graph δ} {id : TypeId} {members : List TypeId}
    (h : g.node? id = some (.union members)) (depth : ℕ) :
    g.leavesWithin (depth + 1) id = gather (g.leavesWithin depth) members := by
  rw [leavesWithin, h]

/-- What is collected is the type itself, or it is collected from the members of a union. -/
theorem leavesWithin_cases {g : Graph δ} {depth : ℕ} {id : TypeId} {ids : List TypeId}
    (h : g.leavesWithin (depth + 1) id = some ids) :
    (g.IsLeaf id ∧ ids = [id]) ∨
      ∃ members, g.node? id = some (.union members) ∧
        gather (g.leavesWithin depth) members = some ids := by
  rw [leavesWithin] at h
  split at h
  · cases h
  · rename_i members hnode
    exact .inr ⟨members, hnode, h⟩
  · rename_i node hunion hnode
    refine .inl ⟨⟨node, hnode, ?_⟩, (Option.some.inj h).symm⟩
    cases node with
    | union members => exact (hunion members rfl).elim
    | _ => rfl

/-- Only types that are not unions are collected, whatever the depth. -/
theorem isLeaf_of_mem_leavesWithin {g : Graph δ} {depth : ℕ} {id x : TypeId} {ids : List TypeId}
    (h : g.leavesWithin depth id = some ids) (hx : x ∈ ids) : g.IsLeaf x := by
  induction depth generalizing id ids with
  | zero => cases h
  | succ depth ih =>
    rcases leavesWithin_cases h with ⟨hid, rfl⟩ | ⟨members, -, hmembers⟩
    · obtain rfl := List.mem_singleton.1 hx
      exact hid
    · obtain ⟨m, -, l, hl, hxl⟩ := (mem_gather hmembers x).1 hx
      exact ih hl hxl

end Graph

end TypeGraph
