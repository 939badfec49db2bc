import TypeGraph.Proofs.Sharing

/-!
# Members of types

The members of a union are its own, and any other type is its only member. In a sound graph the
members of a type determine its id (`Sound.eq_iff_memberSet`), and forming a union gives the type
whose members are those of the parts (`Sound.union_members`).
-/

namespace TypeGraph

variable {δ : Type}

namespace Graph

/-- The members of the types with the given ids, taken together. -/
def memberSet (g : Graph δ) (ids : List TypeId) : Set TypeId :=
  {x | ∃ id ∈ ids, ∃ members, g.members? id = some members ∧ x ∈ members}

theorem mem_memberSet {g : Graph δ} {ids : List TypeId} {x : TypeId} :
    x ∈ g.memberSet ids ↔ ∃ id ∈ ids, ∃ members, g.members? id = some members ∧ x ∈ members :=
  Iff.rfl

theorem exists_members? {g : Graph δ} {id : TypeId} (h : id.index < g.size) :
    ∃ ids, g.members? id = some ids := by
  obtain ⟨slot, hslot⟩ := exists_slot? h
  exact ⟨_, by rw [members?, node?, hslot]; rfl⟩

theorem index_lt_of_members? {g : Graph δ} {id : TypeId} {ids : List TypeId}
    (h : g.members? id = some ids) : id.index < g.size := by
  obtain ⟨node, hnode, -⟩ := Option.map_eq_some_iff.1 h
  exact index_lt_of_node? hnode

theorem IsLeaf.members?_eq {g : Graph δ} {id : TypeId} (h : g.IsLeaf id) :
    g.members? id = some [id] := by
  obtain ⟨node, hnode, hmembers⟩ := h
  simp [members?, hnode, hmembers]

theorem mem_memberSet_singleton {g : Graph δ} {id x : TypeId} {ids : List TypeId}
    (h : g.members? id = some ids) : x ∈ g.memberSet [id] ↔ x ∈ ids := by
  simp [mem_memberSet, h]

theorem memberSet_append (g : Graph δ) (l₁ l₂ : List TypeId) :
    g.memberSet (l₁ ++ l₂) = g.memberSet l₁ ∪ g.memberSet l₂ := by
  ext x
  simp only [mem_memberSet, List.mem_append, Set.mem_union]
  constructor
  · rintro ⟨id, hid | hid, hx⟩
    · exact .inl ⟨id, hid, hx⟩
    · exact .inr ⟨id, hid, hx⟩
  · rintro (⟨id, hid, hx⟩ | ⟨id, hid, hx⟩)
    · exact ⟨id, .inl hid, hx⟩
    · exact ⟨id, .inr hid, hx⟩

theorem memberSet_congr (g : Graph δ) {l₁ l₂ : List TypeId} (h : ∀ id, id ∈ l₁ ↔ id ∈ l₂) :
    g.memberSet l₁ = g.memberSet l₂ := by
  simp only [memberSet, h]

/-- Later graphs keep the members of the types that are there. -/
theorem Extends.memberSet_eq {g g' : Graph δ} (h : g.Extends g') {ids : List TypeId}
    (hids : ∀ id ∈ ids, id.index < g.size) : g'.memberSet ids = g.memberSet ids := by
  ext x
  constructor
  · rintro ⟨id, hid, members, hmembers, hx⟩
    obtain ⟨members', hmembers'⟩ := exists_members? (hids id hid)
    obtain rfl := Option.some.inj ((h.members?_eq hmembers').symm.trans hmembers)
    exact ⟨id, hid, members', hmembers', hx⟩
  · rintro ⟨id, hid, members, hmembers, hx⟩
    exact ⟨id, hid, members, h.members?_eq hmembers, hx⟩

namespace Sound

variable {declared : List TypeId} {g : Graph δ}

/-! ### Members in a sound graph -/

/-- The members of a type are not unions and stand in order. -/
theorem of_members? (h : g.Sound declared) {id : TypeId} {ids : List TypeId}
    (hids : g.members? id = some ids) : g.Ordered ids ∧ ∀ m ∈ ids, g.IsLeaf m := by
  obtain ⟨node, hnode, rfl⟩ := Option.map_eq_some_iff.1 hids
  cases hmembers : node.members? with
  | none =>
    refine ⟨List.pairwise_singleton _ _, fun m hm => ?_⟩
    obtain rfl : m = id := by simpa using hm
    exact ⟨node, hnode, hmembers⟩
  | some members =>
    cases node with
    | union members' =>
      obtain rfl := Option.some.inj hmembers
      obtain ⟨-, hord, hleaf⟩ := h.union hnode
      exact ⟨hord, fun m hm => (hleaf m hm).2⟩
    | _ => cases hmembers

theorem members?_of_shared (h : g.Sound declared) {id : TypeId} {ids : List TypeId}
    (hentry : (Node.union ids, id) ∈ g.shared) : g.members? id = some ids := by
  rw [members?, h.node?_of_shared hentry]
  rfl

theorem mem_shared_of_union (h : g.Sound declared) {id : TypeId} {ids : List TypeId}
    (hnode : g.node? id = some (.union ids)) : (Node.union ids, id) ∈ g.shared :=
  h.mem_shared_of_node? hnode rfl rfl

/-- A type is its own only member, or it is a union and found under its members. -/
theorem members?_cases (h : g.Sound declared) {id : TypeId} {ids : List TypeId}
    (hids : g.members? id = some ids) :
    ids = [id] ∨ (ids.length ≠ 1 ∧ (Node.union ids, id) ∈ g.shared) := by
  obtain ⟨node, hnode, rfl⟩ := Option.map_eq_some_iff.1 hids
  cases node with
  | union members => exact .inr ⟨(h.union hnode).1, h.mem_shared_of_union hnode⟩
  | _ => exact .inl rfl

/-- The members of a type determine its id. -/
theorem eq_of_members (h : g.Sound declared) {id₁ id₂ : TypeId} {ids₁ ids₂ : List TypeId}
    (h₁ : g.members? id₁ = some ids₁) (h₂ : g.members? id₂ = some ids₂)
    (hmem : ∀ x, x ∈ ids₁ ↔ x ∈ ids₂) : id₁ = id₂ := by
  obtain rfl : ids₁ = ids₂ := (h.of_members? h₁).1.eq_of_mem_iff (h.of_members? h₂).1 hmem
  -- a union never has exactly one member, so both types are unions or neither is
  rcases h.members?_cases h₁ with rfl | ⟨hlength₁, hentry₁⟩ <;>
    rcases h.members?_cases h₂ with heq | ⟨hlength₂, hentry₂⟩
  · exact List.singleton_inj.1 heq
  · exact absurd rfl hlength₂
  · rw [heq] at hlength₁
    exact absurd rfl hlength₁
  · exact h.id_unique hentry₁ hentry₂

/-- Two types are equal if and only if they have the same members. -/
theorem eq_iff_memberSet (h : g.Sound declared) {id₁ id₂ : TypeId} (h₁ : id₁.index < g.size)
    (h₂ : id₂.index < g.size) : id₁ = id₂ ↔ g.memberSet [id₁] = g.memberSet [id₂] := by
  obtain ⟨ids₁, hids₁⟩ := exists_members? h₁
  obtain ⟨ids₂, hids₂⟩ := exists_members? h₂
  constructor
  · rintro rfl
    rfl
  · intro hset
    refine h.eq_of_members hids₁ hids₂ fun x => ?_
    rw [← mem_memberSet_singleton hids₁, hset, mem_memberSet_singleton hids₂]

/-- Opening unions gives their members, since these are not unions. A depth beyond the id of a type
is enough, since its members are older than it is. -/
theorem leavesWithin_eq (h : g.Sound declared) {depth : ℕ} {id : TypeId}
    (hdepth : id.index < depth) : g.leavesWithin depth id = g.members? id := by
  obtain ⟨depth, rfl⟩ := Nat.exists_eq_succ_of_ne_zero (by omega : depth ≠ 0)
  rw [leavesWithin, members?]
  cases hnode : g.node? id with
  | none => rfl
  | some node =>
    cases node with
    | union members =>
      obtain ⟨-, -, hleaf⟩ := h.union hnode
      show gather (g.leavesWithin depth) members = some members
      rw [← gather_singleton members]
      refine gather_congr fun m hm => ?_
      obtain ⟨hlt, hm⟩ := hleaf m hm
      obtain ⟨depth, rfl⟩ := Nat.exists_eq_succ_of_ne_zero (by omega : depth ≠ 0)
      exact leavesWithin_of_isLeaf hm
    | _ => rfl

theorem leaves?_eq (h : g.Sound declared) (id : TypeId) : g.leaves? id = g.members? id :=
  h.leavesWithin_eq (Nat.lt_succ_self id.index)

/-! ### Forming unions in a sound graph -/

/-- Types that are not unions and stand in order are the members of their union. -/
theorem unite (h : g.Sound declared) {ids : List TypeId} (hord : g.Ordered ids)
    (hleaf : ∀ m ∈ ids, g.IsLeaf m) :
    (Build.unite ids).Yields g declared fun id g' => g'.members? id = some ids := by
  rcases ids with _ | ⟨a, _ | ⟨b, rest⟩⟩
  · refine ⟨.never, g, [], rfl, h, .refl g, h.members?_of_shared (h.foundation ?_)⟩
    decide
  · exact ⟨a, g, [], rfl, h, .refl g, (hleaf a (by simp)).members?_eq⟩
  · have fits : Slot.Fits g ⟨g.unionLabel (a :: b :: rest), .union (a :: b :: rest)⟩ :=
      ⟨by simp, rfl, hord, hleaf⟩
    obtain ⟨id, g', events, hplace, hsound, hext, hentry⟩ := h.place fits rfl
    have hunite := Build.unite_cons_cons a b rest g
    rw [hplace] at hunite
    exact ⟨id, g', _, hunite, hsound, hext, hsound.members?_of_shared hentry⟩

variable [Deferral δ]

/-- A union of types that are there comes down to the canonical list of the members of its parts. -/
theorem union_eq_unite (h : g.Sound declared) {edges : List (Edge δ)}
    (hids : ∀ e ∈ edges, (g.resolve e).index < g.size) :
    ∃ ids, Build.union edges g = Build.unite ids g ∧ g.Ordered ids ∧ (∀ m ∈ ids, g.IsLeaf m) ∧
      ∀ x, x ∈ ids ↔ x ∈ g.memberSet (edges.map g.resolve) := by
  obtain ⟨leaves, hleaves⟩ : ∃ leaves, gather g.members? (edges.map g.resolve) = some leaves := by
    refine exists_gather fun id hid => ?_
    obtain ⟨e, he, rfl⟩ := List.mem_map.1 hid
    exact exists_members? (hids e he)
  have hmem : ∀ x, x ∈ g.canonical leaves ↔ x ∈ g.memberSet (edges.map g.resolve) := by
    intro x
    rw [mem_canonical, mem_gather hleaves, mem_memberSet]
  refine ⟨g.canonical leaves, ?_, g.ordered_canonical leaves, fun m hm => ?_, hmem⟩
  · rw [Build.union_apply, gather_congr fun id _ => h.leaves?_eq id, hleaves]
  · obtain ⟨id, -, members, hmembers, hm⟩ := (hmem m).1 hm
    exact (h.of_members? hmembers).2 m hm

/-- A union of types that are there is formed, and its members are those of the parts. -/
theorem union_members (h : g.Sound declared) {edges : List (Edge δ)}
    (hids : ∀ e ∈ edges, (g.resolve e).index < g.size) :
    (Build.union edges).Yields g declared fun id g' => ∃ ids, g'.members? id = some ids ∧
      ∀ x, x ∈ ids ↔ x ∈ g.memberSet (edges.map g.resolve) := by
  obtain ⟨ids, hunion, hord, hleaf, hmem⟩ := h.union_eq_unite hids
  obtain ⟨id, g', events, hunite, hsound, hext, hmembers⟩ := h.unite hord hleaf
  exact ⟨id, g', events, hunion.trans hunite, hsound, hext, ids, hmembers, hmem⟩

end Sound

end Graph

end TypeGraph
