import Mathlib.Tactic.IntervalCases
import TypeGraph.Proofs.Keys
import TypeGraph.Proofs.Run

/-!
# Sharing

`Graph.Sound` is the invariant behind the sharing of types. It speaks about a graph and the objects
that were declared in it: the table of shared types is exact in both directions, declared objects
stay out of it, and unions are kept in canonical form. Every change preserves it
(`Sound.growth`, `Sound.declare`, `Sound.define`), so that it holds after every run (`Run.sound`).

`Graph.Extends` says what later graphs keep of earlier ones: ids, labels, the members of unions, and
the entries of the table. It follows from soundness (`Run.sound_after`).
-/

namespace TypeGraph

variable {δ : Type}

/-- In a table without repeated keys, the entries are what lookups find. -/
theorem lookup_eq_some_iff_mem {κ β : Type} [BEq κ] [LawfulBEq κ] {table : List (κ × β)}
    (h : (table.map Prod.fst).Nodup) {key : κ} {value : β} :
    table.lookup key = some value ↔ (key, value) ∈ table := by
  constructor
  · intro hlookup
    obtain ⟨l₁, l₂, heq, -⟩ := List.lookup_eq_some_iff.1 hlookup
    rw [heq]
    simp
  · intro hentry
    cases hlookup : table.lookup key with
    | none =>
      have := List.lookup_eq_none_iff.1 hlookup _ hentry
      simp at this
    | some value' =>
      obtain ⟨l₁, l₂, heq, -⟩ := List.lookup_eq_some_iff.1 hlookup
      have hentry' : (key, value') ∈ table := by
        rw [heq]
        simp
      exact congrArg some (congrArg Prod.snd (List.inj_on_of_nodup_map h hentry' hentry rfl))

theorem Slot.Fits.union {g : Graph δ} {slot : Slot δ} (fits : slot.Fits g) {members : List TypeId}
    (h : slot.node = .union members) :
    2 ≤ members.length ∧ g.Ordered members ∧ ∀ m ∈ members, g.IsLeaf m := by
  unfold Fits at fits
  rw [h] at fits
  exact ⟨fits.1, fits.2.2⟩

namespace Graph

theorem node?_eq_some_iff {g : Graph δ} {id : TypeId} {node : Node (Edge δ)} :
    g.node? id = some node ↔ ∃ slot, g.slot? id = some slot ∧ slot.node = node := by
  simp [node?]

theorem display_of_slot? {g : Graph δ} {id : TypeId} {slot : Slot δ} (h : g.slot? id = some slot) :
    g.display id = slot.label := by
  rw [display, h]

theorem index_lt_of_node? {g : Graph δ} {id : TypeId} {node : Node (Edge δ)}
    (h : g.node? id = some node) : id.index < g.size := by
  obtain ⟨slot, hslot, -⟩ := node?_eq_some_iff.1 h
  exact index_lt_of_slot? hslot

theorem IsLeaf.index_lt {g : Graph δ} {id : TypeId} (h : g.IsLeaf id) : id.index < g.size := by
  obtain ⟨node, hnode, -⟩ := h
  exact index_lt_of_node? hnode

theorem node?_push_of_lt {g : Graph δ} {slot : Slot δ} {id : TypeId} (h : id.index < g.size) :
    (g.push slot).node? id = g.node? id := by
  rw [node?, slot?_push_of_lt h, node?]

theorem node?_push_cases {g : Graph δ} {slot : Slot δ} {id : TypeId} {node : Node (Edge δ)}
    (h : (g.push slot).node? id = some node) :
    (id = ⟨g.size⟩ ∧ slot.node = node) ∨ g.node? id = some node := by
  obtain ⟨slot', hslot', rfl⟩ := node?_eq_some_iff.1 h
  rw [slot?_push] at hslot'
  split_ifs at hslot' with hid
  · obtain ⟨i⟩ := id
    obtain rfl : i = g.size := hid
    obtain rfl := Option.some.inj hslot'
    exact .inl ⟨rfl, rfl⟩
  · exact .inr (node?_eq_some_iff.2 ⟨slot', hslot', rfl⟩)

theorem node?_define_of_ne {g : Graph δ} {id x : TypeId} {body : Body (Edge δ)} (h : x ≠ id) :
    (g.define id body).node? x = g.node? x := by
  rw [node?, slot?_define, if_neg h, node?]

/-! ### Later graphs -/

/-- `g'` keeps what `g` holds: labels, the members of unions, and the table on the ids of `g`. -/
structure Extends (g g' : Graph δ) : Prop where
  slot : ∀ {id slot}, g.slot? id = some slot →
    ∃ slot', g'.slot? id = some slot' ∧ slot'.label = slot.label ∧
      slot'.node.members? = slot.node.members?
  mem_shared : ∀ {entry}, entry ∈ g.shared → entry ∈ g'.shared
  mem_of_shared : ∀ {key id}, (key, id) ∈ g'.shared → id.index < g.size → (key, id) ∈ g.shared

namespace Extends

variable {g g' g'' : Graph δ}

theorem refl (g : Graph δ) : g.Extends g :=
  ⟨fun h => ⟨_, h, rfl, rfl⟩, id, fun h _ => h⟩

theorem index_lt (h : g.Extends g') {id : TypeId} (hid : id.index < g.size) :
    id.index < g'.size := by
  obtain ⟨slot, hslot⟩ := exists_slot? hid
  obtain ⟨slot', hslot', -⟩ := h.slot hslot
  exact index_lt_of_slot? hslot'

theorem trans (h : g.Extends g') (h' : g'.Extends g'') : g.Extends g'' where
  slot hslot := by
    obtain ⟨slot', hslot', hlabel, hmembers⟩ := h.slot hslot
    obtain ⟨slot'', hslot'', hlabel', hmembers'⟩ := h'.slot hslot'
    exact ⟨slot'', hslot'', hlabel'.trans hlabel, hmembers'.trans hmembers⟩
  mem_shared hentry := h'.mem_shared (h.mem_shared hentry)
  mem_of_shared hentry hid := h.mem_of_shared (h'.mem_of_shared hentry (h.index_lt hid)) hid

theorem display_eq (h : g.Extends g') {id : TypeId} (hid : id.index < g.size) :
    g'.display id = g.display id := by
  obtain ⟨slot, hslot⟩ := exists_slot? hid
  obtain ⟨slot', hslot', hlabel, -⟩ := h.slot hslot
  simp only [display, hslot, hslot', hlabel]

theorem members?_eq (h : g.Extends g') {id : TypeId} {ids : List TypeId}
    (hid : g.members? id = some ids) : g'.members? id = some ids := by
  obtain ⟨node, hnode, rfl⟩ := Option.map_eq_some_iff.1 hid
  obtain ⟨slot, hslot, rfl⟩ := node?_eq_some_iff.1 hnode
  obtain ⟨slot', hslot', -, hmembers⟩ := h.slot hslot
  simp [members?, node?, hslot', hmembers]

theorem isLeaf (h : g.Extends g') {id : TypeId} (hid : g.IsLeaf id) : g'.IsLeaf id := by
  obtain ⟨node, hnode, hmembers⟩ := hid
  obtain ⟨slot, hslot, rfl⟩ := node?_eq_some_iff.1 hnode
  obtain ⟨slot', hslot', -, hmembers'⟩ := h.slot hslot
  exact ⟨slot'.node, node?_eq_some_iff.2 ⟨slot', hslot', rfl⟩, hmembers'.trans hmembers⟩

theorem ordered (h : g.Extends g') {ids : List TypeId} (hids : g.Ordered ids)
    (hleaf : ∀ m ∈ ids, g.IsLeaf m) : g'.Ordered ids :=
  hids.congr fun m hm => h.display_eq (hleaf m hm).index_lt

/-- A graph with one more slot extends the old one. -/
theorem of_push {slot : Slot δ} (hslot : ∀ id, g'.slot? id = (g.push slot).slot? id)
    (hshared : g'.shared = g.shared ∨ ∃ key, g'.shared = (key, ⟨g.size⟩) :: g.shared) :
    g.Extends g' where
  slot {id old} hold := by
    refine ⟨old, ?_, rfl, rfl⟩
    rw [hslot, slot?_push_of_lt (index_lt_of_slot? hold), hold]
  mem_shared {entry} hentry := by
    rcases hshared with h | ⟨key, h⟩ <;> rw [h]
    · exact hentry
    · exact List.mem_cons_of_mem _ hentry
  mem_of_shared {key id} hentry hid := by
    rcases hshared with h | ⟨key', h⟩ <;> rw [h] at hentry
    · exact hentry
    · rcases List.mem_cons.1 hentry with heq | hold
      · obtain ⟨-, rfl⟩ := Prod.mk.inj heq
        exact absurd hid (lt_irrefl _)
      · exact hold

/-- A change that neither declares nor defines extends the graph. -/
theorem of_growth (h : Growth g g') : g.Extends g' := by
  cases h with
  | share fits direct unknown => exact .of_push (fun _ => rfl) (.inr ⟨_, rfl⟩)
  | push fits unshared => exact .of_push (fun _ => rfl) (.inl rfl)
  | register name id =>
    exact ⟨fun hslot => ⟨_, hslot, rfl, rfl⟩, fun hentry => hentry, fun hentry _ => hentry⟩

/-- A graph with an object defined extends the old one. -/
theorem define {id : TypeId} (h : ∀ slot, g.slot? id = some slot → slot.node.members? = none)
    (body : Body (Edge δ)) : g.Extends (g.define id body) where
  slot {x old} hold := by
    rw [slot?_define]
    by_cases hx : x = id
    · subst hx
      refine ⟨⟨old.label, .named old.label body⟩, by simp [hold], rfl, ?_⟩
      exact (h old hold).symm
    · exact ⟨old, by rw [if_neg hx, hold], rfl, rfl⟩
  mem_shared hentry := hentry
  mem_of_shared hentry _ := hentry

end Extends

/-! ### The invariant -/

/-- The invariant of graphs in which the objects in `declared` were declared. -/
structure Sound (g : Graph δ) (declared : List TypeId) : Prop where
  /-- An entry of the table leads to a type with its key. -/
  entry : ∀ {key id}, (key, id) ∈ g.shared →
    ∃ node, g.node? id = some node ∧ node.direct? = some key
  /-- A key has one entry. -/
  keys_nodup : (g.shared.map Prod.fst).Nodup
  /-- An id has one entry. -/
  ids_nodup : (g.shared.map Prod.snd).Nodup
  /-- A type with a key has an entry, unless it was declared. -/
  shared : ∀ {id node key}, g.node? id = some node → node.direct? = some key → id ∉ declared →
    (key, id) ∈ g.shared
  /-- A declared object is a named object without an entry. -/
  of_declared : ∀ {id}, id ∈ declared →
    (∃ name body, g.node? id = some (.named name body)) ∧ ∀ key, (key, id) ∉ g.shared
  /-- A pending object was declared. -/
  pending : ∀ {id}, id ∈ g.pending → id ∈ declared
  /-- The members of a union are older than it, are not unions, and stand in order. -/
  union : ∀ {id members}, g.node? id = some (.union members) →
    members.length ≠ 1 ∧ g.Ordered members ∧ ∀ m ∈ members, m.index < id.index ∧ g.IsLeaf m
  /-- The types that every graph holds keep their entries. -/
  foundation : ∀ {entry}, entry ∈ foundationTable → entry ∈ g.shared

namespace Sound

variable {declared : List TypeId} {g : Graph δ}

theorem index_lt_of_shared (h : g.Sound declared) {key : Node TypeId} {id : TypeId}
    (hentry : (key, id) ∈ g.shared) : id.index < g.size := by
  obtain ⟨node, hnode, -⟩ := h.entry hentry
  exact index_lt_of_node? hnode

/-- The types that every graph holds are there. -/
theorem index_lt_of_lt_eleven (h : g.Sound declared) {id : TypeId} (hid : id.index < 11) :
    id.index < g.size := by
  have htags : ∃ entry ∈ foundationTable, entry.2.index = 10 := by decide
  obtain ⟨⟨key, last⟩, hentry, hlast⟩ := htags
  have hlt := h.index_lt_of_shared (h.foundation hentry)
  simp only at hlast
  omega

/-- The types that may carry modifiers are there. -/
theorem index_lt_of_target (h : g.Sound declared) {id : TypeId} (hid : id ∈ Modifier.targets) :
    id.index < g.size := by
  have hknown : ∀ id ∈ Modifier.targets, id.index < 11 := by decide
  exact h.index_lt_of_lt_eleven (hknown id hid)

theorem index_lt_of_declared (h : g.Sound declared) {id : TypeId} (hid : id ∈ declared) :
    id.index < g.size := by
  obtain ⟨⟨name, body, hnode⟩, -⟩ := h.of_declared hid
  exact index_lt_of_node? hnode

/-- Two keys with the same id are equal. -/
theorem key_unique (h : g.Sound declared) {k₁ k₂ : Node TypeId} {id : TypeId}
    (h₁ : (k₁, id) ∈ g.shared) (h₂ : (k₂, id) ∈ g.shared) : k₁ = k₂ :=
  congrArg Prod.fst (List.inj_on_of_nodup_map h.ids_nodup h₁ h₂ rfl)

/-- Two ids with the same key are equal. -/
theorem id_unique (h : g.Sound declared) {key : Node TypeId} {id₁ id₂ : TypeId}
    (h₁ : (key, id₁) ∈ g.shared) (h₂ : (key, id₂) ∈ g.shared) : id₁ = id₂ :=
  congrArg Prod.snd (List.inj_on_of_nodup_map h.keys_nodup h₁ h₂ rfl)

/-- The entries of the table are what lookups find. -/
theorem lookup_eq_some_iff (h : g.Sound declared) {key : Node TypeId} {id : TypeId} :
    g.shared.lookup key = some id ↔ (key, id) ∈ g.shared :=
  lookup_eq_some_iff_mem h.keys_nodup

/-- An entry of the table leads to the type that its key describes. -/
theorem node?_of_shared (h : g.Sound declared) {key : Node TypeId} {id : TypeId}
    (hentry : (key, id) ∈ g.shared) : g.node? id = some (key.map .direct) := by
  obtain ⟨node, hnode, hdirect⟩ := h.entry hentry
  rwa [(Node.direct?_eq_some_iff.1 hdirect).1] at hnode

/-- A type that is no named object was not declared, so that it is found under its key. -/
theorem mem_shared_of_node? (h : g.Sound declared) {id : TypeId} {node : Node (Edge δ)}
    {key : Node TypeId} (hnode : g.node? id = some node) (hdirect : node.direct? = some key)
    (hnamed : node.namedBody? = none) : (key, id) ∈ g.shared := by
  refine h.shared hnode hdirect fun hid => ?_
  obtain ⟨⟨name, body, hdeclared⟩, -⟩ := h.of_declared hid
  obtain rfl := Option.some.inj (hnode.symm.trans hdeclared)
  cases hnamed

/-! ### Every change preserves the invariant -/

/-- The fresh graph is sound, and nothing is declared in it. -/
theorem fresh : (Graph.fresh : Graph δ).Sound [] where
  entry {key id} hentry := by
    rw [shared_fresh] at hentry
    rw [fresh_eq]
    simp only [foundationTable, List.mem_cons, Prod.mk.injEq, List.not_mem_nil, or_false] at hentry
    rcases hentry with ⟨rfl, rfl⟩ | ⟨rfl, rfl⟩ | ⟨rfl, rfl⟩ | ⟨rfl, rfl⟩ | ⟨rfl, rfl⟩ |
      ⟨rfl, rfl⟩ | ⟨rfl, rfl⟩ | ⟨rfl, rfl⟩ | ⟨rfl, rfl⟩ | ⟨rfl, rfl⟩ | ⟨rfl, rfl⟩ <;>
      exact ⟨_, rfl, rfl⟩
  keys_nodup := by
    rw [shared_fresh]
    decide
  ids_nodup := by
    rw [shared_fresh]
    decide
  shared {id node key} hnode hdirect _ := by
    obtain ⟨i⟩ := id
    rw [fresh_eq] at hnode
    rw [shared_fresh]
    have hi : i < 11 := index_lt_of_node? hnode
    interval_cases i <;> obtain rfl := Option.some.inj hnode <;>
      obtain rfl := Option.some.inj hdirect <;> exact List.mem_of_elem_eq_true rfl
  of_declared hid := by simp at hid
  pending hid := by simp [fresh_eq] at hid
  union {id members} hnode := by
    obtain ⟨i⟩ := id
    rw [fresh_eq] at hnode
    have hi : i < 11 := index_lt_of_node? hnode
    -- the only union is the one of no types
    obtain rfl : [] = members := by
      interval_cases i <;> cases hnode
      rfl
    exact ⟨by simp, List.Pairwise.nil, by simp⟩
  foundation hentry := by
    rw [shared_fresh]
    exact hentry

/-- Unions stay in canonical form when a slot is added. -/
theorem union_push (h : g.Sound declared) {g' : Graph δ} {slot : Slot δ} (hext : g.Extends g')
    (hnode : ∀ id, g'.node? id = (g.push slot).node? id)
    (hnew : ∀ members, slot.node = .union members →
      2 ≤ members.length ∧ g.Ordered members ∧ ∀ m ∈ members, g.IsLeaf m)
    {id : TypeId} {members : List TypeId} (hid : g'.node? id = some (.union members)) :
    members.length ≠ 1 ∧ g'.Ordered members ∧ ∀ m ∈ members, m.index < id.index ∧ g'.IsLeaf m := by
  rw [hnode] at hid
  rcases node?_push_cases hid with ⟨rfl, hslot⟩ | hold
  · obtain ⟨hlength, hord, hleaf⟩ := hnew members hslot
    refine ⟨by omega, hext.ordered hord hleaf, fun m hm => ?_⟩
    exact ⟨(hleaf m hm).index_lt, hext.isLeaf (hleaf m hm)⟩
  · obtain ⟨hlength, hord, hleaf⟩ := h.union hold
    refine ⟨hlength, hext.ordered hord fun m hm => (hleaf m hm).2, fun m hm => ?_⟩
    exact ⟨(hleaf m hm).1, hext.isLeaf (hleaf m hm).2⟩

theorem share (h : g.Sound declared) {key : Node TypeId} {slot : Slot δ} (fits : slot.Fits g)
    (direct : slot.node.direct? = some key) (unknown : g.shared.lookup key = none) :
    (g.share key slot).Sound declared where
  entry {k id} hentry := by
    rcases List.mem_cons.1 hentry with heq | hold
    · obtain ⟨rfl, rfl⟩ := Prod.mk.inj heq
      exact ⟨slot.node, node?_eq_some_iff.2 ⟨slot, g.slot?_push_size slot, rfl⟩, direct⟩
    · obtain ⟨node, hnode, hdirect⟩ := h.entry hold
      exact ⟨node, (node?_push_of_lt (index_lt_of_node? hnode)).trans hnode, hdirect⟩
  keys_nodup := by
    refine List.nodup_cons.2 ⟨fun hmem => ?_, h.keys_nodup⟩
    obtain ⟨entry, hentry, rfl⟩ := List.mem_map.1 hmem
    have := List.lookup_eq_none_iff.1 unknown entry hentry
    simp at this
  ids_nodup := by
    refine List.nodup_cons.2 ⟨fun hmem => ?_, h.ids_nodup⟩
    obtain ⟨⟨k, id⟩, hentry, rfl⟩ := List.mem_map.1 hmem
    exact lt_irrefl _ (h.index_lt_of_shared hentry)
  shared {id node k} hnode hdirect hid := by
    rcases node?_push_cases hnode with ⟨rfl, rfl⟩ | hold
    · obtain rfl := Option.some.inj (direct.symm.trans hdirect)
      exact List.mem_cons_self
    · exact List.mem_cons_of_mem _ (h.shared hold hdirect hid)
  of_declared {id} hid := by
    obtain ⟨⟨name, body, hnode⟩, hentry⟩ := h.of_declared hid
    have hlt := index_lt_of_node? hnode
    refine ⟨⟨name, body, (node?_push_of_lt hlt).trans hnode⟩, fun k hk => ?_⟩
    rcases List.mem_cons.1 hk with heq | hold
    · obtain ⟨-, rfl⟩ := Prod.mk.inj heq
      exact lt_irrefl _ hlt
    · exact hentry k hold
  pending hid := h.pending hid
  union hnode := by
    have hext : g.Extends (g.share key slot) := .of_push (fun _ => rfl) (.inr ⟨key, rfl⟩)
    exact h.union_push hext (fun _ => rfl) (fun _ hslot => fits.union hslot) hnode
  foundation hentry := List.mem_cons_of_mem _ (h.foundation hentry)

theorem push (h : g.Sound declared) {slot : Slot δ} (fits : slot.Fits g)
    (unshared : slot.node.direct? = none) : (g.push slot).Sound declared where
  entry {key id} hentry := by
    obtain ⟨node, hnode, hdirect⟩ := h.entry hentry
    exact ⟨node, (node?_push_of_lt (index_lt_of_node? hnode)).trans hnode, hdirect⟩
  keys_nodup := h.keys_nodup
  ids_nodup := h.ids_nodup
  shared {id node key} hnode hdirect hid := by
    rcases node?_push_cases hnode with ⟨rfl, rfl⟩ | hold
    · rw [unshared] at hdirect
      cases hdirect
    · exact h.shared hold hdirect hid
  of_declared {id} hid := by
    obtain ⟨⟨name, body, hnode⟩, hentry⟩ := h.of_declared hid
    exact ⟨⟨name, body, (node?_push_of_lt (index_lt_of_node? hnode)).trans hnode⟩, hentry⟩
  pending hid := h.pending hid
  union hnode := by
    have hext : g.Extends (g.push slot) := .of_push (fun _ => rfl) (.inl rfl)
    exact h.union_push hext (fun _ => rfl) (fun _ hslot => fits.union hslot) hnode
  foundation hentry := h.foundation hentry

theorem declare (h : g.Sound declared) (name : String) :
    (g.declare name).Sound (⟨g.size⟩ :: declared) where
  entry {key id} hentry := by
    obtain ⟨node, hnode, hdirect⟩ := h.entry hentry
    exact ⟨node, (node?_push_of_lt (index_lt_of_node? hnode)).trans hnode, hdirect⟩
  keys_nodup := h.keys_nodup
  ids_nodup := h.ids_nodup
  shared {id node key} hnode hdirect hid := by
    rcases node?_push_cases hnode with ⟨rfl, -⟩ | hold
    · exact absurd List.mem_cons_self hid
    · exact h.shared hold hdirect fun hmem => hid (List.mem_cons_of_mem _ hmem)
  of_declared {id} hid := by
    rcases List.mem_cons.1 hid with rfl | hold
    · refine ⟨⟨name, .empty, node?_eq_some_iff.2 ⟨_, g.slot?_push_size _, rfl⟩⟩, fun key hkey => ?_⟩
      exact lt_irrefl _ (h.index_lt_of_shared hkey)
    · obtain ⟨⟨name', body, hnode⟩, hentry⟩ := h.of_declared hold
      exact ⟨⟨name', body, (node?_push_of_lt (index_lt_of_node? hnode)).trans hnode⟩, hentry⟩
  pending {id} hid := by
    rcases List.mem_cons.1 hid with rfl | hold
    · exact List.mem_cons_self
    · exact List.mem_cons_of_mem _ (h.pending hold)
  union hnode := by
    have hext : g.Extends (g.declare name) := .of_push (fun _ => rfl) (.inl rfl)
    refine h.union_push hext (fun _ => rfl) (fun _ hslot => ?_) hnode
    cases hslot
  foundation hentry := h.foundation hentry

/-- A pending object is not a union, so that defining it extends the graph. -/
theorem extends_define (h : g.Sound declared) {id : TypeId} (hid : id ∈ g.pending)
    (body : Body (Edge δ)) : g.Extends (g.define id body) := by
  refine .define (fun slot hslot => ?_) body
  obtain ⟨⟨name, body', hnode⟩, -⟩ := h.of_declared (h.pending hid)
  obtain ⟨slot', hslot', hnode'⟩ := node?_eq_some_iff.1 hnode
  obtain rfl := Option.some.inj (hslot.symm.trans hslot')
  rw [hnode']
  rfl

theorem define (h : g.Sound declared) {id : TypeId} (hid : id ∈ g.pending)
    (body : Body (Edge δ)) : (g.define id body).Sound declared where
  entry {key x} hentry := by
    -- no entry leads to the object, since it was declared
    have hx : x ≠ id := by
      rintro rfl
      exact (h.of_declared (h.pending hid)).2 key hentry
    obtain ⟨node, hnode, hdirect⟩ := h.entry hentry
    exact ⟨node, (node?_define_of_ne hx).trans hnode, hdirect⟩
  keys_nodup := h.keys_nodup
  ids_nodup := h.ids_nodup
  shared {x node key} hnode hdirect hx := by
    have hne : x ≠ id := by
      rintro rfl
      exact hx (h.pending hid)
    rw [node?_define_of_ne hne] at hnode
    exact h.shared hnode hdirect hx
  of_declared {x} hx := by
    obtain ⟨⟨name, body', hnode⟩, hentry⟩ := h.of_declared hx
    refine ⟨?_, hentry⟩
    by_cases hne : x = id
    · subst hne
      obtain ⟨slot, hslot, -⟩ := node?_eq_some_iff.1 hnode
      refine ⟨slot.label, body, ?_⟩
      simp [node?, slot?_define, hslot]
    · exact ⟨name, body', (node?_define_of_ne hne).trans hnode⟩
  pending hx := h.pending (List.mem_of_mem_filter hx)
  union {x members} hnode := by
    have hext := h.extends_define hid body
    have hold : g.node? x = some (.union members) := by
      by_cases hne : x = id
      · subst hne
        obtain ⟨slot, hslot, hnode'⟩ := node?_eq_some_iff.1 hnode
        rw [slot?_define, if_pos rfl] at hslot
        obtain ⟨old, -, rfl⟩ := Option.map_eq_some_iff.1 hslot
        cases hnode'
      · rwa [node?_define_of_ne hne] at hnode
    obtain ⟨hlength, hord, hleaf⟩ := h.union hold
    refine ⟨hlength, hext.ordered hord fun m hm => (hleaf m hm).2, fun m hm => ?_⟩
    exact ⟨(hleaf m hm).1, hext.isLeaf (hleaf m hm).2⟩
  foundation hentry := h.foundation hentry

/-- A change that neither declares nor defines preserves the invariant. -/
theorem growth (h : g.Sound declared) {g' : Graph δ} (hstep : Growth g g') :
    g'.Sound declared := by
  cases hstep with
  | share fits direct unknown => exact h.share fits direct unknown
  | push fits unshared => exact h.push fits unshared
  | register name id =>
    exact ⟨h.entry, h.keys_nodup, h.ids_nodup, h.shared, h.of_declared, h.pending, h.union,
      h.foundation⟩

/-- Changes that neither declare nor define keep a sound graph sound and extend it. -/
theorem grows (h : g.Sound declared) {g' : Graph δ} (hgrows : Grows g g') :
    g'.Sound declared ∧ g.Extends g' := by
  refine Grows.preserves (P := fun g' => g'.Sound declared ∧ g.Extends g') ?_ hgrows ⟨h, .refl g⟩
  rintro g₁ g₂ ⟨hsound, hext⟩ hstep
  exact ⟨hsound.growth hstep, hext.trans (.of_growth hstep)⟩

end Sound

end Graph

/-! ### Builds that succeed -/

/-- Carried out on `g`, the build ends with a value, leaves a sound graph that extends `g`, and `Q`
holds of the two. -/
def Build.Yields {α : Type} (x : Build δ α) (g : Graph δ) (declared : List TypeId)
    (Q : α → Graph δ → Prop) : Prop :=
  ∃ a g' events, x g = ⟨.ok a, g', events⟩ ∧ g'.Sound declared ∧ g.Extends g' ∧ Q a g'

namespace Build.Yields

variable {α β : Type} {declared : List TypeId} {g : Graph δ}

theorem pure {a : α} {Q : α → Graph δ → Prop} (hs : g.Sound declared) (h : Q a g) :
    (Pure.pure a : Build δ α).Yields g declared Q :=
  ⟨a, g, [], rfl, hs, .refl g, h⟩

theorem read (hs : g.Sound declared) (f : Graph δ → α) :
    (read f).Yields g declared fun a g' => a = f g ∧ g' = g :=
  ⟨f g, g, [], rfl, hs, .refl g, rfl, rfl⟩

theorem emit (hs : g.Sound declared) (event : Event) :
    (emit event).Yields g declared fun _ g' => g' = g :=
  ⟨(), g, [event], rfl, hs, .refl g, rfl⟩

theorem congr {x y : Build δ α} {Q : α → Graph δ → Prop} (h : y.Yields g declared Q)
    (hxy : x g = y g) : x.Yields g declared Q := by
  unfold Yields
  rw [hxy]
  exact h

theorem bind {x : Build δ α} {f : α → Build δ β} {P : α → Graph δ → Prop}
    {Q : β → Graph δ → Prop} (hx : x.Yields g declared P)
    (hf : ∀ a g', g'.Sound declared → g.Extends g' → P a g' → (f a).Yields g' declared Q) :
    (x >>= f).Yields g declared Q := by
  obtain ⟨a, g', events, hrun, hs, hext, hP⟩ := hx
  obtain ⟨b, g'', events', hrun', hs', hext', hQ⟩ := hf a g' hs hext hP
  refine ⟨b, g'', events ++ events', ?_, hs', hext.trans hext', hQ⟩
  rw [bind_apply_ok hrun, hrun']

end Build.Yields

/-- A type with a key that is placed in a sound graph is found under its key. -/
theorem Graph.Sound.place {declared : List TypeId} {g : Graph δ} (h : g.Sound declared)
    {slot : Slot δ} {key : Node TypeId} (fits : slot.Fits g)
    (direct : slot.node.direct? = some key) :
    (Build.place slot).Yields g declared fun id g' => (key, id) ∈ g'.shared := by
  obtain ⟨hsound, hext⟩ := h.grows (Build.grows_place fits)
  cases hknown : g.shared.lookup key with
  | some id =>
    rw [Build.place_of_known direct hknown] at hsound hext
    exact ⟨id, g, [], Build.place_of_known direct hknown, hsound, hext,
      h.lookup_eq_some_iff.1 hknown⟩
  | none =>
    rw [Build.place_of_new direct hknown] at hsound hext
    exact ⟨_, _, _, Build.place_of_new direct hknown, hsound, hext, List.mem_cons_self⟩

namespace Run

variable [Deferral δ]

/-- Runs keep a sound graph sound and extend it. -/
theorem sound_after {r : Run δ} (h : r.graph.Sound r.declared)
    (ops : List (Operation (Edge δ) TypeId)) :
    (r.after ops).graph.Sound (r.after ops).declared ∧ r.graph.Extends (r.after ops).graph := by
  refine after_induction (P := fun declared g => g.Sound declared ∧ r.graph.Extends g) ?_ ?_ ?_
    ⟨h, .refl _⟩ ops
  · rintro declared g g' ⟨hsound, hext⟩ hstep
    exact ⟨hsound.growth hstep, hext.trans (.of_growth hstep)⟩
  · rintro declared g name ⟨hsound, hext⟩
    exact ⟨hsound.declare name, hext.trans (.of_push (fun _ => rfl) (.inl rfl))⟩
  · rintro declared g id body ⟨hsound, hext⟩ hid
    exact ⟨hsound.define hid body, hext.trans (hsound.extends_define hid body)⟩

/-- Every graph that a run leads to is sound. -/
theorem sound (ops : List (Operation (Edge δ) TypeId)) :
    ((start : Run δ).after ops).graph.Sound ((start : Run δ).after ops).declared := by
  refine (sound_after ?_ ops).1
  rw [graph_start, declared_start]
  exact Graph.Sound.fresh

/-- The type at the id is never shared: the object was declared, or it is a discriminated object or
an object with a deferred edge. -/
def Opaque (r : Run δ) (id : TypeId) : Prop :=
  id ∈ r.declared ∨ ∃ node, r.graph.node? id = some node ∧ node.Unshared

omit [Deferral δ] in
theorem Opaque.not_mem_shared {r : Run δ} (h : r.graph.Sound r.declared) {id : TypeId}
    (hid : r.Opaque id) (key : Node TypeId) : (key, id) ∉ r.graph.shared := by
  rcases hid with hdeclared | ⟨node, hnode, hunshared⟩
  · exact (h.of_declared hdeclared).2 key
  · intro hentry
    obtain ⟨node', hnode', hdirect⟩ := h.entry hentry
    obtain rfl := Option.some.inj (hnode.symm.trans hnode')
    rw [Node.direct?_eq_none_iff.2 hunshared] at hdirect
    cases hdirect

/-- The table of shared types after any run. Its entries lead to types that are what their keys say;
keys and ids occur once; every type that can be shared and was not declared is found under its key,
so that no two such types are equal; declared objects, objects with a deferred edge and
discriminated objects are found under no key. -/
theorem shared_table_exact (ops : List (Operation (Edge δ) TypeId)) :
    let r := (start : Run δ).after ops
    (∀ key id, (key, id) ∈ r.graph.shared →
      id.index < r.graph.size ∧ r.graph.node? id = some (key.map .direct)) ∧
    (r.graph.shared.map Prod.fst).Nodup ∧
    (∀ k₁ k₂ id, (k₁, id) ∈ r.graph.shared → (k₂, id) ∈ r.graph.shared → k₁ = k₂) ∧
    (∀ id node, r.graph.node? id = some node → ¬ node.Unshared → id ∉ r.declared →
      ∃ key, node = key.map .direct ∧ r.graph.shared.lookup key = some id) ∧
    (∀ id₁ id₂ node, r.graph.node? id₁ = some node → r.graph.node? id₂ = some node →
      ¬ node.Unshared → id₁ ∉ r.declared → id₂ ∉ r.declared → id₁ = id₂) ∧
    (∀ id, r.Opaque id → ∀ key, (key, id) ∉ r.graph.shared) := by
  intro r
  have h : r.graph.Sound r.declared := sound ops
  have exists_key : ∀ {node : Node (Edge δ)}, ¬ node.Unshared → ∃ key, node.direct? = some key := by
    intro node hnode
    rw [← Node.direct?_eq_none_iff] at hnode
    exact Option.ne_none_iff_exists'.1 hnode
  refine ⟨?_, h.keys_nodup, fun k₁ k₂ id => h.key_unique, ?_, ?_, fun id => Opaque.not_mem_shared h⟩
  · intro key id hentry
    obtain ⟨node, hnode, hdirect⟩ := h.entry hentry
    rw [(Node.direct?_eq_some_iff.1 hdirect).1] at hnode
    exact ⟨Graph.index_lt_of_node? hnode, hnode⟩
  · intro id node hnode hshared hid
    obtain ⟨key, hkey⟩ := exists_key hshared
    refine ⟨key, (Node.direct?_eq_some_iff.1 hkey).1, ?_⟩
    exact h.lookup_eq_some_iff.2 (h.shared hnode hkey hid)
  · intro id₁ id₂ node h₁ h₂ hshared hid₁ hid₂
    obtain ⟨key, hkey⟩ := exists_key hshared
    exact h.id_unique (h.shared h₁ hkey hid₁) (h.shared h₂ hkey hid₂)

end Run

end TypeGraph
