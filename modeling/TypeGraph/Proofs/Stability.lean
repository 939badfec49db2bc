import TypeGraph.Proofs.Announcements
import TypeGraph.Proofs.Sharing
import TypeGraph.Recipe

/-!
# Ids are stable

What a graph holds stays where it is. `Graph.Later g g'` says that `g'` comes after `g`: a slot of
`g` is the same in `g'`, unless it belongs to a pending object that was defined on the way, and then
it is the slot of a named object with the same label and does not change again. Every change of a
graph leads to a later one, and so does every run (`Run.later_after`).

`Build.Numbers` is about the other end of the graph: the types that a build adds take the next free
ids one after the other, and the build announces them in this order (`Operation.numbers_run`).
-/

namespace TypeGraph

variable {δ : Type}

namespace Graph

/-- `g'` comes after `g`. -/
structure Later (g g' : Graph δ) : Prop where
  size_le : g.size ≤ g'.size
  /-- A type that is not pending is there for good. -/
  settled : ∀ {id : TypeId}, id.index < g.size → id ∉ g.pending →
    g'.slot? id = g.slot? id ∧ id ∉ g'.pending
  /-- A pending object keeps its slot until it is defined, and its label for good. -/
  pending : ∀ {id : TypeId} {slot : Slot δ}, g.slot? id = some slot → id ∈ g.pending →
    g'.slot? id = some slot ∨
      (id ∉ g'.pending ∧ ∃ body, g'.slot? id = some ⟨slot.label, .named slot.label body⟩)
  builtins : g'.builtins = g.builtins

namespace Later

variable {g g' g'' : Graph δ}

theorem refl (g : Graph δ) : g.Later g :=
  ⟨le_rfl, fun _ hid => ⟨rfl, hid⟩, fun hslot _ => .inl hslot, rfl⟩

theorem trans (h : g.Later g') (h' : g'.Later g'') : g.Later g'' where
  size_le := h.size_le.trans h'.size_le
  settled {id} hlt hid := by
    obtain ⟨hslot, hid'⟩ := h.settled hlt hid
    obtain ⟨hslot', hid''⟩ := h'.settled (lt_of_lt_of_le hlt h.size_le) hid'
    exact ⟨hslot'.trans hslot, hid''⟩
  pending {id slot} hslot hid := by
    have hlt : id.index < g'.size := lt_of_lt_of_le (index_lt_of_slot? hslot) h.size_le
    rcases h.pending hslot hid with hsame | ⟨hid', body, hdefined⟩
    · by_cases hid' : id ∈ g'.pending
      · exact h'.pending hsame hid'
      · left
        rw [(h'.settled hlt hid').1, hsame]
    · obtain ⟨hslot', hid''⟩ := h'.settled hlt hid'
      right
      exact ⟨hid'', body, hslot'.trans hdefined⟩
  builtins := h'.builtins.trans h.builtins

/-- A graph with one more slot, which may be that of a pending object, comes after the old one. -/
theorem of_push {slot : Slot δ} (hslot : ∀ id, g'.slot? id = (g.push slot).slot? id)
    (hsize : g'.size = g.size + 1) (hpending : ∀ id ∈ g'.pending, id = ⟨g.size⟩ ∨ id ∈ g.pending)
    (hbuiltins : g'.builtins = g.builtins) : g.Later g' where
  size_le := by omega
  settled {id} hlt hid := by
    refine ⟨by rw [hslot, slot?_push_of_lt hlt], fun hid' => ?_⟩
    rcases hpending id hid' with rfl | hold
    · exact lt_irrefl _ hlt
    · exact hid hold
  pending {id old} hold _ := by
    left
    rw [hslot, slot?_push_of_lt (index_lt_of_slot? hold), hold]
  builtins := hbuiltins

/-- A change that neither declares nor defines leads to a later graph. -/
theorem of_growth (h : Growth g g') : g.Later g' := by
  cases h with
  | @share key slot fits direct unknown =>
    exact .of_push (fun _ => rfl) (g.size_push slot) (fun _ hid => .inr hid) rfl
  | @push slot fits unshared =>
    exact .of_push (fun _ => rfl) (g.size_push slot) (fun _ hid => .inr hid) rfl
  | register name id => exact ⟨le_rfl, fun _ hid => ⟨rfl, hid⟩, fun hslot _ => .inl hslot, rfl⟩

theorem of_grows (h : Grows g g') : g.Later g' := by
  refine Grows.preserves (P := g.Later) ?_ h (.refl g)
  intro g₁ g₂ hlater hstep
  exact hlater.trans (.of_growth hstep)

theorem declare (g : Graph δ) (name : String) : g.Later (g.declare name) :=
  .of_push (fun _ => rfl) (g.size_push _) (fun _ hid => List.mem_cons.1 hid) rfl

theorem define {id : TypeId} (hid : id ∈ g.pending) (body : Body (Edge δ)) :
    g.Later (g.define id body) where
  size_le := by rw [size_define]
  settled {x} hlt hx := by
    have hne : x ≠ id := by
      rintro rfl
      exact hx hid
    refine ⟨by rw [slot?_define, if_neg hne], fun hx' => ?_⟩
    exact hx (List.mem_of_mem_filter hx')
  pending {x slot} hslot hx := by
    by_cases hne : x = id
    · subst hne
      right
      refine ⟨fun hx' => ?_, body, by simp [slot?_define, hslot]⟩
      simpa using List.of_mem_filter hx'
    · left
      rw [slot?_define, if_neg hne, hslot]
  builtins := rfl

/-- A slot that has changed by now does not change again. -/
theorem slot?_eq_of_ne (h : g.Later g') (h' : g'.Later g'') {id : TypeId} (hlt : id.index < g.size)
    (hne : g'.slot? id ≠ g.slot? id) : g''.slot? id = g'.slot? id := by
  obtain ⟨slot, hslot⟩ := exists_slot? hlt
  have hid : id ∈ g.pending := by
    by_contra hid
    exact hne (h.settled hlt hid).1
  rcases h.pending hslot hid with hsame | ⟨hid', -⟩
  · exact absurd (hsame.trans hslot.symm) hne
  · exact (h'.settled (lt_of_lt_of_le hlt h.size_le) hid').1

/-- If pending objects are named objects, then what is kept of a slot is its label and the form of
its type. -/
theorem slot_form (h : g.Later g')
    (hnamed : ∀ id ∈ g.pending, ∃ name body, g.node? id = some (.named name body)) {id : TypeId}
    {slot : Slot δ} (hslot : g.slot? id = some slot) :
    ∃ slot', g'.slot? id = some slot' ∧ slot'.label = slot.label ∧
      slot'.node.kind = slot.node.kind ∧ slot'.node.ctorIdx = slot.node.ctorIdx := by
  by_cases hid : id ∈ g.pending
  · rcases h.pending hslot hid with hsame | ⟨-, body, hdefined⟩
    · exact ⟨slot, hsame, rfl, rfl, rfl⟩
    · obtain ⟨name, body', hnode⟩ := hnamed id hid
      obtain ⟨slot', hslot', hnode'⟩ := node?_eq_some_iff.1 hnode
      obtain rfl := Option.some.inj (hslot.symm.trans hslot')
      refine ⟨_, hdefined, rfl, ?_, ?_⟩
      · rw [hnode']
        rfl
      · rw [hnode']
        rfl
  · refine ⟨slot, ?_, rfl, rfl, rfl⟩
    rw [(h.settled (index_lt_of_slot? hslot) hid).1, hslot]

/-- The types that every graph holds stay as they are in the fresh graph. -/
theorem slot?_of_lt_eleven (h : (Graph.fresh : Graph δ).Later g) {id : TypeId}
    (hid : id.index < 11) : g.slot? id = foundationSlots[id.index]? := by
  have hpending : (Graph.fresh : Graph δ).pending = [] := by rw [fresh_eq]
  rw [(h.settled (by rwa [size_fresh]) (by simp [hpending])).1, fresh_eq]
  rfl

end Later

end Graph

/-- Changes that neither declare nor define change no slot that is there. -/
theorem Grows.slot?_eq {g g' : Graph δ} (h : Grows g g') {id : TypeId} (hlt : id.index < g.size) :
    g'.slot? id = g.slot? id := by
  have hlater := Graph.Later.of_grows h
  obtain ⟨slot, hslot⟩ := Graph.exists_slot? hlt
  by_cases hid : id ∈ g.pending
  · rcases hlater.pending hslot hid with hsame | ⟨hid', -⟩
    · exact hsame.trans hslot.symm
    · rw [h.pending_eq] at hid'
      exact absurd hid hid'
  · exact (hlater.settled hlt hid).1

/-! ### Types that are added -/

/-- The type that an event announces. -/
def Event.added? : Event → Option TypeId
  | typeAdded id _ _ => some id
  | _ => none

/-- The ids from one number up to another, which is not reached. -/
def TypeId.span (start stop : ℕ) : List TypeId := (List.range' start (stop - start)).map mk

theorem TypeId.span_self (n : ℕ) : span n n = [] := by simp [span]

theorem TypeId.span_append {a b c : ℕ} (hab : a ≤ b) (hbc : b ≤ c) :
    span a b ++ span b c = span a c := by
  have hb : b = a + (b - a) := by omega
  have hlength : c - a = (b - a) + (c - b) := by omega
  rw [span, span, span, ← List.map_append, hlength, ← List.range'_append_1, ← hb]

/-- Only announcements name a type that is added. -/
theorem filterMap_added?_announced (events : List Event) :
    (announced events).filterMap Event.added? = events.filterMap Event.added? := by
  induction events with
  | nil => rfl
  | cons event events ih =>
    rw [← List.singleton_append, announced_append, List.filterMap_append, List.filterMap_append, ih]
    cases event <;> simp [announced, Event.message, Event.added?]

theorem Graph.filterMap_added?_records (g : Graph δ) :
    g.records.filterMap Event.added? = TypeId.span 0 g.size := by
  have hids : g.records.filterMap Event.added? =
      g.slots.toList.zipIdx.filterMap (some ∘ TypeId.mk ∘ Prod.snd) := by
    rw [records, List.mapIdx_eq_zipIdx_map, List.filterMap_map]
    rfl
  rw [hids, List.filterMap_eq_map, ← List.map_map, List.zipIdx_map_snd]
  rfl

namespace Build

variable {α : Type}

/-- The types that the build adds take the next free ids one after the other, and the build
announces them in this order. -/
def Numbers (x : Build δ α) : Prop :=
  ∀ g, g.size ≤ (x g).graph.size ∧
    (x g).events.filterMap Event.added? = TypeId.span g.size (x g).graph.size

/-- The announcements of all types name all ids in order. So a build that announces exactly what it
adds names the ids that follow. -/
theorem Numbers.of_announces {x : Build δ α} (h : x.Announces) : x.Numbers := by
  intro g
  have hlength := congrArg List.length (h g)
  have hids := congrArg (List.filterMap Event.added?) (h g)
  rw [List.length_append, Graph.length_records, Graph.length_records] at hlength
  rw [List.filterMap_append, Graph.filterMap_added?_records, Graph.filterMap_added?_records,
    filterMap_added?_announced] at hids
  have hle : g.size ≤ (x g).graph.size := by omega
  rw [← TypeId.span_append (Nat.zero_le _) hle] at hids
  exact ⟨hle, (List.append_cancel_left hids).symm⟩

end Build

section

variable [Deferral δ]

/-- The types that an operation adds take the next free ids one after the other. -/
theorem Operation.numbers_run (op : Operation (Edge δ) TypeId) : op.run.Numbers := by
  by_cases hop : ∃ id ps additional flags, op = .define id ps additional flags
  · obtain ⟨id, ps, additional, flags, rfl⟩ := hop
    intro g
    rw [size_run_define, events_run_define, TypeId.span_self]
    exact ⟨le_rfl, rfl⟩
  · exact .of_announces (announces_run hop)

/-- An operation changes no slot that is there, unless it defines the object in it. -/
theorem Operation.slot?_run (op : Operation (Edge δ) TypeId) (g : Graph δ) {id : TypeId}
    (hlt : id.index < g.size) :
    (op.run g).graph.slot? id = g.slot? id ∨
      ∃ ps additional flags answer, op = .define id ps additional flags ∧
        (op.run g).result = .ok answer := by
  cases hop : op.isTwoStep with
  | false =>
    exact .inl ((op.run_growth hop g).slot?_eq hlt)
  | true =>
    cases op with
    | declare name =>
      left
      rw [run_declare]
      exact Graph.slot?_push_of_lt hlt
    | define token ps additional flags =>
      by_cases htoken : token ∈ g.pending
      · by_cases hid : id = token
        · subst hid
          obtain ⟨answer, hrun, -⟩ := run_define_of_pending htoken hlt ps additional flags
          exact .inr ⟨ps, additional, flags, answer, rfl, by rw [hrun]⟩
        · left
          rw [graph_run_define htoken, Graph.slot?_define, if_neg hid]
      · left
        rw [run_define_of_not_pending htoken]
    | _ => cases hop

end

namespace Run

variable [Deferral δ]

/-- A run leads to later graphs. -/
theorem later_after (r : Run δ) (ops : List (Operation (Edge δ) TypeId)) :
    r.graph.Later (r.after ops).graph := by
  refine after_induction (P := fun _ g => r.graph.Later g) ?_ ?_ ?_ (.refl _) ops
  · intro declared g g' hlater hstep
    exact hlater.trans (.of_growth hstep)
  · intro declared g name hlater
    exact hlater.trans (.declare g name)
  · intro declared g id body hlater hid
    exact hlater.trans (.define hid body)

theorem later_fresh (ops : List (Operation (Edge δ) TypeId)) :
    (Graph.fresh : Graph δ).Later ((start : Run δ).after ops).graph := by
  rw [← graph_start]
  exact later_after start ops

/-- Ids are stable. No operation, whether it succeeds or fails, takes a type away; the types that it
adds take the next free ids one after the other, and of the types that are there it changes only an
object that it defines. So along a run a type keeps its label, its kind and its form, its slot
changes at most once, and the eleven types that every graph holds and the names for eight of them
stay as they are. -/
theorem ids_stable (ops : List (Operation (Edge δ) TypeId)) :
    let r := (start : Run δ).after ops
    (∀ op : Operation (Edge δ) TypeId,
      r.graph.size ≤ (r.perform op).graph.size ∧
      (op.run r.graph).events.filterMap Event.added? =
        TypeId.span r.graph.size (r.perform op).graph.size ∧
      ∀ id : TypeId, id.index < r.graph.size →
        (r.perform op).graph.slot? id = r.graph.slot? id ∨
          ∃ ps additional flags answer, op = .define id ps additional flags ∧
            (op.run r.graph).result = .ok answer) ∧
    (∀ (later : List (Operation (Edge δ) TypeId)) (id : TypeId), id.index < r.graph.size →
      (r.after later).graph.display id = r.graph.display id ∧
      (r.after later).graph.kind? id = r.graph.kind? id ∧
      ((r.after later).graph.node? id).map Node.ctorIdx = (r.graph.node? id).map Node.ctorIdx) ∧
    (∀ (later later' : List (Operation (Edge δ) TypeId)) (id : TypeId), id.index < r.graph.size →
      (r.after later).graph.slot? id ≠ r.graph.slot? id →
      ((r.after later).after later').graph.slot? id = (r.after later).graph.slot? id) ∧
    (∀ id : TypeId, id.index < 11 → r.graph.slot? id = Graph.foundationSlots[id.index]?) ∧
    ∀ name, r.graph.builtin? name =
      [("any", .any), ("string", .string), ("object", .object), ("int", .int), ("bool", .bool),
        ("array", .array), ("null", .null), ("resource", .resource)].lookup name := by
  intro r
  have hsound : r.graph.Sound r.declared := sound ops
  have hfresh : (Graph.fresh : Graph δ).Later r.graph := later_fresh ops
  refine ⟨?_, ?_, ?_, ?_, ?_⟩
  · intro op
    obtain ⟨hsize, hevents⟩ := op.numbers_run r.graph
    exact ⟨hsize, hevents, fun id hlt => op.slot?_run r.graph hlt⟩
  · intro later id hlt
    have hnamed : ∀ x ∈ r.graph.pending, ∃ name body, r.graph.node? x = some (.named name body) :=
      fun x hx => (hsound.of_declared (hsound.pending hx)).1
    obtain ⟨slot, hslot⟩ := Graph.exists_slot? hlt
    obtain ⟨slot', hslot', hlabel, hkind, hform⟩ := (r.later_after later).slot_form hnamed hslot
    simp [Graph.display, Graph.kind?, Graph.node?, hslot, hslot', hlabel, hkind, hform]
  · intro later later' id hlt hne
    exact (r.later_after later).slot?_eq_of_ne ((r.after later).later_after later') hlt hne
  · exact fun id => hfresh.slot?_of_lt_eleven
  · intro name
    rw [Graph.builtin?, hfresh.builtins, Graph.fresh_eq]

/-- A declared object keeps its label when it is defined and its slot changes. Neither a second
attempt to define it nor a registration under its name changes the slot again. -/
theorem ids_stable_across_definition :
    let r := (start : Run Recipe).after [.declare "A"]
    let r' := r.after [.define ⟨11⟩ [⟨"p", .direct .string, .none⟩] none .none]
    let r'' := r'.after [.define ⟨11⟩ [] none .none, .register "A" (.direct .string)]
    (⟨11⟩ : TypeId).index < r.graph.size ∧ r'.graph.slot? ⟨11⟩ ≠ r.graph.slot? ⟨11⟩ ∧
      r'.graph.display ⟨11⟩ = r.graph.display ⟨11⟩ ∧
      r''.graph.slot? ⟨11⟩ = r'.graph.slot? ⟨11⟩ := by
  intro r r' r''
  have hgraph : r.graph = Graph.fresh.declare "A" := by
    rw [← graph_start]
    exact graph_perform_declare start "A"
  have hslot : r.graph.slot? ⟨11⟩ = some ⟨"A", .named "A" .empty⟩ := by
    rw [hgraph, ← Graph.size_fresh (δ := Recipe)]
    exact Graph.slot?_push_size _ _
  have hpending : ⟨11⟩ ∈ r.graph.pending := by
    rw [hgraph, ← Graph.size_fresh (δ := Recipe)]
    exact List.mem_cons_self
  have hgraph' : r'.graph =
      r.graph.define ⟨11⟩ (.ofProperties [⟨"p", .direct .string, .none⟩] none .none) :=
    r.graph_perform_define hpending _ none .none
  have hlt : (⟨11⟩ : TypeId).index < r.graph.size := Graph.index_lt_of_slot? hslot
  have hne : r'.graph.slot? ⟨11⟩ ≠ r.graph.slot? ⟨11⟩ := by
    rw [hgraph', Graph.slot?_define, if_pos rfl, hslot]
    simp [Body.ofProperties, Body.empty, Property.distinct, Property.insert]
  obtain ⟨-, hkept, honce, -, -⟩ := ids_stable (δ := Recipe) [.declare "A"]
  exact ⟨hlt, hne, (hkept _ _ hlt).1, honce _ _ _ hlt hne⟩

end Run

end TypeGraph
