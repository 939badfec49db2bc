import Mathlib.Data.List.Induction
import TypeGraph.Proofs.Announcements
import TypeGraph.Proofs.Atomicity
import TypeGraph.Proofs.Stability
import TypeGraph.Recipe

/-!
# The log is a record of the graph

Whoever listens from the start hears of every type once, in the order of ids, and with the label and
the kind that the type has for good. One operation appends to the records of the graph what it
announces (`Operation.records_run`), and so the announcements of a whole run are the records of the
graph in which it ends (`Run.announced_events`).
-/

namespace TypeGraph

variable {δ : Type}

/-- Types that are there look the same in later graphs, even if they are defined on the way. -/
theorem Graph.Later.records_prefix {g g' : Graph δ} (h : g.Later g')
    (hnamed : ∀ id ∈ g.pending, ∃ name body, g.node? id = some (.named name body)) :
    g.records <+: g'.records := by
  rw [List.prefix_iff_getElem?]
  intro n hn
  have hlt : (⟨n⟩ : TypeId).index < g.size := by rwa [length_records] at hn
  obtain ⟨slot, hslot⟩ := exists_slot? hlt
  obtain ⟨slot', hslot', hlabel, hkind, -⟩ := h.slot_form hnamed hslot
  rw [← List.getElem?_eq_getElem, getElem?_records, getElem?_records, hslot, hslot']
  simp [hlabel, hkind]

/-- A type that is placed where it already was is not announced. -/
theorem Build.events_place_of_lt {slot : Slot δ} {g : Graph δ} {id : TypeId}
    (h : (place slot g).result = .ok id) (hlt : id.index < g.size) :
    (place slot g).events = [] := by
  cases hkey : slot.node.direct? with
  | none =>
    rw [place_of_unshared hkey] at h
    have hid : (⟨g.size⟩ : TypeId) = id := Except.ok.inj h
    exact absurd hlt (by simp [← hid])
  | some key =>
    cases hknown : g.shared.lookup key with
    | none =>
      rw [place_of_new hkey hknown] at h
      have hid : (⟨g.size⟩ : TypeId) = id := Except.ok.inj h
      exact absurd hlt (by simp [← hid])
    | some known => rw [place_of_known hkey hknown]

/-! ### The fresh graph -/

theorem Build.announces_foundation : (foundation : Build δ Unit).Announces := by
  refine (announces_place _).bind fun any => (announces_place _).bind fun string => ?_
  refine (announces_place _).bind fun object => (announces_place _).bind fun int => ?_
  refine (announces_place _).bind fun bool => (announces_place _).bind fun array => ?_
  refine (announces_place _).bind fun null => (announces_place _).bind fun resource => ?_
  refine (announces_place _).bind fun _ => (announces_place _).bind fun _ => ?_
  exact (announces_place _).bind fun _ => announces_change fun _ => rfl

/-- The types of the fresh graph are announced like all others. They hold no deferred edges, so that
it does not matter what those are. -/
theorem Graph.announced_freshEvents : announced freshEvents = (fresh : Graph δ).records := by
  have hempty : (fresh : Graph Empty).records = announced freshEvents :=
    Build.announces_foundation .empty
  rw [← hempty, fresh_eq, fresh_eq]
  rfl

/-! ### Operations and runs -/

variable [Deferral δ]

/-- What an operation announces is what it appends to the records of the graph, if pending objects
are named objects. -/
theorem Operation.records_run {g : Graph δ}
    (hnamed : ∀ id ∈ g.pending, ∃ name body, g.node? id = some (.named name body))
    (op : Operation (Edge δ) TypeId) :
    (op.run g).graph.records = g.records ++ announced (op.run g).events := by
  by_cases hop : ∃ id ps additional flags, op = .define id ps additional flags
  · obtain ⟨id, ps, additional, flags, rfl⟩ := hop
    -- the slot of the object changes, but neither its label nor its kind
    have hlater := Run.later_after ⟨g, []⟩ [.define id ps additional flags]
    rw [events_run_define, announced_nil, List.append_nil]
    refine ((hlater.records_prefix hnamed).eq_of_length ?_).symm
    rw [Graph.length_records, Graph.length_records]
    exact (size_run_define id ps additional flags g).symm
  · exact announces_run hop g

namespace Run

/-- What happens while the run goes on with some operations. -/
def events (r : Run δ) : List (Operation (Edge δ) TypeId) → List Event
  | [] => []
  | op :: ops => (op.run r.graph).events ++ (r.perform op).events ops

theorem events_concat (r : Run δ) (ops : List (Operation (Edge δ) TypeId))
    (op : Operation (Edge δ) TypeId) :
    r.events (ops ++ [op]) = r.events ops ++ (op.run (r.after ops).graph).events := by
  induction ops generalizing r with
  | nil => simp [events]
  | cons first ops ih => rw [List.cons_append, events, ih, events, List.append_assoc, after_cons]

theorem named_of_pending (ops : List (Operation (Edge δ) TypeId)) :
    ∀ id ∈ ((start : Run δ).after ops).graph.pending, ∃ name body,
      ((start : Run δ).after ops).graph.node? id = some (.named name body) :=
  fun _ hid => ((sound ops).of_declared ((sound ops).pending hid)).1

/-- The announcements of a run, with those of the fresh graph, are the records of its graph. -/
theorem announced_events (ops : List (Operation (Edge δ) TypeId)) :
    announced (Graph.freshEvents ++ (start : Run δ).events ops) =
      ((start : Run δ).after ops).graph.records := by
  induction ops using List.reverseRecOn with
  | nil => rw [events, List.append_nil, after_nil, graph_start, Graph.announced_freshEvents]
  | append_singleton ops op ih =>
    rw [events_concat, ← List.append_assoc, announced_append, ih, after_concat]
    exact (op.records_run (named_of_pending ops)).symm

/-- The log is a faithful record of the graph. At every point of a run, failed operations included,
there are as many announcements as types, and the one in place `n` shows the id `n` with the name
and the kind that this type has now. An operation announces as many types as it adds; one that fails
announces none, no more than a definition does or a request for a type that is known. -/
theorem log_records_types (ops : List (Operation (Edge δ) TypeId)) :
    let r := (start : Run δ).after ops
    let log := announced (Graph.freshEvents ++ (start : Run δ).events ops)
    log.length = r.graph.size ∧
    (∀ n < r.graph.size, ∃ event kind, log[n]? = some event ∧ r.graph.kind? ⟨n⟩ = some kind ∧
      event.level = .trace ∧ event.fields =
        [("id", .number n), ("name", .string (r.graph.display ⟨n⟩)),
          ("kind", .plain kind.name)]) ∧
    (∀ op : Operation (Edge δ) TypeId,
      r.graph.size + (announced (op.run r.graph).events).length = (r.perform op).graph.size) ∧
    (∀ (op : Operation (Edge δ) TypeId) (failure : Failure),
      (op.run r.graph).result = .error failure → announced (op.run r.graph).events = []) ∧
    (∀ (id : TypeId) (ps : List (Property (Edge δ))) (additional : Option (Edge δ))
      (flags : Flags),
      announced ((Operation.define id ps additional flags).run r.graph).events = []) ∧
    ∀ (slot : Slot δ) (id : TypeId), (Build.place slot r.graph).result = .ok id →
      id.index < r.graph.size → announced (Build.place slot r.graph).events = [] := by
  intro r log
  have hlog : log = r.graph.records := announced_events ops
  have hcount (op : Operation (Edge δ) TypeId) :
      r.graph.size + (announced (op.run r.graph).events).length = (op.run r.graph).graph.size := by
    rw [← Graph.length_records, ← Graph.length_records, op.records_run (named_of_pending ops),
      List.length_append]
  refine ⟨?_, ?_, hcount, ?_, ?_, ?_⟩
  · rw [hlog, Graph.length_records]
  · intro n hn
    have hlt : (⟨n⟩ : TypeId).index < r.graph.size := hn
    obtain ⟨slot, hslot⟩ := Graph.exists_slot? hlt
    refine ⟨.typeAdded ⟨n⟩ slot.label slot.node.kind, slot.node.kind, ?_, ?_, rfl, ?_⟩
    · rw [hlog, Graph.getElem?_records, hslot]
      rfl
    · simp [Graph.kind?, Graph.node?, hslot]
    · simp [Event.fields, Graph.display, hslot]
  · intro op failure hfailure
    have hsame : (op.run r.graph).graph = r.graph :=
      Operation.graph_eq_of_error (fun id hid => (inStep ops).index_lt_of_pending hid) hfailure
    have hnone := hcount op
    rw [hsame] at hnone
    exact List.eq_nil_of_length_eq_zero (by omega)
  · intro id ps additional flags
    rw [Operation.events_run_define, announced_nil]
  · intro slot id hresult hlt
    rw [Build.events_place_of_lt hresult hlt, announced_nil]

/-- An object is declared, a union fails over a member that is not there, the object is defined, and
an array of it is made. The object was announced before it had a property, and what was announced is
still right; the union would fail again and announce nothing. -/
theorem log_records_types_across_definition :
    let union : Operation (Edge Recipe) TypeId := .make (.union [.direct ⟨40⟩, .direct .string])
    let ops := [.declare "A", union, .define ⟨11⟩ [⟨"p", .direct .string, .none⟩] none .none,
      .make (.array (.direct ⟨11⟩))]
    let r := (start : Run Recipe).after ops
    let log := announced (Graph.freshEvents ++ (start : Run Recipe).events ops)
    log.length = 13 ∧
      (∃ event, log[11]? = some event ∧ event.fields =
        [("id", .number 11), ("name", .string "A"), ("kind", .plain "Object")]) ∧
      (union.run r.graph).result = .error .dangling ∧
      announced (union.run r.graph).events = [] := by
  intro union ops r log
  obtain ⟨hlength, hentries, -, hfailed, -⟩ := log_records_types ops
  obtain ⟨hsize, hkind, hname, hresult⟩ : r.graph.size = 13 ∧
      r.graph.kind? ⟨11⟩ = some .object ∧ r.graph.display ⟨11⟩ = "A" ∧
      (union.run r.graph).result = .error .dangling := by
    simp only [r, ops, union, after_cons, after_nil, perform, graph_start, Graph.fresh_eq]
    exact ⟨rfl, rfl, rfl, rfl⟩
  obtain ⟨event, kind, hevent, hkind', -, hfields⟩ := hentries 11 (by rw [hsize]; decide)
  obtain rfl := Option.some.inj (hkind.symm.trans hkind')
  rw [hname] at hfields
  exact ⟨hlength.trans hsize, ⟨event, hevent, hfields⟩, hresult, hfailed union .dangling hresult⟩

end Run

end TypeGraph
