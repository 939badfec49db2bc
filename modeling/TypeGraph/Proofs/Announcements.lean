import TypeGraph.Proofs.Growth

/-!
# Announcements of new types

Each type that is added to a graph is announced by an event. `Graph.records` are the announcements
of all types of a graph as they look at present. A build announces exactly what it adds if it leads
from the records of one graph to those of the next by appending its announcements
(`Build.Announces`). Every operation that does not define an object does this
(`Operation.announces_run`). A definition announces nothing (`Operation.events_run_define`), but it
changes a type that is there.
-/

namespace TypeGraph

variable {δ : Type}

/-- The events that announce a new type. -/
def announced (events : List Event) : List Event := events.filter (·.message = "new type")

@[simp] theorem announced_nil : announced [] = [] := rfl

@[simp] theorem announced_append (events events' : List Event) :
    announced (events ++ events') = announced events ++ announced events' :=
  List.filter_append ..

@[simp] theorem announced_typeAdded (id : TypeId) (name : String) (kind : Kind) :
    announced [.typeAdded id name kind] = [.typeAdded id name kind] := by
  simp [announced, Event.message]

namespace Graph

/-- The announcements of all types of the graph as they look at present, in the order of ids. -/
def records (g : Graph δ) : List Event :=
  g.slots.toList.mapIdx fun n slot => .typeAdded ⟨n⟩ slot.label slot.node.kind

theorem records_congr {g g' : Graph δ} (h : g'.slots = g.slots) : g'.records = g.records := by
  rw [records, records, h]

@[simp] theorem length_records (g : Graph δ) : g.records.length = g.size := by
  simp [records, size]

theorem getElem?_records (g : Graph δ) (n : ℕ) :
    g.records[n]? =
      (g.slot? ⟨n⟩).map fun slot => .typeAdded ⟨n⟩ slot.label slot.node.kind := by
  simp [records, slot?]

theorem records_push (g : Graph δ) (slot : Slot δ) :
    (g.push slot).records =
      g.records ++ [.typeAdded ⟨g.size⟩ slot.label slot.node.kind] := by
  simp [records, push, size]

end Graph

/-! ### Builds -/

namespace Build

variable {α β : Type}

/-- The build announces exactly the types that it adds, and does not change how others look. -/
def Announces (x : Build δ α) : Prop :=
  ∀ g, (x g).graph.records = g.records ++ announced (x g).events

/-- A build that leaves the types alone and announces nothing. -/
theorem Announces.of_quiet {x : Build δ α} (hslots : ∀ g, (x g).graph.slots = g.slots)
    (hevents : ∀ g, announced (x g).events = []) : x.Announces := by
  intro g
  rw [hevents, List.append_nil, Graph.records_congr (hslots g)]

theorem Announces.bind {x : Build δ α} {f : α → Build δ β} (hx : x.Announces)
    (hf : ∀ a, (f a).Announces) : (x >>= f).Announces := by
  intro g
  have hrecords := hx g
  cases h : x g with
  | mk result g' events =>
    rw [h] at hrecords
    cases result with
    | error failure =>
      rw [bind_apply_error h]
      exact hrecords
    | ok a =>
      rw [bind_apply_ok h]
      show (f a g').graph.records = _
      rw [hf a g', hrecords, announced_append, List.append_assoc]

theorem announces_pure (a : α) : (Pure.pure a : Build δ α).Announces :=
  .of_quiet (fun _ => rfl) fun _ => rfl

theorem announces_fail (failure : Failure) : (fail failure : Build δ α).Announces :=
  .of_quiet (fun _ => rfl) fun _ => rfl

theorem announces_read (f : Graph δ → α) : (read f).Announces :=
  .of_quiet (fun _ => rfl) fun _ => rfl

theorem announces_change {f : Graph δ → Graph δ} (h : ∀ g, (f g).slots = g.slots) :
    (change f).Announces :=
  .of_quiet h fun _ => rfl

theorem announces_emit {event : Event} (h : event.message ≠ "new type") :
    (emit event : Build δ Unit).Announces := by
  refine .of_quiet (fun _ => rfl) fun _ => ?_
  simp [emit, announced, h]

theorem announces_follow (a : Option α) : (follow a : Build δ α).Announces := by
  cases a with
  | none => exact announces_fail _
  | some a => exact announces_pure a

theorem announces_ofExcept (result : Except Failure α) :
    (ofExcept result : Build δ α).Announces := by
  cases result with
  | error failure => exact announces_fail failure
  | ok a => exact announces_pure a

theorem announces_add (slot : Slot δ) : (add slot).Announces := by
  intro g
  have hevents : (add slot g).events = [.typeAdded ⟨g.size⟩ slot.label slot.node.kind] := rfl
  rw [hevents, announced_typeAdded]
  exact g.records_push slot

/-- A type that is known already is not announced again. -/
theorem announces_place (slot : Slot δ) : (place slot).Announces := by
  unfold place
  split
  · exact announces_add slot
  · refine (announces_read _).bind fun known => ?_
    split
    · exact announces_pure _
    · refine (announces_add slot).bind fun id => ?_
      exact .bind (announces_change fun _ => rfl) fun _ => announces_pure id

theorem announces_declare (name : String) : (declare name : Build δ TypeId).Announces := by
  refine (announces_add _).bind fun id => ?_
  exact .bind (announces_change fun _ => rfl) fun _ => announces_pure id

theorem announces_registered (name : String) : (registered name : Build δ TypeId).Announces := by
  refine (announces_read _).bind fun found => ?_
  cases found with
  | none => exact announces_fail _
  | some id => exact announces_pure id

variable [Deferral δ]

theorem announces_array (item : Edge δ) : (array item).Announces :=
  (announces_read _).bind fun _ => (announces_read _).bind fun _ => announces_place _

theorem announces_union (members : List (Edge δ)) : (union members).Announces := by
  refine (announces_read _).bind fun leaves? => (announces_follow leaves?).bind fun leaves => ?_
  refine (announces_read _).bind fun ids => ?_
  split
  · exact announces_pure _
  · exact announces_pure _
  · refine (announces_read _).bind fun label => ?_
    exact (announces_emit (by simp [Event.message])).bind fun _ => announces_place _

theorem announces_discriminated (name key : String) (members : List (Edge δ)) :
    (discriminated name key members).Announces := by
  refine (announces_read _).bind fun result => ?_
  split
  · exact (announces_emit (by simp [Event.message])).bind fun _ => announces_fail _
  · exact announces_fail _
  · exact (announces_emit (by simp [Event.message])).bind fun _ => announces_place _

theorem announces_modifierProperties (target : TypeId) :
    (modifierProperties target : Build δ _).Announces := by
  unfold modifierProperties
  split
  · exact (announces_array _).bind fun _ => announces_pure _
  · exact (announces_read _).bind fun _ => announces_fail _

theorem announces_modifier (target : TypeId) : (modifier target : Build δ TypeId).Announces := by
  refine (announces_modifierProperties target).bind fun ps => (announces_read _).bind fun name => ?_
  exact (announces_emit (by simp [Event.message])).bind fun _ => announces_place _

theorem announces_resourceProperties (reference : Resource.Reference) :
    (resourceProperties reference : Build δ _).Announces := by
  refine (announces_place _).bind fun type => (announces_place _).bind fun version => ?_
  refine (announces_array _).bind fun strings => (announces_array _).bind fun resources => ?_
  exact announces_pure _

theorem announces_resource (reference : Resource.Reference) :
    (resource reference : Build δ TypeId).Announces := by
  refine (announces_resourceProperties reference).bind fun ps => ?_
  exact (announces_emit (by simp [Event.message])).bind fun _ => announces_place _

end Build

/-! ### Operations -/

section

open Build

variable [Deferral δ]

theorem Construction.announces_build (c : Construction (Edge δ)) : c.build.Announces := by
  cases c with
  | literal value => exact announces_place _
  | array item => exact announces_array item
  | object ps additional => exact announces_place _
  | named name ps additional flags => exact announces_place _
  | union members => exact announces_union members
  | discriminated name key members => exact announces_discriminated name key members
  | modifier target => exact (announces_read _).bind announces_modifier
  | resource text =>
    simp only [build]
    split
    · exact announces_resource _
    · exact announces_fail _

/-- An operation that does not define an object announces exactly what it adds. -/
theorem Operation.announces_run {op : Operation (Edge δ) TypeId}
    (h : ¬ ∃ id ps additional flags, op = .define id ps additional flags) : op.run.Announces := by
  have hmade (id : TypeId) : (Answer.ofMade id : Build δ Answer).Announces := announces_read _
  cases op with
  | make construction => exact construction.announces_build.bind hmade
  | declare name => exact (announces_declare name).bind hmade
  | define id ps additional flags => exact absurd ⟨id, ps, additional, flags, rfl⟩ h
  | register name type =>
    refine (announces_read _).bind fun id => ?_
    exact .bind (announces_change fun _ => rfl) fun _ => announces_pure _
  | registered name => exact (announces_registered name).bind hmade
  | variants name key members =>
    refine (announces_read _).bind fun result => (announces_ofExcept result).bind fun _ => ?_
    exact announces_read _
  | modifierProperties target =>
    refine (announces_read _).bind fun id => (announces_modifierProperties id).bind fun ps => ?_
    exact announces_read _
  | resourceProperties text =>
    simp only [run]
    split
    · exact (announces_resourceProperties _).bind fun _ => announces_read _
    · exact announces_fail _
  | same a b => exact announces_read _
  | edge type => exact announces_read _
  | inspect type question => exact (announces_read _).bind announces_ofExcept
  | query question => exact announces_read _

/-- A definition happens without events, whether it succeeds or fails. -/
theorem Operation.events_run_define (id : TypeId) (ps : List (Property (Edge δ)))
    (additional : Option (Edge δ)) (flags : Flags) (g : Graph δ) :
    ((Operation.define id ps additional flags : Operation (Edge δ) TypeId).run g).events = [] := by
  by_cases hid : id ∈ g.pending
  · have hdefine := define_of_pending hid ps additional flags
    split_ifs at hdefine with hlt
    · rw [run, bind_apply_ok hdefine]
      rfl
    · rw [run, bind_apply_error hdefine]
  · rw [run_define_of_not_pending hid]

theorem Operation.size_run_define (id : TypeId) (ps : List (Property (Edge δ)))
    (additional : Option (Edge δ)) (flags : Flags) (g : Graph δ) :
    ((Operation.define id ps additional flags : Operation (Edge δ) TypeId).run g).graph.size =
      g.size := by
  by_cases hid : id ∈ g.pending
  · rw [graph_run_define hid, Graph.size_define]
  · rw [run_define_of_not_pending hid]

end

end TypeGraph
