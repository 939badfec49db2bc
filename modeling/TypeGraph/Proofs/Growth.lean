import Mathlib.Logic.Relation
import TypeGraph.Operation
import TypeGraph.Proofs.MemberOrder

/-!
# How graphs grow

Operations change a graph in five ways: a shared type takes a new slot and enters the table
(`Graph.share`), a type that is not shared takes a new slot (`Graph.push`), an object is declared
(`Graph.declare`), a pending object is defined (`Graph.define`), a name is registered
(`Graph.register`).

* `Growth` is one change that neither declares nor defines an object, with all that is known about
  it; `Slot.Fits` says what a new slot can look like.
* `Operation.run_growth`: an operation that neither declares nor defines is a sequence of such
  changes.
* `Operation.run_declare`: a declaration is one `Graph.declare` and gives the new id.
* `Operation.run_define_of_pending`, `Operation.run_define_of_not_pending`: the definition of an
  object that is there is one `Graph.define`, or it is refused and nothing changes.

Every invariant of graphs is proved for single changes and carried over to operations from here.
-/

namespace TypeGraph

open Relation (ReflTransGen)
open Resource (Reference)

variable {δ : Type}

namespace Graph

/-- The graph with one more slot. -/
def push (g : Graph δ) (slot : Slot δ) : Graph δ := { g with slots := g.slots.push slot }

/-- The graph with one more slot, whose type is shared. -/
def share (g : Graph δ) (key : Node TypeId) (slot : Slot δ) : Graph δ :=
  { g.push slot with shared := (key, ⟨g.size⟩) :: g.shared }

/-- The graph with one more object, which awaits its definition. -/
def declare (g : Graph δ) (name : String) : Graph δ :=
  { g.push ⟨name, .named name .empty⟩ with pending := ⟨g.size⟩ :: g.pending }

/-- The graph with a pending object defined. -/
def define (g : Graph δ) (id : TypeId) (body : Body (Edge δ)) : Graph δ :=
  { g with
    slots := g.slots.modify id.index fun slot => ⟨slot.label, .named slot.label body⟩
    pending := g.pending.filter (· ≠ id) }

/-- The graph with a type registered under a name. -/
def register (g : Graph δ) (name : String) (id : TypeId) : Graph δ :=
  { g with names := (name, id) :: g.names }

/-! ### Slots after a change -/

theorem slot?_eq_none_iff {g : Graph δ} {id : TypeId} : g.slot? id = none ↔ g.size ≤ id.index := by
  simp [slot?, size]

theorem index_lt_of_slot? {g : Graph δ} {id : TypeId} {slot : Slot δ} (h : g.slot? id = some slot) :
    id.index < g.size := by
  by_contra hge
  rw [slot?_eq_none_iff.2 (not_lt.1 hge)] at h
  cases h

theorem exists_slot? {g : Graph δ} {id : TypeId} (h : id.index < g.size) :
    ∃ slot, g.slot? id = some slot :=
  ⟨g.slots[id.index], Array.getElem?_eq_getElem h⟩

@[simp] theorem size_push (g : Graph δ) (slot : Slot δ) : (g.push slot).size = g.size + 1 := by
  simp [push, size]

theorem slot?_push (g : Graph δ) (slot : Slot δ) (id : TypeId) :
    (g.push slot).slot? id = if id.index = g.size then some slot else g.slot? id := by
  unfold push slot? size
  rw [Array.getElem?_push]

theorem slot?_push_of_lt {g : Graph δ} {slot : Slot δ} {id : TypeId} (h : id.index < g.size) :
    (g.push slot).slot? id = g.slot? id := by
  rw [slot?_push, if_neg (by omega)]

theorem slot?_push_size (g : Graph δ) (slot : Slot δ) :
    (g.push slot).slot? ⟨g.size⟩ = some slot := by
  rw [slot?_push, if_pos rfl]

/-- A definition replaces the slot of its object, if there is one. -/
theorem define_eq (g : Graph δ) (id : TypeId) (body : Body (Edge δ)) :
    g.define id body =
      { g with
        slots :=
          match g.slot? id with
          | some slot => g.slots.setIfInBounds id.index ⟨slot.label, .named slot.label body⟩
          | none => g.slots
        pending := g.pending.filter (· ≠ id) } := by
  unfold define slot?
  congr 1
  apply Array.ext_getElem?
  intro i
  rw [Array.getElem?_modify]
  cases hslot : g.slots[id.index]? with
  | none =>
    by_cases hi : id.index = i
    · subst hi
      simp [hslot]
    · simp [hi]
  | some slot =>
    have hlt : id.index < g.slots.size := (Array.getElem?_eq_some_iff.1 hslot).1
    rw [Array.getElem?_setIfInBounds, if_pos hlt]
    by_cases hi : id.index = i
    · subst hi
      simp [hslot]
    · simp [hi]

@[simp] theorem size_define (g : Graph δ) (id : TypeId) (body : Body (Edge δ)) :
    (g.define id body).size = g.size := by
  simp [define, size]

theorem slot?_define (g : Graph δ) (id x : TypeId) (body : Body (Edge δ)) :
    (g.define id body).slot? x =
      if x = id then (g.slot? x).map fun slot => ⟨slot.label, .named slot.label body⟩
      else g.slot? x := by
  have hx : id.index = x.index ↔ x = id := by
    cases x; cases id; simp [eq_comm]
  simp [define, slot?, Array.getElem?_modify, hx]

end Graph

/-- What a slot that is added to `g` by an operation can look like. The types without parts are
there from the start, and so is the union of no types. -/
def Slot.Fits (g : Graph δ) (slot : Slot δ) : Prop :=
  match slot.node with
  | .literal value => slot.label = Text.quoted value
  | .object _ => slot.label = "object"
  | .named name _ => slot.label = name
  | .array (some item) => slot.label = g.display item ++ "[]"
  | .union members =>
    2 ≤ members.length ∧ slot.label = g.unionLabel members ∧ g.Ordered members ∧
      ∀ m ∈ members, g.IsLeaf m
  | .discriminated name _ _ => slot.label = name
  | .any | .primitive _ | .array none | .resource => False

/-- One change of a graph that neither declares nor defines an object. -/
inductive Growth : Graph δ → Graph δ → Prop
  /-- A shared type that is not known takes a new slot and enters the table. -/
  | share {g : Graph δ} {key : Node TypeId} {slot : Slot δ} (fits : slot.Fits g)
      (direct : slot.node.direct? = some key) (unknown : g.shared.lookup key = none) :
      Growth g (g.share key slot)
  /-- A type that is not shared takes a new slot. -/
  | push {g : Graph δ} {slot : Slot δ} (fits : slot.Fits g) (unshared : slot.node.direct? = none) :
      Growth g (g.push slot)
  /-- A name is registered. -/
  | register {g : Graph δ} (name : String) (id : TypeId) : Growth g (g.register name id)

/-- Such changes lead from one graph to another. -/
abbrev Grows : Graph δ → Graph δ → Prop := ReflTransGen Growth

/-- What single changes preserve, sequences of them preserve. -/
theorem Grows.preserves {P : Graph δ → Prop} (grow : ∀ {g g'}, P g → Growth g g' → P g')
    {g g' : Graph δ} (h : Grows g g') (hg : P g) : P g' := by
  induction h with
  | refl => exact hg
  | tail _ hstep ih => exact grow ih hstep

/-- Such changes keep the pending objects. -/
theorem Grows.pending_eq {g g' : Graph δ} (h : Grows g g') : g'.pending = g.pending := by
  refine Grows.preserves (P := fun g' => g'.pending = g.pending) (fun hold hstep => ?_) h rfl
  cases hstep with
  | share fits direct unknown => exact hold
  | push fits unshared => exact hold
  | register name id => exact hold

/-- Such changes remove nothing. -/
theorem Grows.size_le {g g' : Graph δ} (h : Grows g g') : g.size ≤ g'.size := by
  refine Grows.preserves (P := fun g' => g.size ≤ g'.size) (fun {g₁ g₂} hold hstep => ?_) h le_rfl
  cases hstep with
  | @share key slot fits direct unknown =>
    have hsize : (g₁.share key slot).size = g₁.size + 1 := g₁.size_push slot
    omega
  | @push slot fits unshared =>
    have hsize : (g₁.push slot).size = g₁.size + 1 := g₁.size_push slot
    omega
  | register name id => exact hold

/-! ### Builds -/

namespace Build

variable {α β : Type}

@[simp] theorem read_bind_apply (f : Graph δ → α) (k : α → Build δ β) (g : Graph δ) :
    (read f >>= k) g = k (f g) g := rfl

theorem result_bind {x : Build δ α} {f : α → Build δ β} {g : Graph δ} {a : α}
    (h : (x g).result = .ok a) : ((x >>= f) g).result = (f a (x g).graph).result := by
  rw [bind_apply_ok (by rw [← h] : x g = ⟨.ok a, (x g).graph, (x g).events⟩)]

theorem graph_bind {x : Build δ α} {f : α → Build δ β} {g : Graph δ} {a : α}
    (h : (x g).result = .ok a) : ((x >>= f) g).graph = (f a (x g).graph).graph := by
  rw [bind_apply_ok (by rw [← h] : x g = ⟨.ok a, (x g).graph, (x g).events⟩)]

/-- What follows in a build grows the graph further. -/
theorem grows_bind_right {x : Build δ α} {f : α → Build δ β} {g : Graph δ}
    (hf : ∀ a, (x g).result = .ok a → Grows (x g).graph (f a (x g).graph).graph) :
    Grows (x g).graph ((x >>= f) g).graph := by
  cases h : x g with
  | mk result g' events =>
    rw [h] at hf
    cases result with
    | error failure =>
      rw [bind_apply_error h]
    | ok a =>
      rw [bind_apply_ok h]
      exact hf a rfl

/-- A build that goes on grows the graph if both parts do. -/
theorem grows_bind {x : Build δ α} {f : α → Build δ β} {g : Graph δ} (hx : Grows g (x g).graph)
    (hf : ∀ a, (x g).result = .ok a → Grows (x g).graph (f a (x g).graph).graph) :
    Grows g ((x >>= f) g).graph :=
  hx.trans (grows_bind_right hf)

theorem grows_place {slot : Slot δ} {g : Graph δ} (fits : slot.Fits g) :
    Grows g (place slot g).graph := by
  cases hdirect : slot.node.direct? with
  | none =>
    rw [place_of_unshared hdirect]
    exact .single (.push fits hdirect)
  | some key =>
    cases hknown : g.shared.lookup key with
    | some id =>
      rw [place_of_known hdirect hknown]
    | none =>
      rw [place_of_new hdirect hknown]
      exact .single (.share fits hdirect hknown)

theorem grows_literal (value : String) (g : Graph δ) : Grows g (literal value g).graph :=
  grows_place rfl

theorem grows_object (ps : List (Property (Edge δ))) (additional : Option (Edge δ)) (g : Graph δ) :
    Grows g (object ps additional g).graph :=
  grows_place rfl

theorem grows_named (name : String) (ps : List (Property (Edge δ))) (additional : Option (Edge δ))
    (flags : Flags) (g : Graph δ) : Grows g (named name ps additional flags g).graph :=
  grows_place rfl

/-- The outcome of defining an object that is pending. It is taken off the list of pending objects
before its slot is looked at. -/
theorem define_of_pending {id : TypeId} {g : Graph δ} (h : id ∈ g.pending)
    (ps : List (Property (Edge δ))) (additional : Option (Edge δ)) (flags : Flags) :
    define id ps additional flags g =
      ⟨if id.index < g.size then .ok id else .error .dangling,
        g.define id (.ofProperties ps additional flags), []⟩ := by
  unfold define
  rw [read_bind_apply, if_pos h, Graph.define_eq]
  show (follow (g.slot? id) >>= _) _ = _
  cases hslot : g.slot? id with
  | none =>
    have hge : ¬ id.index < g.size := not_lt.2 (Graph.slot?_eq_none_iff.1 hslot)
    rw [if_neg hge]
    rfl
  | some slot =>
    rw [if_pos (Graph.index_lt_of_slot? hslot)]
    rfl

/-- The outcome of defining an object that is not pending. -/
theorem define_of_not_pending {id : TypeId} {g : Graph δ} (h : id ∉ g.pending)
    (ps : List (Property (Edge δ))) (additional : Option (Edge δ)) (flags : Flags) :
    define id ps additional flags g = ⟨.error (.refused (.notAwaitingDefinition id)), g, []⟩ := by
  unfold define
  rw [read_bind_apply, if_neg h]
  rfl

theorem grows_registered (name : String) (g : Graph δ) : Grows g (registered name g).graph := by
  unfold registered
  rw [read_bind_apply]
  cases g.lookup? name <;> exact .refl

/-- The union of types that stand in the order of members and are not unions. -/
def unite (ids : List TypeId) : Build δ TypeId := do
  match ids with
  | [] => return .never
  | [id] => return id
  | ids =>
    let label ← read (·.unionLabel ids)
    emit (.unionFormed ids.length label)
    place ⟨label, .union ids⟩

/-- A union of at least two members is placed under a label of its own. -/
theorem unite_cons_cons (a b : TypeId) (rest : List TypeId) (g : Graph δ) :
    unite (a :: b :: rest) g =
      let placed := place ⟨g.unionLabel (a :: b :: rest), .union (a :: b :: rest)⟩ g
      ⟨placed.result, placed.graph,
        .unionFormed (rest.length + 2) (g.unionLabel (a :: b :: rest)) :: placed.events⟩ := rfl

theorem grows_unite {ids : List TypeId} {g : Graph δ} (hord : g.Ordered ids)
    (hleaf : ∀ m ∈ ids, g.IsLeaf m) : Grows g (unite ids g).graph := by
  rcases ids with _ | ⟨a, _ | ⟨b, rest⟩⟩
  · exact .refl
  · exact .refl
  · rw [unite_cons_cons]
    refine grows_place ?_
    exact ⟨by simp, rfl, hord, hleaf⟩

variable [Deferral δ]

/-- The outcome of making an array. -/
theorem array_apply (item : Edge δ) (g : Graph δ) :
    array item g =
      place ⟨g.display (g.resolve item) ++ "[]", .array (some (g.resolve item))⟩ g := rfl

theorem grows_array (item : Edge δ) (g : Graph δ) : Grows g (array item g).graph :=
  grows_place rfl

/-- The outcome of forming a union, in terms of the types that are collected. -/
theorem union_apply (members : List (Edge δ)) (g : Graph δ) :
    union members g =
      match gather g.leaves? (members.map g.resolve) with
      | none => ⟨.error .dangling, g, []⟩
      | some leaves => unite (g.canonical leaves) g := by
  unfold union
  rw [read_bind_apply]
  cases gather g.leaves? (members.map g.resolve) <;> rfl

theorem grows_union (members : List (Edge δ)) (g : Graph δ) : Grows g (union members g).graph := by
  rw [union_apply]
  cases hleaves : gather g.leaves? (members.map g.resolve) with
  | none => exact .refl
  | some leaves =>
    refine grows_unite (g.ordered_canonical leaves) fun m hm => ?_
    obtain ⟨a, -, l, hl, hml⟩ := (mem_gather hleaves m).1 (Graph.mem_canonical.1 hm)
    exact Graph.isLeaf_of_mem_leavesWithin hl hml

theorem grows_discriminated (name key : String) (members : List (Edge δ)) (g : Graph δ) :
    Grows g (discriminated name key members g).graph := by
  unfold discriminated
  rw [read_bind_apply]
  rcases g.variants name key members with (cause | _) | variants
  · exact .refl
  · exact .refl
  · exact grows_bind .refl fun _ _ => grows_place rfl

theorem grows_modifierProperties (target : TypeId) (g : Graph δ) :
    Grows g (modifierProperties target g).graph := by
  unfold modifierProperties
  split_ifs
  · exact grows_bind (grows_array _ g) fun _ _ => .refl
  · exact .refl

theorem grows_modifier (target : TypeId) (g : Graph δ) : Grows g (modifier target g).graph := by
  refine grows_bind (grows_modifierProperties target g) fun properties _ => ?_
  exact grows_bind .refl fun name _ => grows_bind .refl fun _ _ => grows_named _ _ _ _ _

theorem grows_resourceProperties (reference : Reference) (g : Graph δ) :
    Grows g (resourceProperties reference g).graph := by
  refine grows_bind (grows_literal _ g) fun type _ => ?_
  refine grows_bind (grows_literal _ _) fun version _ => ?_
  refine grows_bind (grows_array _ _) fun strings _ => ?_
  exact grows_bind (grows_array _ _) fun resources _ => .refl

theorem grows_resource (reference : Reference) (g : Graph δ) :
    Grows g (resource reference g).graph := by
  refine grows_bind (grows_resourceProperties reference g) fun properties _ => ?_
  exact grows_bind .refl fun _ _ => grows_named _ _ _ _ _

end Build

/-! ### Operations -/

variable [Deferral δ]

/-- Making a type grows the graph. -/
theorem Construction.grows_build (c : Construction (Edge δ)) (g : Graph δ) :
    Grows g (c.build g).graph := by
  cases c with
  | literal value => exact Build.grows_literal value g
  | array item => exact Build.grows_array item g
  | object ps additional => exact Build.grows_object ps additional g
  | named name ps additional flags => exact Build.grows_named name ps additional flags g
  | union members => exact Build.grows_union members g
  | discriminated name key members => exact Build.grows_discriminated name key members g
  | modifier target => exact Build.grows_modifier (g.resolve target) g
  | resource text =>
    simp only [build]
    cases Reference.parse text with
    | ok reference => exact Build.grows_resource reference g
    | error cause => exact .refl

/-- The operation declares or defines an object. -/
def Operation.isTwoStep {ρ τ : Type} : Operation ρ τ → Bool
  | declare _ => true
  | define _ _ _ _ => true
  | _ => false

/-- An operation that neither declares nor defines an object is a sequence of changes that do
neither. -/
theorem Operation.run_growth {op : Operation (Edge δ) TypeId} (h : op.isTwoStep = false)
    (g : Graph δ) : Grows g (op.run g).graph := by
  cases op with
  | make construction => exact Build.grows_bind (construction.grows_build g) fun _ _ => .refl
  | declare name => cases h
  | define token ps additional flags => cases h
  | register name type => exact .single (.register name (g.resolve type))
  | registered name => exact Build.grows_bind (Build.grows_registered name g) fun _ _ => .refl
  | variants name key members =>
    refine Build.grows_bind .refl fun result _ => ?_
    cases result with
    | ok variants => exact .refl
    | error failure => exact .refl
  | modifierProperties target =>
    refine Build.grows_bind .refl fun id _ => ?_
    exact Build.grows_bind (Build.grows_modifierProperties id g) fun _ _ => .refl
  | resourceProperties text =>
    simp only [run]
    cases Reference.parse text with
    | ok reference =>
      exact Build.grows_bind (Build.grows_resourceProperties reference g) fun _ _ => .refl
    | error cause => exact .refl
  | same a b => exact .refl
  | edge type => exact .refl
  | inspect type question =>
    refine Build.grows_bind .refl fun result _ => ?_
    cases result with
    | ok answer => exact .refl
    | error failure => exact .refl
  | query question => exact .refl

/-- A declaration takes the next free id and answers with it. -/
theorem Operation.run_declare (name : String) (g : Graph δ) :
    (Operation.declare name : Operation (Edge δ) TypeId).run g =
      ⟨.ok (.made ⟨g.size⟩ name (some .object)), g.declare name,
        [.typeAdded ⟨g.size⟩ name .object]⟩ := by
  have hslot : (g.declare name).slot? ⟨g.size⟩ = some ⟨name, .named name .empty⟩ :=
    g.slot?_push_size _
  show Outcome.mk (.ok (Answer.made ⟨g.size⟩ ((g.declare name).display ⟨g.size⟩)
    ((g.declare name).kind? ⟨g.size⟩))) (g.declare name) [.typeAdded ⟨g.size⟩ name .object] = _
  simp [Graph.display, Graph.kind?, Graph.node?, hslot, Node.kind]

/-- A pending object that is there is defined. -/
theorem Operation.run_define_of_pending {id : TypeId} {g : Graph δ} (h : id ∈ g.pending)
    (hid : id.index < g.size) (ps : List (Property (Edge δ))) (additional : Option (Edge δ))
    (flags : Flags) :
    ∃ answer, (Operation.define id ps additional flags : Operation (Edge δ) TypeId).run g =
      ⟨.ok answer, g.define id (.ofProperties ps additional flags), []⟩ ∧ answer.id? = some id := by
  have hdefine := Build.define_of_pending h ps additional flags
  rw [if_pos hid] at hdefine
  rw [run, Build.bind_apply_ok hdefine]
  exact ⟨_, rfl, rfl⟩

/-- The graph after the definition of a pending object, which is the same if the object is not
there. -/
theorem Operation.graph_run_define {id : TypeId} {g : Graph δ} (h : id ∈ g.pending)
    (ps : List (Property (Edge δ))) (additional : Option (Edge δ)) (flags : Flags) :
    ((Operation.define id ps additional flags : Operation (Edge δ) TypeId).run g).graph =
      g.define id (.ofProperties ps additional flags) := by
  have hdefine := Build.define_of_pending h ps additional flags
  split_ifs at hdefine with hid
  · rw [run, Build.bind_apply_ok hdefine]
    rfl
  · rw [run, Build.bind_apply_error hdefine]

/-- An object that is not pending is not defined, and nothing changes. -/
theorem Operation.run_define_of_not_pending {id : TypeId} {g : Graph δ} (h : id ∉ g.pending)
    (ps : List (Property (Edge δ))) (additional : Option (Edge δ)) (flags : Flags) :
    (Operation.define id ps additional flags : Operation (Edge δ) TypeId).run g =
      ⟨.error (.refused (.notAwaitingDefinition id)), g, []⟩ := by
  rw [run, Build.bind_apply_error (Build.define_of_not_pending h ps additional flags)]

end TypeGraph
