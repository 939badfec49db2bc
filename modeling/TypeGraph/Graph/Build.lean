import TypeGraph.Event
import TypeGraph.Graph

/-!
# Building

A `Build δ α` reads and changes a graph, records events, and ends with a value of type `α` or a
failure. A failure keeps the graph and the events as they stand where it happens.

* `Build.add` puts a type into a slot of its own.
* `Build.place` gives a shared type the slot that it already has, if it has one.
-/

namespace TypeGraph

/-- Why a build stops. -/
inductive Failure where
  /-- The operation is refused. -/
  | refused (cause : Refusal)
  /-- An id that leads to no slot was followed. -/
  | dangling
  deriving DecidableEq

/-- How a build ends. -/
structure Outcome (δ α : Type) where
  result : Except Failure α
  graph : Graph δ
  events : List Event

/-- A computation that works on a graph. -/
def Build (δ α : Type) : Type := Graph δ → Outcome δ α

namespace Build

variable {δ α β : Type}

/-- Do nothing and end with a value. -/
def pure (a : α) : Build δ α := fun g => ⟨.ok a, g, []⟩

/-- Go on with the value of a build, unless it failed. -/
def bind (x : Build δ α) (f : α → Build δ β) : Build δ β := fun g =>
  match x g with
  | ⟨.ok a, g', events⟩ =>
    let rest := f a g'
    ⟨rest.result, rest.graph, events ++ rest.events⟩
  | ⟨.error failure, g', events⟩ => ⟨.error failure, g', events⟩

instance : Monad (Build δ) where
  pure := pure
  bind := bind

@[simp] theorem pure_apply (a : α) (g : Graph δ) :
    (Pure.pure a : Build δ α) g = ⟨.ok a, g, []⟩ := rfl

theorem bind_apply_ok {x : Build δ α} {f : α → Build δ β} {g g' : Graph δ} {a : α}
    {events : List Event} (h : x g = ⟨.ok a, g', events⟩) :
    (x >>= f) g = ⟨(f a g').result, (f a g').graph, events ++ (f a g').events⟩ := by
  show bind x f g = _
  simp [bind, h]

theorem bind_apply_error {x : Build δ α} {f : α → Build δ β} {g g' : Graph δ} {failure : Failure}
    {events : List Event} (h : x g = ⟨.error failure, g', events⟩) :
    (x >>= f) g = ⟨.error failure, g', events⟩ := by
  show bind x f g = _
  simp [bind, h]

instance : LawfulMonad (Build δ) :=
  LawfulMonad.mk' (Build δ)
    (fun x => by
      funext g
      show bind x pure g = x g
      unfold bind
      split <;> simp_all [pure])
    (fun a f => by
      funext g
      show bind (pure a) f g = f a g
      simp [bind, pure])
    (fun x f h => by
      funext g
      show bind (bind x f) h g = bind x (fun a => bind (f a) h) g
      unfold bind
      cases x g with
      | mk result g' events =>
        cases result with
        | error failure => rfl
        | ok a =>
          simp only
          cases f a g' with
          | mk result g'' events' =>
            cases result <;> simp [List.append_assoc])

/-- Stop. -/
def fail (failure : Failure) : Build δ α := fun g => ⟨.error failure, g, []⟩

/-- Stop with a refusal. -/
def refuse (cause : Refusal) : Build δ α := fail (.refused cause)

/-- A value read off the graph. -/
def read (f : Graph δ → α) : Build δ α := fun g => ⟨.ok (f g), g, []⟩

/-- Change the graph. -/
def change (f : Graph δ → Graph δ) : Build δ Unit := fun g => ⟨.ok (), f g, []⟩

/-- Record an event. -/
def emit (event : Event) : Build δ Unit := fun g => ⟨.ok (), g, [event]⟩

/-- A value, or a dangling id. -/
def follow : Option α → Build δ α
  | some a => pure a
  | none => fail .dangling

/-- End with a result that was read off the graph. -/
def ofExcept : Except Failure α → Build δ α
  | .ok a => pure a
  | .error failure => fail failure

/-- Put a type into a new slot. -/
def add (slot : Slot δ) : Build δ TypeId := fun g =>
  ⟨.ok ⟨g.size⟩, { g with slots := g.slots.push slot },
    [.typeAdded ⟨g.size⟩ slot.label slot.node.kind]⟩

/-- The slot of a type: the one that it has if it is shared and known, and a new one otherwise. -/
def place (slot : Slot δ) : Build δ TypeId :=
  match slot.node.direct? with
  | none => add slot
  | some key => do
    match ← read (·.shared.lookup key) with
    | some id => return id
    | none =>
      let id ← add slot
      change fun g => { g with shared := (key, id) :: g.shared }
      return id

/-- A type that is not shared takes the next free id and leaves the table alone. -/
theorem place_of_unshared {slot : Slot δ} (h : slot.node.direct? = none) :
    place slot = add slot := by
  simp [place, h]

/-- A shared type that is known keeps its id, and nothing changes. -/
theorem place_of_known {slot : Slot δ} {g : Graph δ} {key : Node TypeId} {id : TypeId}
    (h : slot.node.direct? = some key) (known : g.shared.lookup key = some id) :
    place slot g = ⟨.ok id, g, []⟩ := by
  have lookup : read (·.shared.lookup key) g = ⟨.ok (some id), g, []⟩ := by simp [read, known]
  simp only [place, h]
  rw [bind_apply_ok lookup]
  rfl

/-- A shared type that is not known takes the next free id and enters the table. -/
theorem place_of_new {slot : Slot δ} {g : Graph δ} {key : Node TypeId}
    (h : slot.node.direct? = some key) (unknown : g.shared.lookup key = none) :
    place slot g =
      ⟨.ok ⟨g.size⟩,
        { g with slots := g.slots.push slot, shared := (key, ⟨g.size⟩) :: g.shared },
        [.typeAdded ⟨g.size⟩ slot.label slot.node.kind]⟩ := by
  have lookup : read (·.shared.lookup key) g = ⟨.ok none, g, []⟩ := by simp [read, unknown]
  simp only [place, h]
  rw [bind_apply_ok lookup]
  rfl

end Build

end TypeGraph
