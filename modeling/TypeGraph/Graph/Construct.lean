import TypeGraph.Graph.Build

/-!
# Making types

String literals, arrays and objects, the two steps of declaring an object and defining it later, and
the register of names.
-/

namespace TypeGraph.Build

variable {δ : Type}

/-- The string with the given value. -/
def literal (value : String) : Build δ TypeId := place ⟨Text.quoted value, .literal value⟩

/-- The array of items of one type, named after it. -/
def array [Deferral δ] (item : Edge δ) : Build δ TypeId := do
  let target ← read (·.resolve item)
  let label ← read (·.display target)
  place ⟨label ++ "[]", .array (some target)⟩

/-- An object known by its body alone. -/
def object (properties : List (Property (Edge δ))) (additional : Option (Edge δ)) :
    Build δ TypeId :=
  place ⟨"object", .object (.ofProperties properties additional .none)⟩

/-- An object known by its name and its body. -/
def named (name : String) (properties : List (Property (Edge δ))) (additional : Option (Edge δ))
    (additionalFlags : Flags) : Build δ TypeId :=
  place ⟨name, .named name (.ofProperties properties additional additionalFlags)⟩

/-- A named object that awaits its definition. It is never shared. -/
def declare (name : String) : Build δ TypeId := do
  let id ← add ⟨name, .named name .empty⟩
  change fun g => { g with pending := id :: g.pending }
  return id

/-- Define a declared object. It keeps its id and its label. -/
def define (id : TypeId) (properties : List (Property (Edge δ))) (additional : Option (Edge δ))
    (additionalFlags : Flags) : Build δ TypeId := do
  if id ∈ (← read (·.pending)) then
    change fun g => { g with pending := g.pending.filter (· ≠ id) }
    let slot ← follow (← read (·.slot? id))
    change fun g =>
      { g with
        slots := g.slots.setIfInBounds id.index
          ⟨slot.label, .named slot.label (.ofProperties properties additional additionalFlags)⟩ }
    return id
  else
    refuse (.notAwaitingDefinition id)

/-- Register a type under a name, in the place of the one registered before. -/
def register (name : String) (id : TypeId) : Build δ Unit :=
  change fun g => { g with names := (name, id) :: g.names }

/-- The type registered under a name. -/
def registered (name : String) : Build δ TypeId := do
  match ← read (·.lookup? name) with
  | some id => return id
  | none => refuse (.undefinedName name)

end TypeGraph.Build
