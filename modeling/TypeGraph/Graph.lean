import TypeGraph.Node
import TypeGraph.Text.Quoted
import TypeGraph.Vocabulary

/-!
# Graphs of types

A graph holds types in slots that are numbered in the order of their making. A slot keeps its number
and its label for good. Types whose edges are all direct are shared: the table `shared` leads from
such a type to its slot, so that asking for it again gives the same id. A declared object has a slot
before it has a definition; it is `pending` until then.

The rules of deferred edges are a parameter `δ` of the graph, and `Deferral δ` says how a rule finds
its target. Everything about graphs holds for every choice of rules.
-/

namespace TypeGraph

/-- A type together with the label under which it is shown, which is fixed when the slot is made. -/
structure Slot (δ : Type) where
  label : String
  node : Node (Edge δ)

/-- A growing collection of types. -/
structure Graph (δ : Type) where
  /-- The types, by id. -/
  slots : Array (Slot δ)
  /-- The ids of shared types, the latest first. -/
  shared : List (Node TypeId × TypeId)
  /-- The declared objects that lack a definition, the latest first. -/
  pending : List TypeId
  /-- The types that declarations know by name, in the order of their ids. -/
  builtins : List (String × TypeId)
  /-- The types registered under a name; the first entry for a name counts. -/
  names : List (String × TypeId)

/-- The rules of type `δ` find targets in graphs. -/
class Deferral (δ : Type) where
  /-- The type that a rule leads to in the present state of the graph. -/
  target : Graph δ → δ → TypeId

namespace Graph

variable {δ : Type}

/-- The graph that holds nothing. -/
def empty : Graph δ := ⟨#[], [], [], [], []⟩

/-- The number of types. -/
def size (g : Graph δ) : Nat := g.slots.size

/-- The slot with the given id. -/
def slot? (g : Graph δ) (id : TypeId) : Option (Slot δ) := g.slots[id.index]?

/-- The type with the given id. -/
def node? (g : Graph δ) (id : TypeId) : Option (Node (Edge δ)) := (g.slot? id).map (·.node)

/-- The class of the type with the given id. -/
def kind? (g : Graph δ) (id : TypeId) : Option Kind := (g.node? id).map (·.kind)

/-- The label of the type with the given id; an id without a type is shown as invalid. -/
def display (g : Graph δ) (id : TypeId) : String :=
  match g.slot? id with
  | some slot => slot.label
  | none => "InvalidType(" ++ toString id.index ++ ")"

/-- The target of an edge in the present state of the graph. -/
def resolve [Deferral δ] (g : Graph δ) : Edge δ → TypeId
  | .direct target => target
  | .deferred rule => Deferral.target g rule

/-- The last id that was given out. -/
def newest (g : Graph δ) : TypeId := ⟨g.size - 1⟩

/-- The type registered under a name. -/
def lookup? (g : Graph δ) (name : String) : Option TypeId := g.names.lookup name

/-- The type that every graph holds under a name. -/
def builtin? (g : Graph δ) (name : String) : Option TypeId := g.builtins.lookup name

/-- The type that a declaration may name. -/
def declaration? (g : Graph δ) (name : String) : Option TypeId :=
  if name ∈ Vocabulary.declarationTypeNames then g.builtin? name else none

/-- The types that a declaration may name, in the order of their names. -/
def declarations (g : Graph δ) : List (String × TypeId) :=
  Vocabulary.declarationTypeNames.filterMap fun name => (g.builtin? name).map (name, ·)

end Graph

end TypeGraph
