import TypeGraph.Graph.Build

/-!
# Unions

The union of some types has one form: nested unions are opened, repetitions dropped, and the members
put in order of their labels, with ids to tell equal labels apart. The union of no types is `never`
and that of one type is the type itself.
-/

namespace TypeGraph

/-- The concatenation of the lists that `f` gives, if it gives one for every element. -/
def gather {α β : Type} (f : α → Option (List β)) : List α → Option (List β)
  | [] => some []
  | a :: as =>
    match f a, gather f as with
    | some bs, some rest => some (bs ++ rest)
    | _, _ => none

namespace Graph

variable {δ : Type}

/-- The members of a union; any other type is its own only member. -/
def members? (g : Graph δ) (id : TypeId) : Option (List TypeId) :=
  (g.node? id).map fun node => node.members?.getD [id]

/-- The types in a union, unions in it opened down to the given depth. -/
def leavesWithin (g : Graph δ) : Nat → TypeId → Option (List TypeId)
  | 0, _ => none
  | depth + 1, id =>
    match g.node? id with
    | none => none
    | some (.union members) => gather (leavesWithin g depth) members
    | some _ => some [id]

/-- The types in a union, unions in it opened. The members of a union are older than it is, so that
its own id bounds the depth. -/
def leaves? (g : Graph δ) (id : TypeId) : Option (List TypeId) := g.leavesWithin (id.index + 1) id

/-- The order of members in a union: by label, then by id. -/
def precedes (g : Graph δ) (a b : TypeId) : Bool :=
  g.display a < g.display b || (g.display a == g.display b && a.index < b.index)

/-- Put a member into its place in a list that is in order, unless it is there. -/
def insertMember (g : Graph δ) (id : TypeId) : List TypeId → List TypeId
  | [] => [id]
  | m :: ms =>
    if id = m then m :: ms
    else if g.precedes id m then id :: m :: ms
    else m :: g.insertMember id ms

/-- The given types in order and without repetition. -/
def canonical (g : Graph δ) (ids : List TypeId) : List TypeId := ids.foldr g.insertMember []

/-- The label of a union with the given members. -/
def unionLabel (g : Graph δ) (members : List TypeId) : String :=
  Vocabulary.unionSeparator.intercalate (members.map g.display)

end Graph

namespace Build

variable {δ : Type}

/-- The union of the given types. -/
def union [Deferral δ] (members : List (Edge δ)) : Build δ TypeId := do
  let leaves ← follow (← read fun g => gather g.leaves? (members.map g.resolve))
  match ← read (·.canonical leaves) with
  | [] => return .never
  | [id] => return id
  | ids =>
    let label ← read (·.unionLabel ids)
    emit (.unionFormed ids.length label)
    place ⟨label, .union ids⟩

end Build

end TypeGraph
