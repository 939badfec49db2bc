import TypeGraph.Graph

/-!
# Rules for deferred edges

The rules that sessions use: a type that is known from the start, the type that is registered under
a name when the edge is followed, and the type that was made last by then.
-/

namespace TypeGraph

/-- A rule for finding a type late. -/
inductive Recipe where
  | fixed (id : TypeId)
  /-- The type registered under a name, or else what another rule finds. -/
  | named (name : String) (otherwise : Recipe)
  /-- The type that was made last. -/
  | newest

/-- The type that a rule leads to in a graph. -/
def Recipe.target (g : Graph Recipe) : Recipe → TypeId
  | fixed id => id
  | named name otherwise => (g.lookup? name).getD (otherwise.target g)
  | newest => g.newest

instance : Deferral Recipe := ⟨Recipe.target⟩

end TypeGraph
