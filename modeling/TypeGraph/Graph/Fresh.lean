import TypeGraph.Graph.Build

/-!
# The fresh graph

Every graph starts with eleven types: those that declarations know by name, the union of no types,
and the two objects that parameter modifiers and resources refer to.
-/

namespace TypeGraph

variable {δ : Type}

/-- Make the eleven types, in the order of their ids, and name eight of them. -/
def Build.foundation : Build δ Unit := do
  let any ← place ⟨"any", .any⟩
  let string ← place ⟨"string", .primitive .string⟩
  let object ← place ⟨"object", .object ⟨[], some (.direct any), .none⟩⟩
  let int ← place ⟨"int", .primitive .int⟩
  let bool ← place ⟨"bool", .primitive .bool⟩
  let array ← place ⟨"array", .array none⟩
  let null ← place ⟨"null", .primitive .null⟩
  let resource ← place ⟨"resource", .resource⟩
  let _ ← place ⟨"never", .union []⟩
  let _ ← place ⟨"ParameterModifierMetadata", .named "ParameterModifierMetadata"
    ⟨[⟨"description", .direct string, .constant⟩], some (.direct any), .constant⟩⟩
  let _ ← place ⟨"Tags", .named "Tags" ⟨[], some (.direct string), .none⟩⟩
  change fun g =>
    { g with
      builtins :=
        [("any", any), ("string", string), ("object", object), ("int", int), ("bool", bool),
         ("array", array), ("null", null), ("resource", resource)] }

/-- How the making of a fresh graph ends. -/
def Graph.freshOutcome : Outcome δ Unit := Build.foundation .empty

/-- The graph that holds the eleven types that every graph holds. -/
def Graph.fresh : Graph δ := Graph.freshOutcome.graph

/-- What happens while a fresh graph is made. -/
def Graph.freshEvents : List Event := (Graph.freshOutcome : Outcome Empty Unit).events

end TypeGraph
