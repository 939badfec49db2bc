import TypeGraph.Graph.Fresh
import TypeGraph.Proofs.Growth

/-!
# Runs

A run starts with the fresh graph and carries out operations one after the other, failing ones
included. It keeps a log of the operations and their results, from which the history of the graph
can be read: `Run.declared` are the objects that were declared, whether they are defined by now or
not.

* `Graph.fresh_eq`: the fresh graph, slot by slot.
* `Run.perform_forms`, `Run.perform_cases`: what one operation does to the graph and to the declared
  objects.
* `Run.after_induction`: a property of the two that single changes preserve holds after every run.
-/

namespace TypeGraph

variable {δ : Type}

/-! ### The fresh graph -/

private theorem graph_place_bind {α : Type} {slot : Slot δ} {g : Graph δ} {f : TypeId → Build δ α}
    (key : Node TypeId) (h : slot.node.direct? = some key) (unknown : g.shared.lookup key = none) :
    ((Build.place slot >>= f) g).graph = (f ⟨g.size⟩ (g.share key slot)).graph := by
  rw [Build.bind_apply_ok (Build.place_of_new h unknown)]
  rfl

namespace Graph

/-- The slots of the fresh graph. -/
def foundationSlots : Array (Slot δ) :=
  #[⟨"any", .any⟩, ⟨"string", .primitive .string⟩,
    ⟨"object", .object ⟨[], some (.direct .any), .none⟩⟩, ⟨"int", .primitive .int⟩,
    ⟨"bool", .primitive .bool⟩, ⟨"array", .array none⟩, ⟨"null", .primitive .null⟩,
    ⟨"resource", .resource⟩, ⟨"never", .union []⟩,
    ⟨"ParameterModifierMetadata", .named "ParameterModifierMetadata"
      ⟨[⟨"description", .direct .string, .constant⟩], some (.direct .any), .constant⟩⟩,
    ⟨"Tags", .named "Tags" ⟨[], some (.direct .string), .none⟩⟩]

/-- The table of the fresh graph. -/
def foundationTable : List (Node TypeId × TypeId) :=
  [(.named "Tags" ⟨[], some .string, .none⟩, .tags),
   (.named "ParameterModifierMetadata"
     ⟨[⟨"description", .string, .constant⟩], some .any, .constant⟩, .modifierMetadata),
   (.union [], .never), (.resource, .resource), (.primitive .null, .null), (.array none, .array),
   (.primitive .bool, .bool), (.primitive .int, .int), (.object ⟨[], some .any, .none⟩, .object),
   (.primitive .string, .string), (.any, .any)]

/-- The fresh graph: eleven slots, the table that leads to them, and eight names. -/
theorem fresh_eq : (Graph.fresh : Graph δ) =
    { slots := foundationSlots
      shared := foundationTable
      pending := []
      builtins :=
        [("any", .any), ("string", .string), ("object", .object), ("int", .int), ("bool", .bool),
         ("array", .array), ("null", .null), ("resource", .resource)]
      names := [] } := by
  unfold Graph.fresh Graph.freshOutcome Build.foundation
  -- each type is new when its turn comes, so that it takes the next slot
  rw [graph_place_bind .any rfl rfl, graph_place_bind (.primitive .string) rfl rfl,
    graph_place_bind (.object ⟨[], some .any, .none⟩) rfl rfl,
    graph_place_bind (.primitive .int) rfl rfl, graph_place_bind (.primitive .bool) rfl rfl,
    graph_place_bind (.array none) rfl rfl, graph_place_bind (.primitive .null) rfl rfl,
    graph_place_bind .resource rfl rfl, graph_place_bind (.union []) rfl rfl,
    graph_place_bind (.named "ParameterModifierMetadata"
      ⟨[⟨"description", .string, .constant⟩], some .any, .constant⟩) rfl rfl,
    graph_place_bind (.named "Tags" ⟨[], some .string, .none⟩) rfl rfl]
  rfl

theorem size_fresh : (Graph.fresh : Graph δ).size = 11 := by
  rw [fresh_eq]
  rfl

theorem shared_fresh : (Graph.fresh : Graph δ).shared = foundationTable := by
  rw [fresh_eq]

end Graph

/-! ### Runs -/

/-- A graph together with the operations that were carried out on it. -/
structure Run (δ : Type) where
  graph : Graph δ
  /-- The operations and their results, the latest first. -/
  log : List (Operation (Edge δ) TypeId × Except Failure Answer)

namespace Run

/-- The run in which nothing has happened yet. -/
def start : Run δ := ⟨.fresh, []⟩

/-- The run goes on with something that is built on the side and not logged. -/
def build {α : Type} (r : Run δ) (x : Build δ α) : Run δ := { r with graph := (x r.graph).graph }

/-- The object that an operation declared, if it declared one. -/
def declaredBy : Operation (Edge δ) TypeId × Except Failure Answer → Option TypeId
  | (.declare _, .ok answer) => answer.id?
  | _ => none

/-- The objects that were declared, the latest first. -/
def declared (r : Run δ) : List TypeId := r.log.filterMap declaredBy

@[simp] theorem graph_start : (start : Run δ).graph = .fresh := by simp only [start]

@[simp] theorem declared_start : (start : Run δ).declared = [] := by
  simp only [start, declared, List.filterMap_nil]

@[simp] theorem declared_build {α : Type} (r : Run δ) (x : Build δ α) :
    (r.build x).declared = r.declared := rfl

variable [Deferral δ]

/-- The run goes on with one operation, which may fail. -/
def perform (r : Run δ) (op : Operation (Edge δ) TypeId) : Run δ :=
  ⟨(op.run r.graph).graph, (op, (op.run r.graph).result) :: r.log⟩

/-- The run goes on with some operations. -/
def after (r : Run δ) (ops : List (Operation (Edge δ) TypeId)) : Run δ := ops.foldl perform r

@[simp] theorem after_nil (r : Run δ) : r.after [] = r := rfl

@[simp] theorem after_cons (r : Run δ) (op : Operation (Edge δ) TypeId)
    (ops : List (Operation (Edge δ) TypeId)) : r.after (op :: ops) = (r.perform op).after ops := rfl

theorem after_concat (r : Run δ) (ops : List (Operation (Edge δ) TypeId))
    (op : Operation (Edge δ) TypeId) : r.after (ops ++ [op]) = (r.after ops).perform op := by
  simp [after]

theorem graph_perform_declare (r : Run δ) (name : String) :
    (r.perform (.declare name)).graph = r.graph.declare name := by
  rw [perform, Operation.run_declare]

theorem declared_perform_declare (r : Run δ) (name : String) :
    (r.perform (.declare name)).declared = ⟨r.graph.size⟩ :: r.declared := by
  simp only [perform, declared, Operation.run_declare]
  rfl

theorem graph_perform_make (r : Run δ) (c : Construction (Edge δ)) :
    (r.perform (.make c)).graph = (c.build r.graph).graph := by
  show ((c.build >>= Answer.ofMade) r.graph).graph = _
  cases h : c.build r.graph with
  | mk result g events =>
    cases result with
    | error failure => rw [Build.bind_apply_error h]
    | ok id =>
      rw [Build.bind_apply_ok h]
      rfl

theorem graph_perform_define (r : Run δ) {id : TypeId} (hid : id ∈ r.graph.pending)
    (ps : List (Property (Edge δ))) (additional : Option (Edge δ)) (flags : Flags) :
    (r.perform (.define id ps additional flags)).graph =
      r.graph.define id (.ofProperties ps additional flags) :=
  Operation.graph_run_define hid ps additional flags

/-- An operation declares an object, which takes the next free id, or it defines a pending object,
or it does neither: it is of another kind, or nothing changes. -/
theorem perform_forms (r : Run δ) (op : Operation (Edge δ) TypeId) :
    (∃ name, op = .declare name ∧ (r.perform op).graph = r.graph.declare name ∧
      (r.perform op).declared = ⟨r.graph.size⟩ :: r.declared) ∨
    (∃ id ps additional flags, op = .define id ps additional flags ∧ id ∈ r.graph.pending ∧
      (r.perform op).graph = r.graph.define id (.ofProperties ps additional flags) ∧
      (r.perform op).declared = r.declared) ∨
    ((op.isTwoStep = false ∨ (r.perform op).graph = r.graph) ∧
      (r.perform op).declared = r.declared) := by
  cases hop : op.isTwoStep with
  | true =>
    cases op with
    | declare name =>
      exact .inl ⟨name, rfl, r.graph_perform_declare name, r.declared_perform_declare name⟩
    | define id ps additional flags =>
      right
      by_cases hid : id ∈ r.graph.pending
      · left
        exact ⟨id, ps, additional, flags, rfl, hid, r.graph_perform_define hid ps additional flags,
          rfl⟩
      · right
        refine ⟨.inr ?_, rfl⟩
        rw [perform, Operation.run_define_of_not_pending hid]
    | _ => cases hop
  | false =>
    refine .inr (.inr ⟨.inl rfl, ?_⟩)
    cases op with
    | declare name => cases hop
    | _ => rfl

/-- The same in terms of the changes that the graph undergoes. -/
theorem perform_cases (r : Run δ) (op : Operation (Edge δ) TypeId) :
    (∃ name, (r.perform op).graph = r.graph.declare name ∧
      (r.perform op).declared = ⟨r.graph.size⟩ :: r.declared) ∨
    (∃ id ∈ r.graph.pending, ∃ body, (r.perform op).graph = r.graph.define id body ∧
      (r.perform op).declared = r.declared) ∨
    (Grows r.graph (r.perform op).graph ∧ (r.perform op).declared = r.declared) := by
  rcases r.perform_forms op with ⟨name, -, hgraph, hdeclared⟩ |
    ⟨id, ps, additional, flags, -, hid, hgraph, hdeclared⟩ | ⟨hop, hdeclared⟩
  · exact .inl ⟨name, hgraph, hdeclared⟩
  · exact .inr (.inl ⟨id, hid, _, hgraph, hdeclared⟩)
  · refine .inr (.inr ⟨?_, hdeclared⟩)
    rcases hop with hop | hsame
    · exact Operation.run_growth hop r.graph
    · rw [hsame]

/-- A property of the declared objects and the graph that every single change preserves is
preserved by every run. -/
theorem after_induction {P : List TypeId → Graph δ → Prop}
    (grow : ∀ {declared g g'}, P declared g → Growth g g' → P declared g')
    (declare : ∀ {declared g} (name : String), P declared g →
      P (⟨g.size⟩ :: declared) (g.declare name))
    (define : ∀ {declared g id} (body : Body (Edge δ)), P declared g → id ∈ g.pending →
      P declared (g.define id body))
    {r : Run δ} (h : P r.declared r.graph) (ops : List (Operation (Edge δ) TypeId)) :
    P (r.after ops).declared (r.after ops).graph := by
  induction ops generalizing r with
  | nil => exact h
  | cons op ops ih =>
    rw [after_cons]
    apply ih
    rcases r.perform_cases op with ⟨name, hgraph, hdeclared⟩ |
      ⟨id, hid, body, hgraph, hdeclared⟩ | ⟨hgrows, hdeclared⟩
    · rw [hgraph, hdeclared]
      exact declare name h
    · rw [hgraph, hdeclared]
      exact define body h hid
    · rw [hdeclared]
      exact Grows.preserves grow hgrows h

/-- A declared object is one for the rest of the run. -/
theorem mem_declared_after {r : Run δ} {id : TypeId} (h : id ∈ r.declared)
    (ops : List (Operation (Edge δ) TypeId)) : id ∈ (r.after ops).declared :=
  after_induction (P := fun declared _ => id ∈ declared) (fun hid _ => hid)
    (fun _ hid => List.mem_cons_of_mem _ hid) (fun _ hid _ => hid) h ops

end Run

end TypeGraph
