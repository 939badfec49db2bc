import TypeGraph.Proofs.SessionStep
import TypeGraph.Proofs.Stability

/-!
# The life of a declared object

A declared object is pending until it is defined. The history of a graph tells, as a list of
`Milestone`s, which objects were declared in it and which were defined; a copy has the history of
the graph that it was copied from.

* `Graph.Lifecycle`: the pending objects of a graph are in step with a history, and a definition
  succeeds exactly for them.
* `Graph.InStep`: the part of it that single changes preserve.
* `Session.exists_run`: every graph of a session is the end of a run with the same milestones, so
  that what holds after every run holds for all graphs of a session.
-/

namespace TypeGraph

variable {δ : Type}

/-- What became of a declared object. -/
inductive Milestone where
  | declared (id : TypeId) (name : String)
  | defined (id : TypeId)
  deriving DecidableEq

namespace Graph

/-- `g'` is `g` with the pending object at the id defined, and all else is as before. -/
structure Completes (g g' : Graph δ) (id : TypeId) (body : Body (Edge δ)) : Prop where
  pending : ∀ x, x ∈ g'.pending ↔ x ∈ g.pending ∧ x ≠ id
  /-- The object had no content, and it keeps its name. -/
  slot : ∃ name, g.slot? id = some ⟨name, .named name .empty⟩ ∧
    g'.slot? id = some ⟨name, .named name body⟩
  others : ∀ x, x ≠ id → g'.slot? x = g.slot? x
  size : g'.size = g.size
  shared : g'.shared = g.shared
  builtins : g'.builtins = g.builtins
  names : g'.names = g.names

/-- The pending objects of a graph are in step with the history, and a definition succeeds exactly
for them. -/
structure Lifecycle (g : Graph δ) (history : List Milestone) : Prop where
  /-- The pending objects are those that were declared and not defined. -/
  pending_iff : ∀ id,
    id ∈ g.pending ↔ (∃ name, .declared id name ∈ history) ∧ .defined id ∉ history
  /-- A pending object is there, without content and under the name that it was declared with. -/
  slot_of_pending : ∀ id ∈ g.pending, id.index < g.size ∧
    ∃ name, .declared id name ∈ history ∧ g.slot? id = some ⟨name, .named name .empty⟩
  /-- A pending object can be defined. -/
  define_of_pending : ∀ id ∈ g.pending, ∀ ps additional flags, ∃ g',
    Build.define id ps additional flags g = ⟨.ok id, g', []⟩ ∧
      g.Completes g' id (.ofProperties ps additional flags)
  /-- Any other definition is refused, and nothing changes. -/
  define_of_not_pending : ∀ id ∉ g.pending, ∀ ps additional flags,
    Build.define id ps additional flags g = ⟨.error (.refused (.notAwaitingDefinition id)), g, []⟩
  /-- No object is defined twice. -/
  defined_once : ∀ id, history.count (.defined id) ≤ 1

/-- A type with content keeps its slot: only objects without content are pending. -/
theorem Lifecycle.slot?_later {g g' : Graph δ} {history : List Milestone}
    (h : g.Lifecycle history) (hlater : g.Later g') {id : TypeId} {slot : Slot δ}
    (hslot : g.slot? id = some slot) (hcontent : ∀ name, slot.node ≠ .named name .empty) :
    g'.slot? id = some slot := by
  have hid : id ∉ g.pending := by
    intro hid
    obtain ⟨-, name, -, hempty⟩ := h.slot_of_pending id hid
    obtain rfl := Option.some.inj (hslot.symm.trans hempty)
    exact hcontent name rfl
  rw [(hlater.settled (index_lt_of_slot? hslot) hid).1, hslot]

/-- The invariant behind `Lifecycle`. -/
structure InStep (g : Graph δ) (history : List Milestone) : Prop where
  inRange : ∀ {id name}, .declared id name ∈ history → id.index < g.size
  of_defined : ∀ {id}, .defined id ∈ history → ∃ name, .declared id name ∈ history
  pending_iff : ∀ id,
    id ∈ g.pending ↔ (∃ name, .declared id name ∈ history) ∧ .defined id ∉ history
  slot : ∀ {id name}, .declared id name ∈ history → id ∈ g.pending →
    g.slot? id = some ⟨name, .named name .empty⟩
  nodup : history.Nodup

namespace InStep

variable {g g' : Graph δ} {history : List Milestone}

theorem fresh : (Graph.fresh : Graph δ).InStep [] := by
  have hpending : (Graph.fresh : Graph δ).pending = [] := by rw [fresh_eq]
  constructor <;> simp [hpending]

/-- The next free id has no history. -/
theorem not_declared_size (h : g.InStep history) (name : String) :
    .declared ⟨g.size⟩ name ∉ history :=
  fun hmem => lt_irrefl _ (h.inRange hmem)

theorem not_defined_size (h : g.InStep history) : .defined ⟨g.size⟩ ∉ history := by
  intro hmem
  obtain ⟨name, hname⟩ := h.of_defined hmem
  exact h.not_declared_size name hname

theorem grows (h : g.InStep history) (hgrows : Grows g g') : g'.InStep history where
  inRange hmem := lt_of_lt_of_le (h.inRange hmem) hgrows.size_le
  of_defined := h.of_defined
  pending_iff := by
    rw [hgrows.pending_eq]
    exact h.pending_iff
  slot {id name} hmem hid := by
    rw [hgrows.pending_eq] at hid
    rw [hgrows.slot?_eq (h.inRange hmem), h.slot hmem hid]
  nodup := h.nodup

theorem declare (h : g.InStep history) (name : String) :
    (g.declare name).InStep (.declared ⟨g.size⟩ name :: history) where
  inRange {id name'} hmem := by
    have hsize : (g.declare name).size = g.size + 1 := g.size_push _
    rcases List.mem_cons.1 hmem with heq | hold
    · cases heq
      show g.size < _
      omega
    · have := h.inRange hold
      omega
  of_defined {id} hmem := by
    obtain ⟨name', hname'⟩ := h.of_defined (by simpa using hmem)
    exact ⟨name', List.mem_cons_of_mem _ hname'⟩
  pending_iff id := by
    have hpending : id ∈ (g.declare name).pending ↔ id = ⟨g.size⟩ ∨ id ∈ g.pending := List.mem_cons
    rw [hpending, h.pending_iff]
    by_cases hid : id = ⟨g.size⟩
    · subst hid
      simp [h.not_defined_size]
    · simp [hid]
  slot {id name'} hmem hid := by
    rcases List.mem_cons.1 hmem with heq | hold
    · cases heq
      exact g.slot?_push_size _
    · have hlt := h.inRange hold
      rcases List.mem_cons.1 hid with rfl | hid
      · exact absurd hlt (lt_irrefl _)
      · exact (slot?_push_of_lt hlt).trans (h.slot hold hid)
  nodup := List.nodup_cons.2 ⟨h.not_declared_size name, h.nodup⟩

theorem define (h : g.InStep history) {id : TypeId} (hid : id ∈ g.pending) (body : Body (Edge δ)) :
    (g.define id body).InStep (.defined id :: history) where
  inRange hmem := by
    rw [size_define]
    exact h.inRange (by simpa using hmem)
  of_defined {x} hmem := by
    have hdeclared : ∃ name, Milestone.declared x name ∈ history := by
      rcases List.mem_cons.1 hmem with heq | hold
      · cases heq
        exact ((h.pending_iff id).1 hid).1
      · exact h.of_defined hold
    obtain ⟨name, hname⟩ := hdeclared
    exact ⟨name, List.mem_cons_of_mem _ hname⟩
  pending_iff x := by
    have hpending : x ∈ (g.define id body).pending ↔ x ∈ g.pending ∧ x ≠ id := by
      simp [Graph.define]
    rw [hpending, h.pending_iff]
    by_cases hx : x = id
    · simp [hx]
    · simp [hx]
  slot {x name} hmem hx := by
    obtain ⟨hx, hne⟩ : x ∈ g.pending ∧ x ≠ id := by simpa [Graph.define] using hx
    rw [slot?_define, if_neg hne]
    exact h.slot (by simpa using hmem) hx
  nodup := List.nodup_cons.2 ⟨((h.pending_iff id).1 hid).2, h.nodup⟩

/-- A pending object is there. -/
theorem index_lt_of_pending (h : g.InStep history) {id : TypeId} (hid : id ∈ g.pending) :
    id.index < g.size := by
  obtain ⟨⟨name, hname⟩, -⟩ := (h.pending_iff id).1 hid
  exact h.inRange hname

theorem completes (h : g.InStep history) {id : TypeId} (hid : id ∈ g.pending)
    (body : Body (Edge δ)) : g.Completes (g.define id body) id body where
  pending x := by simp [Graph.define]
  slot := by
    obtain ⟨⟨name, hname⟩, -⟩ := (h.pending_iff id).1 hid
    refine ⟨name, h.slot hname hid, ?_⟩
    simp [slot?_define, h.slot hname hid]
  others x hx := by rw [slot?_define, if_neg hx]
  size := size_define g id body
  shared := rfl
  builtins := rfl
  names := rfl

theorem lifecycle (h : g.InStep history) : g.Lifecycle history where
  pending_iff := h.pending_iff
  slot_of_pending id hid := by
    obtain ⟨⟨name, hname⟩, -⟩ := (h.pending_iff id).1 hid
    exact ⟨h.inRange hname, name, hname, h.slot hname hid⟩
  define_of_pending id hid ps additional flags := by
    refine ⟨_, ?_, h.completes hid _⟩
    rw [Build.define_of_pending hid, if_pos (h.index_lt_of_pending hid)]
  define_of_not_pending id hid := Build.define_of_not_pending hid
  defined_once id := List.nodup_iff_count_le_one.1 h.nodup _

end InStep

end Graph

/-! ### Runs -/

namespace Run

/-- The milestone that an operation reached, if it reached one. -/
def milestone? : Operation (Edge δ) TypeId × Except Failure Answer → Option Milestone
  | (.declare name, .ok answer) => answer.id?.map (.declared · name)
  | (.define _ _ _ _, .ok answer) => answer.id?.map .defined
  | _ => none

theorem milestone?_eq_none {op : Operation (Edge δ) TypeId} (hop : op.isTwoStep = false)
    (result : Except Failure Answer) : milestone? (op, result) = none := by
  cases op with
  | declare name => cases hop
  | define id ps additional flags => cases hop
  | _ => rfl

/-- The milestones of a run, the latest first. -/
def milestones (r : Run δ) : List Milestone := r.log.filterMap milestone?

variable [Deferral δ]

theorem milestones_perform (r : Run δ) (op : Operation (Edge δ) TypeId) :
    (r.perform op).milestones =
      (milestone? (op, (op.run r.graph).result)).toList ++ r.milestones := by
  unfold milestones perform
  cases h : milestone? (op, (op.run r.graph).result) with
  | none => simp [h]
  | some milestone => simp [h]

/-- An operation keeps the pending objects in step with the history. -/
theorem inStep_perform {r : Run δ} (h : r.graph.InStep r.milestones)
    (op : Operation (Edge δ) TypeId) : (r.perform op).graph.InStep (r.perform op).milestones := by
  rw [milestones_perform]
  cases hop : op.isTwoStep with
  | true =>
    cases op with
    | declare name =>
      rw [graph_perform_declare, Operation.run_declare]
      exact h.declare name
    | define id ps additional flags =>
      by_cases hid : id ∈ r.graph.pending
      · obtain ⟨answer, hrun, hanswer⟩ :=
          Operation.run_define_of_pending hid (h.index_lt_of_pending hid) ps additional flags
        have hmilestone : milestone? (.define id ps additional flags, .ok answer) =
            some (.defined id) := by simp [milestone?, hanswer]
        rw [graph_perform_define _ hid, hrun, hmilestone]
        exact h.define hid _
      · have hrun := Operation.run_define_of_not_pending hid ps additional flags
        rw [perform, hrun]
        exact h
    | _ => cases hop
  | false =>
    rw [milestone?_eq_none hop]
    exact h.grows (op.run_growth hop r.graph)

/-- After every run, the pending objects are in step with the history. -/
theorem inStep_after {r : Run δ} (h : r.graph.InStep r.milestones)
    (ops : List (Operation (Edge δ) TypeId)) :
    (r.after ops).graph.InStep (r.after ops).milestones := by
  induction ops generalizing r with
  | nil => exact h
  | cons op ops ih => exact ih (inStep_perform h op)

theorem inStep (ops : List (Operation (Edge δ) TypeId)) :
    ((start : Run δ).after ops).graph.InStep ((start : Run δ).after ops).milestones := by
  refine inStep_after ?_ ops
  rw [graph_start]
  exact Graph.InStep.fresh

end Run

/-! ### Sessions -/

namespace Session

/-- The milestone that a step reached in its graph, if it reached one. -/
def milestone? : Action → Result → Option Milestone
  | .perform (.declare name), .declared _ answer => answer.id?.map (.declared · name)
  | .perform (.define _ _ _ _), .answered answer => answer.id?.map .defined
  | _, _ => none

/-- The milestones in the history of a graph, the latest first. A fresh graph has none, and a copy
has those of the graph that it was copied from. -/
def milestones : List Step → ℕ → List Milestone
  | [], _ => []
  | st :: past, graph =>
    match st.action, (reply past st).result with
    | .fresh, .opened new => if graph = new then [] else milestones past graph
    | .copy, .opened new => if graph = new then milestones past st.graph else milestones past graph
    | action, result =>
      if graph = st.graph then (milestone? action result).toList ++ milestones past graph
      else milestones past graph

theorem milestones_perform {past : List Step} {st : Step} {op : Operation Ref ℕ}
    (haction : st.action = .perform op) (graph : ℕ) :
    milestones (st :: past) graph =
      if graph = st.graph then
        (milestone? (.perform op) (reply past st).result).toList ++ milestones past graph
      else milestones past graph := by
  rw [milestones, haction]

/-- A step reaches the milestone that its operation reaches on the graph. -/
theorem milestone?_perform (s : Session) (label index : ℕ) (g : Graph Recipe)
    {op : Operation Ref ℕ} {op' : Operation (Edge Recipe) TypeId}
    (hbind : op.bind? (Ref.edge? s.given) (s.tokens[·]?) = some op') :
    milestone? (.perform op) (s.perform label index g op').2.result =
      Run.milestone? (op', (op'.run g).result) := by
  cases hop : op.isTwoStep with
  | true =>
    cases op with
    | declare name =>
      obtain rfl := Option.some.inj hbind
      simp only [perform, Operation.run_declare]
      rfl
    | define token ps additional flags =>
      obtain ⟨id, ps', additional', -, rfl⟩ := Operation.bind?_define hbind
      unfold perform
      cases Operation.run (.define id ps' additional' flags) g with
      | mk result g' events =>
        cases result with
        | error failure => rfl
        | ok answer => rfl
    | _ => cases hop
  | false =>
    rw [Run.milestone?_eq_none (Operation.isTwoStep_of_bind? hbind hop)]
    cases op with
    | declare name => cases hop
    | define token ps additional flags => cases hop
    | _ => rfl

/-- Every graph of a session is the end of a run with the same milestones. -/
theorem exists_run (past : List Step) {graph : ℕ} {g : Graph Recipe}
    (hg : (state past).graphs[graph]? = some g) :
    ∃ ops, ((Run.start : Run Recipe).after ops).graph = g ∧
      ((Run.start : Run Recipe).after ops).milestones = milestones past graph := by
  induction past generalizing graph g with
  | nil =>
    obtain rfl : Graph.fresh = g := by
      cases graph with
      | zero => exact Option.some.inj hg
      | succ graph => cases hg
    exact ⟨[], Run.graph_start, rfl⟩
  | cons st past ih =>
    rw [state_cons] at hg
    cases haction : st.action with
    | fresh =>
      simp only [step, haction, Array.getElem?_push] at hg
      simp only [milestones, reply, step, haction]
      split_ifs at hg ⊢ with hgraph
      · obtain rfl := Option.some.inj hg
        exact ⟨[], Run.graph_start, rfl⟩
      · exact ih hg
    | copy =>
      cases hg₀ : (state past).graphs[st.graph]? with
      | none =>
        simp only [step, haction, hg₀] at hg
        simp only [milestones, reply, step, haction, hg₀, milestone?]
        simpa using ih hg
      | some g₀ =>
        simp only [step, haction, hg₀, Array.getElem?_push] at hg
        simp only [milestones, reply, step, haction, hg₀]
        split_ifs at hg ⊢ with hgraph
        · obtain rfl := Option.some.inj hg
          exact ih hg₀
        · exact ih hg
    | perform op =>
      rw [milestones_perform haction]
      rcases step_perform_cases (s := state past) haction with
        ⟨g₀, op', hg₀, hbind, hstep⟩ | ⟨hsame, hresult⟩
      · rw [hstep, graphs_perform] at hg
        rcases set_cases hg with ⟨rfl, rfl⟩ | ⟨hne, hg⟩
        · -- the operation is the last one of the run
          obtain ⟨ops, hgraph, hmilestones⟩ := ih hg₀
          refine ⟨ops ++ [op'], ?_, ?_⟩
          · rw [Run.after_concat, ← hgraph]
            rfl
          · rw [Run.after_concat, Run.milestones_perform, hgraph, hmilestones, if_pos rfl, reply,
              hstep, milestone?_perform _ _ _ _ hbind]
        · rw [if_neg hne]
          exact ih hg
      · rw [hsame] at hg
        have hnone : milestone? (.perform op) (reply past st).result = none := by
          rw [reply, hresult]
          cases op <;> rfl
        rw [hnone]
        simpa using ih hg

/-- After every run, and for every graph of every session, the pending objects are those that were
declared and not defined, they are there without content, and a definition succeeds exactly for
them. It takes its object off the pending ones, fills its slot and changes nothing else, so that no
object is defined twice. -/
theorem declared_objects_lifecycle :
    (∀ {δ : Type} [Deferral δ] (ops : List (Operation (Edge δ) TypeId)),
      let r := (Run.start : Run δ).after ops
      r.graph.Lifecycle r.milestones) ∧
    ∀ (past : List Step) (graph : ℕ) (g : Graph Recipe), (state past).graphs[graph]? = some g →
      g.Lifecycle (milestones past graph) := by
  refine ⟨fun ops => (Run.inStep ops).lifecycle, ?_⟩
  intro past graph g hg
  obtain ⟨ops, rfl, hmilestones⟩ := exists_run past hg
  rw [← hmilestones]
  exact (Run.inStep ops).lifecycle

/-- An object is declared, its graph is copied, and then it is defined. It is not pending there any
more, so that a second definition is refused; in the copy it is still pending and can be defined. -/
theorem declared_objects_lifecycle_in_copy :
    let past : List Step :=
      [⟨2, 0, .perform (.define 0 [] none .none)⟩, ⟨1, 0, .copy⟩, ⟨0, 0, .perform (.declare "A")⟩]
    ∃ g₀ g₁ g₂ : Graph Recipe, (state past).graphs[0]? = some g₀ ∧
      (state past).graphs[1]? = some g₁ ∧
      Build.define ⟨11⟩ [] none .none g₀ =
        ⟨.error (.refused (.notAwaitingDefinition ⟨11⟩)), g₀, []⟩ ∧
      Build.define ⟨11⟩ [] none .none g₁ = ⟨.ok ⟨11⟩, g₂, []⟩ := by
  intro past
  obtain ⟨hgraphs₁, htokens₁, -⟩ := state_declare [] 0 0 "A" (g := .fresh) rfl
  have hgraph₁ : (state [⟨0, 0, .perform (.declare "A")⟩]).graphs[0]? =
      some (Graph.fresh.declare "A") := by
    rw [hgraphs₁]
    rfl
  obtain ⟨hgraphs₂, htokens₂, -⟩ := state_copy [⟨0, 0, .perform (.declare "A")⟩] 1 0 hgraph₁
  rw [hgraphs₁] at hgraphs₂
  rw [htokens₁, Graph.size_fresh] at htokens₂
  have hpending : ⟨11⟩ ∈ (Graph.fresh.declare "A" : Graph Recipe).pending := by
    rw [← Graph.size_fresh (δ := Recipe)]
    exact List.mem_cons_self
  have hgraphs : (state past).graphs = _ :=
    graphs_define _ 2 0 0 (by rw [hgraphs₂]; rfl) (by rw [htokens₂]; rfl) hpending
  rw [hgraphs₂] at hgraphs
  have hg₀ : (state past).graphs[0]? =
      some ((Graph.fresh.declare "A").define ⟨11⟩ (.ofProperties [] none .none)) := by
    rw [hgraphs]
    rfl
  have hg₁ : (state past).graphs[1]? = some (Graph.fresh.declare "A") := by
    rw [hgraphs]
    rfl
  have hdefined : ⟨11⟩ ∉ (Graph.define (Graph.fresh.declare "A" : Graph Recipe) ⟨11⟩
      (.ofProperties [] none .none)).pending := by
    simp [Graph.define]
  obtain ⟨-, hlifecycle⟩ := declared_objects_lifecycle
  have hrefused := (hlifecycle past 0 _ hg₀).define_of_not_pending _ hdefined [] none .none
  obtain ⟨g₂, hdefine, -⟩ := (hlifecycle past 1 _ hg₁).define_of_pending _ hpending [] none .none
  exact ⟨_, _, g₂, hg₀, hg₁, hrefused, hdefine⟩

end Session

end TypeGraph
