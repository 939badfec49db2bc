import TypeGraph.Proofs.Run
import TypeGraph.Session

/-!
# Steps of a session

What one step does to the graphs and the tokens of a session is said once, by `Session.Change`: a
graph is added, an object is declared or defined in one of the graphs, or all pending objects stay
as they are (`Session.change`). `Session.state` is the state after a history of steps.
-/

namespace TypeGraph

theorem Operation.bind?_define {ρ ρ' τ τ' : Type} {f : ρ → Option ρ'} {t : τ → Option τ'}
    {token : τ} {ps : List (Property ρ)} {additional : Option ρ} {flags : Flags}
    {op : Operation ρ' τ'}
    (h : (define token ps additional flags).bind? f t = some op) :
    ∃ id ps' additional', t token = some id ∧ op = .define id ps' additional' flags := by
  simp only [bind?, Option.bind_eq_bind, Option.bind_eq_some_iff] at h
  obtain ⟨id, hid, ps', -, additional', -, hop⟩ := h
  exact ⟨id, ps', additional', hid, (Option.some.inj hop).symm⟩

theorem Operation.isTwoStep_of_bind? {ρ ρ' τ τ' : Type} {f : ρ → Option ρ'} {t : τ → Option τ'}
    {op : Operation ρ τ} {op' : Operation ρ' τ'} (h : op.bind? f t = some op')
    (hop : op.isTwoStep = false) : op'.isTwoStep = false := by
  cases op with
  | declare name => cases hop
  | define token ps additional flags => cases hop
  | _ =>
    simp only [bind?, Option.bind_eq_bind, Option.bind_eq_some_iff] at h
    grind [isTwoStep]

namespace Session

/-! ### What one step does -/

/-- The graphs keep their pending objects and do not shrink. -/
def KeepPending (old new : Array (Graph Recipe)) : Prop :=
  new.size = old.size ∧ ∀ (i : ℕ) (g : Graph Recipe), new[i]? = some g →
    ∃ g', old[i]? = some g' ∧ g.pending = g'.pending ∧ g'.size ≤ g.size

/-- A step and what it does to the graphs and the tokens. -/
inductive Change (s : Session) (st : Step) : Session → Result → Prop
  | fresh {s' : Session} (haction : st.action = .fresh)
      (hgraphs : s'.graphs = s.graphs.push .fresh) (htokens : s'.tokens = s.tokens) :
      Change s st s' (.opened s.graphs.size)
  | copy {s' : Session} {g : Graph Recipe} (haction : st.action = .copy)
      (hg : s.graphs[st.graph]? = some g) (hgraphs : s'.graphs = s.graphs.push g)
      (htokens : s'.tokens = s.tokens) : Change s st s' (.opened s.graphs.size)
  | declare {s' : Session} {g : Graph Recipe} {name : String} {answer : Answer}
      (haction : st.action = .perform (.declare name)) (hg : s.graphs[st.graph]? = some g)
      (hgraphs : s'.graphs = s.graphs.setIfInBounds st.graph (g.declare name))
      (htokens : s'.tokens = s.tokens.push ⟨g.size⟩) :
      Change s st s' (.declared s.tokens.size answer)
  | define {s' : Session} {g : Graph Recipe} {token : ℕ} {id : TypeId}
      {ps : List (Property Ref)} {additional : Option Ref} {flags : Flags}
      {body : Body (Edge Recipe)} {answer : Answer}
      (haction : st.action = .perform (.define token ps additional flags))
      (hg : s.graphs[st.graph]? = some g) (htoken : s.tokens[token]? = some id)
      (hid : id ∈ g.pending)
      (hgraphs : s'.graphs = s.graphs.setIfInBounds st.graph (g.define id body))
      (htokens : s'.tokens = s.tokens) : Change s st s' (.answered answer)
  /-- All other steps keep the pending objects. -/
  | other {s' : Session} {result : Result} (hgraphs : KeepPending s.graphs s'.graphs)
      (htokens : s'.tokens = s.tokens) (hopened : ∀ i, result ≠ .opened i)
      (hdeclared : ∀ token answer, result ≠ .declared token answer)
      (hdefine : ∀ token ps additional flags answer,
        st.action = .perform (.define token ps additional flags) → result ≠ .answered answer) :
      Change s st s' result

theorem keepPending_refl (graphs : Array (Graph Recipe)) : KeepPending graphs graphs :=
  ⟨rfl, fun _ g hg => ⟨g, hg, rfl, le_rfl⟩⟩

/-- A graph that is replaced is the only one that changes. -/
theorem set_cases {graphs : Array (Graph Recipe)} {index graph : ℕ} {g x : Graph Recipe}
    (h : (graphs.setIfInBounds index g)[graph]? = some x) :
    (graph = index ∧ x = g) ∨ (graph ≠ index ∧ graphs[graph]? = some x) := by
  rw [Array.getElem?_setIfInBounds] at h
  split_ifs at h with hindex hlt
  · exact .inl ⟨hindex.symm, (Option.some.inj h).symm⟩
  · exact .inr ⟨Ne.symm hindex, h⟩

/-- A graph that is put back into its place changes nothing. -/
theorem set_self {graphs : Array (Graph Recipe)} {index : ℕ} {g : Graph Recipe}
    (hg : graphs[index]? = some g) : graphs.setIfInBounds index g = graphs := by
  obtain ⟨hlt, rfl⟩ := Array.getElem?_eq_some_iff.1 hg
  rw [Array.setIfInBounds_def, dif_pos hlt]
  exact Array.set_getElem_self hlt

theorem keepPending_set {graphs : Array (Graph Recipe)} {index : ℕ} {g g' : Graph Recipe}
    (hg : graphs[index]? = some g) (hpending : g'.pending = g.pending) (hsize : g.size ≤ g'.size) :
    KeepPending graphs (graphs.setIfInBounds index g') := by
  refine ⟨by simp, fun i x hx => ?_⟩
  rcases set_cases hx with ⟨rfl, rfl⟩ | ⟨-, hx⟩
  · exact ⟨g, hg, hpending, hsize⟩
  · exact ⟨x, hx, rfl, le_rfl⟩

@[simp] theorem graphs_give (s : Session) (label : ℕ) (answer : Answer) :
    (s.give label answer).graphs = s.graphs := by
  unfold give
  cases answer.id? <;> rfl

@[simp] theorem tokens_give (s : Session) (label : ℕ) (answer : Answer) :
    (s.give label answer).tokens = s.tokens := by
  unfold give
  cases answer.id? <;> rfl

theorem graphs_perform (s : Session) (label index : ℕ) (g : Graph Recipe)
    (op : Operation (Edge Recipe) TypeId) :
    (s.perform label index g op).1.graphs = s.graphs.setIfInBounds index (op.run g).graph := by
  unfold perform
  cases op.run g with
  | mk result g' events =>
    cases result with
    | error failure => rfl
    | ok answer =>
      dsimp only
      split <;> simp

/-- The tokens and the graphs after an operation that neither declares nor defines an object. -/
theorem perform_of_growth (s : Session) (label index : ℕ) {g : Graph Recipe}
    (hg : s.graphs[index]? = some g) {op : Operation (Edge Recipe) TypeId}
    (hop : op.isTwoStep = false) :
    KeepPending s.graphs (s.perform label index g op).1.graphs ∧
      (s.perform label index g op).1.tokens = s.tokens ∧
      ((∃ failure, (s.perform label index g op).2.result = .failed failure) ∨
        ∃ answer, (s.perform label index g op).2.result = .answered answer) := by
  have hgrows := Operation.run_growth hop g
  have hkeep := keepPending_set hg hgrows.pending_eq hgrows.size_le
  unfold perform
  cases hrun : op.run g with
  | mk result g' events =>
    rw [hrun] at hkeep
    cases result with
    | error failure => exact ⟨hkeep, rfl, .inl ⟨failure, rfl⟩⟩
    | ok answer =>
      cases op with
      | declare name => cases hop
      | _ => exact ⟨by simpa using hkeep, by simp, .inr ⟨answer, rfl⟩⟩

theorem perform_declare (s : Session) (label index : ℕ) (g : Graph Recipe) (name : String) :
    (s.perform label index g (.declare name)).1.graphs =
        s.graphs.setIfInBounds index (g.declare name) ∧
      (s.perform label index g (.declare name)).1.tokens = s.tokens.push ⟨g.size⟩ ∧
      ∃ answer, (s.perform label index g (.declare name)).2.result =
        .declared s.tokens.size answer := by
  simp only [perform, Operation.run_declare, Answer.id?, graphs_give, true_and]
  exact ⟨_, rfl⟩

theorem perform_define_of_pending (s : Session) (label index : ℕ) {g : Graph Recipe} {id : TypeId}
    (hid : id ∈ g.pending) (hlt : id.index < g.size) (ps : List (Property (Edge Recipe)))
    (additional : Option (Edge Recipe)) (flags : Flags) :
    (s.perform label index g (.define id ps additional flags)).1.graphs =
        s.graphs.setIfInBounds index (g.define id (.ofProperties ps additional flags)) ∧
      (s.perform label index g (.define id ps additional flags)).1.tokens = s.tokens ∧
      ∃ answer, (s.perform label index g (.define id ps additional flags)).2.result =
        .answered answer := by
  obtain ⟨answer, hrun, -⟩ := Operation.run_define_of_pending hid hlt ps additional flags
  simp only [perform, hrun, graphs_give, tokens_give, true_and]
  exact ⟨answer, rfl⟩

/-- A definition that is refused changes nothing. -/
theorem perform_define_of_not_pending (s : Session) (label index : ℕ) {g : Graph Recipe}
    {id : TypeId} (hg : s.graphs[index]? = some g) (hid : id ∉ g.pending)
    (ps : List (Property (Edge Recipe))) (additional : Option (Edge Recipe)) (flags : Flags) :
    (s.perform label index g (.define id ps additional flags)).1 = s ∧
      (s.perform label index g (.define id ps additional flags)).2.result =
        .failed (.refused (.notAwaitingDefinition id)) := by
  have hrun := Operation.run_define_of_not_pending hid ps additional flags
  simp only [perform, hrun, set_self hg, and_self]

/-- A step that asks for an operation carries it out, or it cannot be read and nothing changes. -/
theorem step_perform_cases {s : Session} {st : Step} {op : Operation Ref ℕ}
    (haction : st.action = .perform op) :
    (∃ g op', s.graphs[st.graph]? = some g ∧
      op.bind? (Ref.edge? s.given) (s.tokens[·]?) = some op' ∧
      s.step st = s.perform st.label st.graph g op') ∨
    ((s.step st).1 = s ∧ (s.step st).2.result = .unreadable) := by
  cases hg : s.graphs[st.graph]? with
  | none =>
    right
    simp only [step, haction, hg, and_self]
  | some g =>
    cases hbind : op.bind? (Ref.edge? s.given) (s.tokens[·]?) with
    | none =>
      right
      simp only [step, haction, hg, hbind, and_self]
    | some op' =>
      left
      refine ⟨g, op', rfl, rfl, ?_⟩
      simp only [step, haction, hg, hbind]

/-- The pending objects of the graphs are there. -/
def PendingInRange (s : Session) : Prop :=
  ∀ {graph : ℕ} {g : Graph Recipe}, s.graphs[graph]? = some g → ∀ id ∈ g.pending, id.index < g.size

/-- Every step is one of the changes. -/
theorem change {s : Session} (hrange : s.PendingInRange) (st : Step) :
    Change s st (s.step st).1 (s.step st).2.result := by
  cases haction : st.action with
  | fresh =>
    simp only [step, haction]
    exact .fresh haction rfl rfl
  | copy =>
    cases hg : s.graphs[st.graph]? with
    | none =>
      simp only [step, haction, hg]
      exact .other (keepPending_refl _) rfl (by simp) (by simp) (by simp)
    | some g =>
      simp only [step, haction, hg]
      exact .copy haction hg rfl rfl
  | perform op =>
    rcases step_perform_cases (s := s) haction with ⟨g, op', hg, hbind, hstep⟩ | ⟨hsame, hresult⟩
    · rw [hstep]
      cases op with
      | declare name =>
        obtain rfl := Option.some.inj hbind
        obtain ⟨hgraphs, htokens, answer, hresult⟩ := s.perform_declare st.label st.graph g name
        rw [hresult]
        exact .declare haction hg hgraphs htokens
      | define token ps additional flags =>
        obtain ⟨id, ps', additional', htoken, rfl⟩ := Operation.bind?_define hbind
        by_cases hid : id ∈ g.pending
        · have hsize := hrange hg id hid
          obtain ⟨hgraphs, htokens, answer, hresult⟩ :=
            s.perform_define_of_pending st.label st.graph hid hsize ps' additional' flags
          rw [hresult]
          exact .define haction hg htoken hid hgraphs htokens
        · obtain ⟨hsame, hresult⟩ :=
            s.perform_define_of_not_pending st.label st.graph hg hid ps' additional' flags
          rw [hsame, hresult]
          exact .other (keepPending_refl _) rfl (by simp) (by simp) (by simp)
      | _ =>
        obtain ⟨hgraphs, htokens, hresult⟩ :=
          s.perform_of_growth st.label st.graph hg (Operation.isTwoStep_of_bind? hbind rfl)
        rcases hresult with ⟨failure, hresult⟩ | ⟨answer, hresult⟩
        · rw [hresult]
          exact .other hgraphs htokens (by simp) (by simp) (by simp)
        · rw [hresult]
          exact .other hgraphs htokens (by simp) (by simp) (by simp [haction])
    · rw [hsame, hresult]
      exact .other (keepPending_refl _) rfl (by simp) (by simp) (by simp)

/-- A definition that can be read is carried out if its object is pending; otherwise it is refused
and nothing changes. -/
theorem step_define {s : Session} (hrange : s.PendingInRange) {st : Step} {token : ℕ}
    {ps : List (Property Ref)} {additional : Option Ref} {flags : Flags}
    (haction : st.action = .perform (.define token ps additional flags))
    (hread : (s.step st).2.result ≠ .unreadable) :
    ∃ g id, s.graphs[st.graph]? = some g ∧ s.tokens[token]? = some id ∧
      ((id ∈ g.pending ∧ ∃ answer, (s.step st).2.result = .answered answer) ∨
        (id ∉ g.pending ∧ (s.step st).1 = s ∧
          (s.step st).2.result = .failed (.refused (.notAwaitingDefinition id)))) := by
  rcases step_perform_cases (s := s) haction with ⟨g, op, hg, hbind, hstep⟩ | ⟨-, hresult⟩
  · obtain ⟨id, ps', additional', htoken, rfl⟩ := Operation.bind?_define hbind
    refine ⟨g, id, hg, htoken, ?_⟩
    rw [hstep]
    by_cases hid : id ∈ g.pending
    · left
      exact ⟨hid, (s.perform_define_of_pending st.label st.graph hid (hrange hg id hid) ps'
        additional' flags).2.2⟩
    · right
      exact ⟨hid, s.perform_define_of_not_pending st.label st.graph hg hid ps' additional' flags⟩
  · exact absurd hresult hread

/-! ### Histories -/

/-- The state after some steps, of which the latest comes first. -/
def state (past : List Step) : Session := (start.run past.reverse).1

/-- The reply to a step that is taken after some others. -/
def reply (past : List Step) (st : Step) : Reply := ((state past).step st).2

theorem run_concat (s : Session) (steps : List Step) (st : Step) :
    (s.run (steps ++ [st])).1 = ((s.run steps).1.step st).1 := by
  induction steps generalizing s with
  | nil => rfl
  | cons first steps ih => exact ih (s.step first).1

theorem state_cons (st : Step) (past : List Step) :
    state (st :: past) = ((state past).step st).1 := by
  rw [state, List.reverse_cons, run_concat, state]

theorem state_declare (past : List Step) (label graph : ℕ) (name : String) {g : Graph Recipe}
    (hg : (state past).graphs[graph]? = some g) :
    let st : Step := ⟨label, graph, .perform (.declare name)⟩
    (state (st :: past)).graphs = (state past).graphs.setIfInBounds graph (g.declare name) ∧
      (state (st :: past)).tokens = (state past).tokens.push ⟨g.size⟩ ∧
      ∃ answer, (reply past st).result = .declared (state past).tokens.size answer := by
  simp only [state_cons, reply, step, hg, Operation.bind?]
  exact (state past).perform_declare label graph g name

theorem state_copy (past : List Step) (label graph : ℕ) {g : Graph Recipe}
    (hg : (state past).graphs[graph]? = some g) :
    let st : Step := ⟨label, graph, .copy⟩
    (state (st :: past)).graphs = (state past).graphs.push g ∧
      (state (st :: past)).tokens = (state past).tokens ∧
      (reply past st).result = .opened (state past).graphs.size := by
  simp only [state_cons, reply, step, hg, and_self]

/-- The graphs after a definition without content. -/
theorem graphs_define (past : List Step) (label graph token : ℕ) {g : Graph Recipe} {id : TypeId}
    (hg : (state past).graphs[graph]? = some g) (htoken : (state past).tokens[token]? = some id)
    (hid : id ∈ g.pending) :
    (state (⟨label, graph, .perform (.define token [] none .none)⟩ :: past)).graphs =
      (state past).graphs.setIfInBounds graph (g.define id (.ofProperties [] none .none)) := by
  simp only [state_cons, step, hg, Operation.bind?, Property.bindAll?, htoken]
  show (Session.perform _ _ _ _ (.define id [] none .none)).1.graphs = _
  rw [graphs_perform, Operation.graph_run_define hid]

end Session

end TypeGraph
