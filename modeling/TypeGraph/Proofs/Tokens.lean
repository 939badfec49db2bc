import TypeGraph.Proofs.SessionStep

/-!
# Tokens

A declaration gives out a token, and the token is asked for again when the object is defined. A
token stands for the id of its object, and graphs give out ids on their own, so that one id can
belong to tokens of several graphs.

* `Session.Holds`: a graph holds the pending object that was declared under a token. The object was
  declared there, or the graph was copied from one that held it at that time.
* `Session.accounted`: the pending objects of a graph are those that it holds, one for each id.
-/

namespace TypeGraph.Session

/-- The step defines, in the given graph, the object with the id of the token. -/
def Defines (past : List Step) (st : Step) (graph token : ℕ) : Prop :=
  st.graph = graph ∧
    (∃ token' ps additional flags, st.action = .perform (.define token' ps additional flags) ∧
      (state past).tokens[token']? = (state past).tokens[token]?) ∧
    ∃ answer, (reply past st).result = .answered answer

/-- After the steps, the graph holds the pending object that was declared under the token. -/
inductive Holds : List Step → ℕ → ℕ → Prop
  /-- The object was declared in the graph. -/
  | declared {past : List Step} {st : Step} {token : ℕ} {answer : Answer}
      (h : (reply past st).result = .declared token answer) : Holds (st :: past) st.graph token
  /-- The graph was copied from one that held the object. -/
  | copied {past : List Step} {st : Step} {graph token : ℕ} (haction : st.action = .copy)
      (h : (reply past st).result = .opened graph) (held : Holds past st.graph token) :
      Holds (st :: past) graph token
  /-- The object stays pending as long as it is not defined in the graph. -/
  | kept {past : List Step} {st : Step} {graph token : ℕ} (held : Holds past graph token)
      (h : ¬ Defines past st graph token) : Holds (st :: past) graph token

section

variable {past : List Step} {st : Step} {graph token : ℕ}

theorem holds_cons_of_declared {new : ℕ} {answer : Answer}
    (h : (reply past st).result = .declared new answer) :
    Holds (st :: past) graph token ↔ (graph = st.graph ∧ token = new) ∨ Holds past graph token := by
  constructor
  · rintro (h' | ⟨-, h', -⟩ | ⟨held, -⟩)
    · rw [h] at h'
      cases h'
      exact .inl ⟨rfl, rfl⟩
    · rw [h] at h'
      cases h'
    · exact .inr held
  · rintro (⟨rfl, rfl⟩ | held)
    · exact .declared h
    · refine .kept held ?_
      rintro ⟨-, -, answer', h'⟩
      rw [h] at h'
      cases h'

theorem holds_cons_of_copied {new : ℕ} (haction : st.action = .copy)
    (h : (reply past st).result = .opened new) :
    Holds (st :: past) graph token ↔
      (graph = new ∧ Holds past st.graph token) ∨ Holds past graph token := by
  constructor
  · rintro (h' | ⟨-, h', held⟩ | ⟨held, -⟩)
    · rw [h] at h'
      cases h'
    · rw [h] at h'
      cases h'
      exact .inl ⟨rfl, held⟩
    · exact .inr held
  · rintro (⟨rfl, held⟩ | held)
    · exact .copied haction h held
    · refine .kept held ?_
      rintro ⟨-, -, answer', h'⟩
      rw [h] at h'
      cases h'

theorem holds_cons_of_defined {token' : ℕ} {id : TypeId} {ps : List (Property Ref)}
    {additional : Option Ref} {flags : Flags} {answer : Answer}
    (haction : st.action = .perform (.define token' ps additional flags))
    (htoken : (state past).tokens[token']? = some id)
    (h : (reply past st).result = .answered answer) :
    Holds (st :: past) graph token ↔
      Holds past graph token ∧ ¬ (st.graph = graph ∧ (state past).tokens[token]? = some id) := by
  have hdefines : Defines past st graph token ↔
      st.graph = graph ∧ (state past).tokens[token]? = some id := by
    constructor
    · rintro ⟨hgraph, ⟨token'', ps', additional', flags', haction', heq⟩, -⟩
      rw [haction] at haction'
      cases haction'
      exact ⟨hgraph, heq.symm.trans htoken⟩
    · rintro ⟨hgraph, heq⟩
      exact ⟨hgraph, ⟨token', ps, additional, flags, haction, htoken.trans heq.symm⟩, answer, h⟩
  rw [← hdefines]
  constructor
  · rintro (h' | ⟨-, h', -⟩ | ⟨held, hnot⟩)
    · rw [h] at h'
      cases h'
    · rw [h] at h'
      cases h'
    · exact ⟨held, hnot⟩
  · rintro ⟨held, hnot⟩
    exact .kept held hnot

theorem holds_cons_of_kept (hdeclared : ∀ new answer, (reply past st).result ≠ .declared new answer)
    (hcopied : st.action = .copy → ∀ new, (reply past st).result ≠ .opened new)
    (hdefined : ∀ token' ps additional flags answer,
      st.action = .perform (.define token' ps additional flags) →
        (reply past st).result ≠ .answered answer) :
    Holds (st :: past) graph token ↔ Holds past graph token := by
  constructor
  · rintro (h' | ⟨haction, h', -⟩ | ⟨held, -⟩)
    · exact absurd h' (hdeclared _ _)
    · exact absurd h' (hcopied haction _)
    · exact held
  · intro held
    refine .kept held ?_
    rintro ⟨-, ⟨token', ps, additional, flags, haction, -⟩, answer, h'⟩
    exact hdefined _ _ _ _ _ haction h'

end

/-! ### Pending objects are held under one token each -/

/-- The pending objects of the graphs are those that they hold under some token, one for each id. -/
structure Accounted (s : Session) (held : ℕ → ℕ → Prop) : Prop where
  /-- A token that an object is held under was given out. -/
  issued : ∀ {graph token : ℕ}, held graph token → graph < s.graphs.size ∧ token < s.tokens.size
  /-- An object is pending if and only if it is held. -/
  pending : ∀ {graph : ℕ} {g : Graph Recipe}, s.graphs[graph]? = some g → ∀ id, id ∈ g.pending ↔
    ∃ token, held graph token ∧ s.tokens[token]? = some id
  /-- Pending objects are there. -/
  inRange : s.PendingInRange
  /-- No id is held under two tokens. -/
  unique : ∀ {graph token token' : ℕ}, held graph token → held graph token' →
    s.tokens[token]? = s.tokens[token']? → token = token'

namespace Accounted

variable {s s' : Session} {held held' : ℕ → ℕ → Prop}

/-- A graph is added, and holds what `new` says. -/
theorem push (h : Accounted s held) {g : Graph Recipe} (new : ℕ → Prop)
    (hgraphs : s'.graphs = s.graphs.push g) (htokens : s'.tokens = s.tokens)
    (hnew : ∀ {token}, new token → token < s.tokens.size)
    (hpending : ∀ id, id ∈ g.pending ↔ ∃ token, new token ∧ s.tokens[token]? = some id)
    (hrange : ∀ id ∈ g.pending, id.index < g.size)
    (hunique : ∀ {token token'}, new token → new token' →
      s.tokens[token]? = s.tokens[token']? → token = token')
    (hheld : ∀ graph token,
      held' graph token ↔ (graph = s.graphs.size ∧ new token) ∨ held graph token) :
    Accounted s' held' := by
  have hcases : ∀ {graph x}, s'.graphs[graph]? = some x →
      (graph = s.graphs.size ∧ x = g) ∨ (graph ≠ s.graphs.size ∧ s.graphs[graph]? = some x) := by
    intro graph x hx
    rw [hgraphs, Array.getElem?_push] at hx
    split_ifs at hx with hgraph
    · exact .inl ⟨hgraph, (Option.some.inj hx).symm⟩
    · exact .inr ⟨hgraph, hx⟩
  -- the new graph has no place among the old ones
  have hold : ∀ {token}, ¬ held s.graphs.size token := fun hheld =>
    absurd (h.issued hheld).1 (lt_irrefl _)
  constructor
  · intro graph token hht
    rw [hgraphs, htokens, Array.size_push]
    rcases (hheld graph token).1 hht with ⟨rfl, hn⟩ | hh
    · exact ⟨by omega, hnew hn⟩
    · obtain ⟨hgraph, htoken⟩ := h.issued hh
      exact ⟨by omega, htoken⟩
  · intro graph x hx id
    simp only [hheld, htokens]
    rcases hcases hx with ⟨rfl, rfl⟩ | ⟨hgraph, hx⟩
    · simp only [hold, or_false, true_and, hpending]
    · simp only [hgraph, false_and, false_or, h.pending hx]
  · intro graph x hx
    rcases hcases hx with ⟨rfl, rfl⟩ | ⟨-, hx⟩
    · exact hrange
    · exact h.inRange hx
  · intro graph token token' hht hht'
    rw [htokens]
    rcases (hheld graph token).1 hht with ⟨rfl, hn⟩ | hh
    · rcases (hheld _ token').1 hht' with ⟨-, hn'⟩ | hh'
      · exact hunique hn hn'
      · exact absurd hh' hold
    · rcases (hheld graph token').1 hht' with ⟨rfl, hn'⟩ | hh'
      · exact absurd hh hold
      · exact h.unique hh hh'

theorem start : Accounted start fun _ _ => False := by
  have hempty : Accounted ⟨#[], [], #[]⟩ fun _ _ => False :=
    ⟨fun hh => hh.elim, by simp, by simp [PendingInRange], fun hh => hh.elim⟩
  have hpending : (Graph.fresh : Graph Recipe).pending = [] := by rw [Graph.fresh_eq]
  exact hempty.push (fun _ => False) rfl rfl (fun hn => hn.elim) (by simp [hpending])
    (by simp [hpending]) (fun hn => hn.elim) (by simp)

/-- The pending objects stay as they are. -/
theorem keep (h : Accounted s held) (hgraphs : KeepPending s.graphs s'.graphs)
    (htokens : s'.tokens = s.tokens) : Accounted s' held where
  issued hh := by
    rw [hgraphs.1, htokens]
    exact h.issued hh
  pending {graph g} hg id := by
    obtain ⟨g', hg', hpending, -⟩ := hgraphs.2 graph g hg
    rw [hpending, htokens]
    exact h.pending hg' id
  inRange {graph g} hg id hid := by
    obtain ⟨g', hg', hpending, hsize⟩ := hgraphs.2 graph g hg
    rw [hpending] at hid
    exact lt_of_lt_of_le (h.inRange hg' id hid) hsize
  unique := by
    rw [htokens]
    exact h.unique

/-- An object is declared and is held under a new token. -/
theorem declare (h : Accounted s held) {index : ℕ} {g : Graph Recipe} {name : String}
    (hg : s.graphs[index]? = some g)
    (hgraphs : s'.graphs = s.graphs.setIfInBounds index (g.declare name))
    (htokens : s'.tokens = s.tokens.push ⟨g.size⟩)
    (hheld : ∀ graph token,
      held' graph token ↔ (graph = index ∧ token = s.tokens.size) ∨ held graph token) :
    Accounted s' held' := by
  have hold : ∀ {graph token}, held graph token → s'.tokens[token]? = s.tokens[token]? := by
    intro graph token hh
    rw [htokens, Array.getElem?_push, if_neg (h.issued hh).2.ne]
  have hnew : s'.tokens[s.tokens.size]? = some ⟨g.size⟩ := by
    rw [htokens, Array.getElem?_push, if_pos rfl]
  -- the new id is out of range in the old graph, so that it is not pending there
  have hfree : ∀ {token}, held index token → s.tokens[token]? ≠ some ⟨g.size⟩ := by
    intro token hh hid
    exact lt_irrefl _ (h.inRange hg _ ((h.pending hg _).2 ⟨token, hh, hid⟩))
  constructor
  case issued =>
    intro graph token hht
    rw [hgraphs, htokens, Array.size_setIfInBounds, Array.size_push]
    rcases (hheld graph token).1 hht with ⟨rfl, rfl⟩ | hh
    · exact ⟨(Array.getElem?_eq_some_iff.1 hg).1, by omega⟩
    · obtain ⟨hgraph, htoken⟩ := h.issued hh
      exact ⟨hgraph, by omega⟩
  case pending =>
    intro graph x hx id
    rw [hgraphs] at hx
    rcases set_cases hx with ⟨rfl, rfl⟩ | ⟨hgraph, hx⟩
    · have hpending : id ∈ (g.declare name).pending ↔ id = ⟨g.size⟩ ∨ id ∈ g.pending :=
        List.mem_cons
      rw [hpending, h.pending hg]
      constructor
      · rintro (rfl | ⟨token, hh, hid⟩)
        · exact ⟨s.tokens.size, (hheld _ _).2 (.inl ⟨rfl, rfl⟩), hnew⟩
        · exact ⟨token, (hheld _ _).2 (.inr hh), (hold hh).trans hid⟩
      · rintro ⟨token, hht, hid⟩
        rcases (hheld _ _).1 hht with ⟨-, rfl⟩ | hh
        · exact .inl (Option.some.inj (hid.symm.trans hnew))
        · exact .inr ⟨token, hh, (hold hh).symm.trans hid⟩
    · rw [h.pending hx]
      constructor
      · rintro ⟨token, hh, hid⟩
        exact ⟨token, (hheld _ _).2 (.inr hh), (hold hh).trans hid⟩
      · rintro ⟨token, hht, hid⟩
        rcases (hheld _ _).1 hht with ⟨hgraph', -⟩ | hh
        · exact absurd hgraph' hgraph
        · exact ⟨token, hh, (hold hh).symm.trans hid⟩
  case inRange =>
    intro graph x hx id hid
    rw [hgraphs] at hx
    rcases set_cases hx with ⟨rfl, rfl⟩ | ⟨-, hx⟩
    · have hsize : (g.declare name).size = g.size + 1 := g.size_push _
      rcases List.mem_cons.1 hid with rfl | hid
      · rw [hsize]
        exact Nat.lt_succ_self _
      · have := h.inRange hg id hid
        omega
    · exact h.inRange hx id hid
  case unique =>
    intro graph token token' hht hht' heq
    rcases (hheld _ _).1 hht with ⟨rfl, rfl⟩ | hh
    · rcases (hheld _ _).1 hht' with ⟨-, rfl⟩ | hh'
      · rfl
      · rw [hnew, hold hh'] at heq
        exact absurd heq.symm (hfree hh')
    · rcases (hheld _ _).1 hht' with ⟨rfl, rfl⟩ | hh'
      · rw [hnew, hold hh] at heq
        exact absurd heq (hfree hh)
      · rw [hold hh, hold hh'] at heq
        exact h.unique hh hh' heq

/-- A pending object is defined and is held no longer. -/
theorem define (h : Accounted s held) {index : ℕ} {g : Graph Recipe} {id : TypeId}
    {body : Body (Edge Recipe)} (hg : s.graphs[index]? = some g)
    (hgraphs : s'.graphs = s.graphs.setIfInBounds index (g.define id body))
    (htokens : s'.tokens = s.tokens)
    (hheld : ∀ graph token,
      held' graph token ↔ held graph token ∧ ¬ (index = graph ∧ s.tokens[token]? = some id)) :
    Accounted s' held' := by
  constructor
  case issued =>
    intro graph token hht
    rw [hgraphs, htokens, Array.size_setIfInBounds]
    exact h.issued ((hheld _ _).1 hht).1
  case pending =>
    intro graph x hx y
    rw [hgraphs] at hx
    simp only [hheld, htokens]
    rcases set_cases hx with ⟨rfl, rfl⟩ | ⟨hgraph, hx⟩
    · have hpending : y ∈ (g.define id body).pending ↔ y ∈ g.pending ∧ y ≠ id := by
        simp [Graph.define]
      rw [hpending, h.pending hg]
      constructor
      · rintro ⟨⟨token, hh, hy⟩, hne⟩
        refine ⟨token, ⟨hh, ?_⟩, hy⟩
        rintro ⟨-, hid⟩
        exact hne (Option.some.inj (hy.symm.trans hid))
      · rintro ⟨token, ⟨hh, hnot⟩, hy⟩
        refine ⟨⟨token, hh, hy⟩, ?_⟩
        rintro rfl
        exact hnot ⟨rfl, hy⟩
    · rw [h.pending hx]
      simp only [Ne.symm hgraph, false_and, not_false_eq_true, and_true]
  case inRange =>
    intro graph x hx y hy
    rw [hgraphs] at hx
    rcases set_cases hx with ⟨rfl, rfl⟩ | ⟨-, hx⟩
    · rw [Graph.size_define]
      exact h.inRange hg y (List.mem_of_mem_filter hy)
    · exact h.inRange hx y hy
  case unique =>
    intro graph token token' hht hht'
    rw [htokens]
    exact h.unique ((hheld _ _).1 hht).1 ((hheld _ _).1 hht').1

end Accounted

/-- After every history, the pending objects of the graphs are those that they hold. -/
theorem accounted (past : List Step) : Accounted (state past) (Holds past) := by
  induction past with
  | nil =>
    have hnone : Holds [] = fun _ _ => False := by
      funext graph token
      exact eq_false (nofun)
    rw [hnone]
    exact .start
  | cons st past ih =>
    have hchange := change ih.inRange st
    rw [← state_cons] at hchange
    generalize hstate : state (st :: past) = s' at hchange ⊢
    generalize hresult : ((state past).step st).2.result = result at hchange
    have hreply : (reply past st).result = result := hresult
    cases hchange with
    | fresh haction hgraphs htokens =>
      have hpending : (Graph.fresh : Graph Recipe).pending = [] := by rw [Graph.fresh_eq]
      refine ih.push (fun _ => False) hgraphs htokens (fun hn => hn.elim) (by simp [hpending])
        (by simp [hpending]) (fun hn => hn.elim) fun graph token => ?_
      rw [holds_cons_of_kept (by simp [hreply]) (by simp [haction]) (by simp [haction])]
      simp
    | copy haction hg hgraphs htokens =>
      exact ih.push (Holds past st.graph) hgraphs htokens (fun hn => (ih.issued hn).2)
        (ih.pending hg) (ih.inRange hg) ih.unique fun graph token =>
          holds_cons_of_copied haction hreply
    | declare haction hg hgraphs htokens =>
      exact ih.declare hg hgraphs htokens fun graph token => holds_cons_of_declared hreply
    | define haction hg htoken hid hgraphs htokens =>
      exact ih.define hg hgraphs htokens fun graph token =>
        holds_cons_of_defined haction htoken hreply
    | other hgraphs htokens hopened hdeclared hdefine =>
      have hheld : Holds (st :: past) = Holds past := by
        funext graph token
        rw [holds_cons_of_kept (hreply ▸ hdeclared) (fun _ => hreply ▸ hopened) (hreply ▸ hdefine)]
      rw [hheld]
      exact ih.keep hgraphs htokens

theorem accepted_of_pending (past : List Step) (label graph token : ℕ) {g : Graph Recipe}
    {id : TypeId} (hg : (state past).graphs[graph]? = some g)
    (htoken : (state past).tokens[token]? = some id) (hid : id ∈ g.pending) :
    ∃ answer, (reply past ⟨label, graph, .perform (.define token [] none .none)⟩).result =
      .answered answer := by
  simp only [reply, step, hg, Operation.bind?, Property.bindAll?, htoken]
  have hlt := (accounted past).inRange hg id hid
  exact ((state past).perform_define_of_pending label graph hid hlt [] none .none).2.2

/-- The step gets an answer. -/
def Accepted (past : List Step) (st : Step) : Prop :=
  ∃ answer, (reply past st).result = .answered answer

/-- A definition is accepted if and only if its graph holds an object with the id of the token. -/
theorem accepted_iff {past : List Step} {st : Step} {token : ℕ} {ps : List (Property Ref)}
    {additional : Option Ref} {flags : Flags}
    (haction : st.action = .perform (.define token ps additional flags))
    (hread : (reply past st).result ≠ .unreadable) :
    ∃ id, (state past).tokens[token]? = some id ∧
      (Accepted past st ↔
        ∃ other, Holds past st.graph other ∧ (state past).tokens[other]? = some id) ∧
      (¬ Accepted past st →
        (reply past st).result = .failed (.refused (.notAwaitingDefinition id)) ∧
          state (st :: past) = state past) := by
  obtain ⟨g, id, hg, htoken, houtcome⟩ := step_define (accounted past).inRange haction hread
  refine ⟨id, htoken, ?_, ?_⟩
  · rw [← (accounted past).pending hg]
    rcases houtcome with ⟨hid, haccepted⟩ | ⟨hid, -, hresult⟩
    · exact ⟨fun _ => hid, fun _ => haccepted⟩
    · refine ⟨?_, fun h => absurd h hid⟩
      rintro ⟨answer, hanswer⟩
      cases hresult.symm.trans hanswer
  · intro hrefused
    rcases houtcome with ⟨-, haccepted⟩ | ⟨-, hsame, hresult⟩
    · exact absurd haccepted hrefused
    · exact ⟨hresult, (state_cons st past).trans hsame⟩

/-- A definition with a token is accepted wherever the object is held that the token was given out
for. It is also accepted, by mistake, where an object is held that has the same id and another
token, and nowhere else: all other tokens are refused, and nothing changes. -/
theorem define_accepts_token_iff (past : List Step) (st : Step) (token : ℕ)
    (ps : List (Property Ref)) (additional : Option Ref) (flags : Flags)
    (haction : st.action = .perform (.define token ps additional flags))
    (hread : (reply past st).result ≠ .unreadable) :
    ∃ id, (state past).tokens[token]? = some id ∧
      (Holds past st.graph token → Accepted past st) ∧
      (Accepted past st ∧ ¬ Holds past st.graph token ↔
        ∃ other, other ≠ token ∧ Holds past st.graph other ∧
          (state past).tokens[other]? = some id) ∧
      (¬ Accepted past st →
        (reply past st).result = .failed (.refused (.notAwaitingDefinition id)) ∧
          state (st :: past) = state past) := by
  obtain ⟨id, htoken, haccepted, hrefused⟩ := accepted_iff haction hread
  refine ⟨id, htoken, fun hheld => haccepted.2 ⟨token, hheld, htoken⟩, ?_, hrefused⟩
  constructor
  · rintro ⟨h, hnot⟩
    obtain ⟨other, hheld, hother⟩ := haccepted.1 h
    refine ⟨other, ?_, hheld, hother⟩
    rintro rfl
    exact hnot hheld
  · rintro ⟨other, hne, hheld, hother⟩
    refine ⟨haccepted.2 ⟨other, hheld, hother⟩, fun hheld' => hne ?_⟩
    exact (accounted past).unique hheld hheld' (hother.trans htoken.symm)

/-- A copy accepts the token of an object that was pending when it was made. -/
theorem define_accepts_token_in_copy :
    let past : List Step := [⟨1, 0, .copy⟩, ⟨0, 0, .perform (.declare "A")⟩]
    let st : Step := ⟨2, 1, .perform (.define 0 [] none .none)⟩
    (reply past st).result ≠ .unreadable ∧ Holds past st.graph 0 ∧ Accepted past st := by
  intro past st
  obtain ⟨hgraphs₁, htokens₁, answer, hreply₁⟩ := state_declare [] 0 0 "A" (g := .fresh) rfl
  have hgraph₁ : (state [⟨0, 0, .perform (.declare "A")⟩]).graphs[0]? =
      some (Graph.fresh.declare "A") := by
    rw [hgraphs₁]
    rfl
  obtain ⟨hgraphs₂, htokens₂, hreply₂⟩ :=
    state_copy [⟨0, 0, .perform (.declare "A")⟩] 1 0 hgraph₁
  rw [hgraphs₁] at hgraphs₂ hreply₂
  rw [htokens₁] at htokens₂
  have hheld : Holds past 1 0 := .copied rfl hreply₂ (.declared hreply₁)
  have hread : (reply past st).result ≠ .unreadable := by
    obtain ⟨answer', hanswer⟩ := accepted_of_pending past 2 1 0
      (by rw [hgraphs₂]; rfl) (by rw [htokens₂]; rfl) List.mem_cons_self
    rw [hanswer]
    simp
  obtain ⟨id, -, haccepts, -⟩ := define_accepts_token_iff past st 0 [] none .none rfl hread
  exact ⟨hread, hheld, haccepts hheld⟩

/-- Two graphs declare an object each, and both objects get the same id. The second graph accepts
the token of the first, though it does not hold the object that this token was given out for. -/
theorem define_accepts_foreign_token :
    let past : List Step :=
      [⟨2, 1, .perform (.declare "B")⟩, ⟨1, 0, .perform (.declare "A")⟩, ⟨0, 0, .fresh⟩]
    let st : Step := ⟨3, 1, .perform (.define 0 [] none .none)⟩
    Accepted past st ∧ ¬ Holds past st.graph 0 := by
  intro past st
  obtain ⟨hgraphs₁, htokens₁⟩ : (state [⟨0, 0, .fresh⟩]).graphs = #[.fresh, .fresh] ∧
      (state [⟨0, 0, .fresh⟩]).tokens = #[] := ⟨rfl, rfl⟩
  obtain ⟨hgraphs₂, htokens₂, -⟩ :=
    state_declare [⟨0, 0, .fresh⟩] 1 0 "A" (g := .fresh) (by rw [hgraphs₁]; rfl)
  rw [hgraphs₁] at hgraphs₂
  rw [htokens₁] at htokens₂
  obtain ⟨hgraphs₃, htokens₃, answer, hreply⟩ :=
    state_declare [⟨1, 0, .perform (.declare "A")⟩, ⟨0, 0, .fresh⟩] 2 1 "B" (g := .fresh)
      (by rw [hgraphs₂]; rfl)
  rw [hgraphs₂] at hgraphs₃
  rw [htokens₂] at htokens₃ hreply
  have htokens : (state past).tokens = #[⟨11⟩, ⟨11⟩] := by
    rw [htokens₃, Graph.size_fresh]
    rfl
  have hgraph : (state past).graphs[1]? = some (Graph.fresh.declare "B") := by
    rw [hgraphs₃]
    rfl
  constructor
  · refine accepted_of_pending past 3 1 0 hgraph (by rw [htokens]; rfl) ?_
    show _ ∈ (⟨Graph.fresh.size⟩ :: Graph.fresh.pending : List TypeId)
    rw [Graph.size_fresh]
    exact List.mem_cons_self
  · intro hheld
    -- the object at this id is held under the token of the second graph
    have hheld' : Holds past 1 1 := .declared hreply
    have heq := (accounted past).unique hheld hheld' (by rw [htokens]; rfl)
    cases heq

end TypeGraph.Session
