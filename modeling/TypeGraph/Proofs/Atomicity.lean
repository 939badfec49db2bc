import TypeGraph.Proofs.Lifecycle

/-!
# Failures change nothing

A build keeps the graph as it stands where it fails, so that a failure could leave half of the work
behind. It never does: the parts of an operation that can fail come before those that change the
graph.

* `Build.Succeeds`, `Build.Atomic`: a build that never fails, and a build whose failures leave the
  graph as it was. A build is atomic if it goes on from an atomic part with parts that never fail.
* `Operation.graph_eq_of_error`: operations are atomic. A definition is the exception, since it
  takes its object off the pending ones before it looks for its slot; it is atomic in graphs in
  which pending objects are there.
* `Session.run_kept`: a session without the steps that fail in it goes on as before.
-/

namespace TypeGraph

variable {δ : Type}

namespace Build

variable {α β : Type}

/-- The build ends with a value, whatever graph it is carried out on. -/
def Succeeds (x : Build δ α) : Prop := ∀ g, ∃ a, (x g).result = .ok a

/-- A failure of the build leaves the graph as it was. -/
def Atomic (x : Build δ α) : Prop :=
  ∀ (g : Graph δ) (failure : Failure), (x g).result = .error failure → (x g).graph = g

theorem Succeeds.bind {x : Build δ α} {f : α → Build δ β} (hx : x.Succeeds)
    (hf : ∀ a, (f a).Succeeds) : (x >>= f).Succeeds := by
  intro g
  obtain ⟨a, ha⟩ := hx g
  rw [result_bind ha]
  exact hf a _

theorem Succeeds.atomic {x : Build δ α} (h : x.Succeeds) : x.Atomic := by
  intro g failure hfailure
  obtain ⟨a, ha⟩ := h g
  cases ha.symm.trans hfailure

/-- What can fail comes first. -/
theorem Atomic.bind {x : Build δ α} {f : α → Build δ β} (hx : x.Atomic)
    (hf : ∀ a, (f a).Succeeds) : (x >>= f).Atomic := by
  intro g failure hfailure
  cases hresult : (x g).result with
  | error failure' =>
    have hx' : x g = ⟨.error failure', (x g).graph, (x g).events⟩ := by rw [← hresult]
    rw [bind_apply_error hx']
    exact hx g failure' hresult
  | ok a =>
    rw [result_bind hresult] at hfailure
    obtain ⟨b, hb⟩ := hf a (x g).graph
    cases hb.symm.trans hfailure

/-- Looking at the graph first does no harm. -/
theorem Atomic.after_read (f : Graph δ → α) {k : α → Build δ β} (h : ∀ a, (k a).Atomic) :
    (read f >>= k).Atomic :=
  fun g failure hfailure => h (f g) g failure hfailure

/-- Recording an event first does no harm. -/
theorem Atomic.after_emit (event : Event) {k : Unit → Build δ β} (h : (k ()).Atomic) :
    (emit event >>= k).Atomic :=
  fun g failure hfailure => h g failure hfailure

theorem succeeds_pure (a : α) : (Pure.pure a : Build δ α).Succeeds := fun _ => ⟨a, rfl⟩

theorem succeeds_read (f : Graph δ → α) : (read f).Succeeds := fun g => ⟨f g, rfl⟩

theorem succeeds_change (f : Graph δ → Graph δ) : (change f).Succeeds := fun _ => ⟨(), rfl⟩

theorem succeeds_emit (event : Event) : (emit event : Build δ Unit).Succeeds := fun _ => ⟨(), rfl⟩

theorem succeeds_add (slot : Slot δ) : (add slot).Succeeds := fun _ => ⟨_, rfl⟩

theorem atomic_fail (failure : Failure) : (fail failure : Build δ α).Atomic := fun _ _ _ => rfl

theorem atomic_follow (a : Option α) : (follow a : Build δ α).Atomic := by
  cases a with
  | none => exact atomic_fail _
  | some a => exact (succeeds_pure a).atomic

theorem atomic_ofExcept (result : Except Failure α) : (ofExcept result : Build δ α).Atomic := by
  cases result with
  | error failure => exact atomic_fail failure
  | ok a => exact (succeeds_pure a).atomic

theorem succeeds_place (slot : Slot δ) : (place slot).Succeeds := by
  unfold place
  split
  · exact succeeds_add slot
  · refine (succeeds_read _).bind fun known => ?_
    split
    · exact succeeds_pure _
    · refine (succeeds_add slot).bind fun id => ?_
      exact (succeeds_change _).bind fun _ => succeeds_pure id

theorem atomic_registered (name : String) : (registered name : Build δ TypeId).Atomic := by
  refine .after_read _ fun found => ?_
  cases found with
  | none => exact atomic_fail _
  | some id => exact (succeeds_pure id).atomic

variable [Deferral δ]

theorem succeeds_array (item : Edge δ) : (array item).Succeeds :=
  (succeeds_read _).bind fun _ => (succeeds_read _).bind fun _ => succeeds_place _

/-- Types that are not there are noticed while the members are collected. -/
theorem atomic_union (members : List (Edge δ)) : (union members).Atomic := by
  refine .after_read _ fun leaves? => (atomic_follow leaves?).bind fun leaves => ?_
  refine (succeeds_read _).bind fun ids => ?_
  split
  · exact succeeds_pure _
  · exact succeeds_pure _
  · refine (succeeds_read _).bind fun label => ?_
    exact (succeeds_emit _).bind fun _ => succeeds_place _

/-- All members are checked before the object is made. -/
theorem atomic_discriminated (name key : String) (members : List (Edge δ)) :
    (discriminated name key members).Atomic := by
  refine .after_read _ fun result => ?_
  split
  · exact .after_emit _ (atomic_fail _)
  · exact atomic_fail _
  · exact ((succeeds_emit _).bind fun _ => succeeds_place _).atomic

/-- The target is looked at before the array of it is made. -/
theorem atomic_modifierProperties (target : TypeId) :
    (modifierProperties target : Build δ _).Atomic := by
  unfold modifierProperties
  split
  · exact ((succeeds_array _).bind fun _ => succeeds_pure _).atomic
  · exact .after_read _ fun _ => atomic_fail _

theorem atomic_modifier (target : TypeId) : (modifier target : Build δ TypeId).Atomic := by
  refine (atomic_modifierProperties target).bind fun ps => (succeeds_read _).bind fun name => ?_
  exact (succeeds_emit _).bind fun _ => succeeds_place _

theorem succeeds_resourceProperties (reference : Resource.Reference) :
    (resourceProperties reference : Build δ _).Succeeds := by
  refine (succeeds_place _).bind fun type => (succeeds_place _).bind fun version => ?_
  refine (succeeds_array _).bind fun strings => (succeeds_array _).bind fun resources => ?_
  exact succeeds_pure _

theorem succeeds_resource (reference : Resource.Reference) :
    (resource reference : Build δ TypeId).Succeeds := by
  refine (succeeds_resourceProperties reference).bind fun ps => ?_
  exact (succeeds_emit _).bind fun _ => succeeds_place _

end Build

section

open Build

variable [Deferral δ]

theorem Construction.atomic_build (c : Construction (Edge δ)) : c.build.Atomic := by
  cases c with
  | literal value => exact (succeeds_place _).atomic
  | array item => exact (succeeds_array item).atomic
  | object ps additional => exact (succeeds_place _).atomic
  | named name ps additional flags => exact (succeeds_place _).atomic
  | union members => exact atomic_union members
  | discriminated name key members => exact atomic_discriminated name key members
  | modifier target => exact .after_read _ atomic_modifier
  | resource text =>
    simp only [build]
    split
    · exact (succeeds_resource _).atomic
    · exact atomic_fail _

/-- An operation that neither declares nor defines an object is atomic. -/
theorem Operation.atomic_run {op : Operation (Edge δ) TypeId} (h : op.isTwoStep = false) :
    op.run.Atomic := by
  have hmade (id : TypeId) : (Answer.ofMade id : Build δ Answer).Succeeds := succeeds_read _
  cases op with
  | make construction => exact construction.atomic_build.bind hmade
  | declare name => cases h
  | define id ps additional flags => cases h
  | register name type =>
    refine .after_read _ fun id => Succeeds.atomic ?_
    exact (succeeds_change _).bind fun _ => succeeds_pure _
  | registered name => exact (atomic_registered name).bind hmade
  | variants name key members =>
    exact .after_read _ fun result => (atomic_ofExcept result).bind fun _ => succeeds_read _
  | modifierProperties target =>
    exact .after_read _ fun id => (atomic_modifierProperties id).bind fun _ => succeeds_read _
  | resourceProperties text =>
    simp only [run]
    split
    · exact ((succeeds_resourceProperties _).bind fun _ => succeeds_read _).atomic
    · exact atomic_fail _
  | same a b => exact (succeeds_read _).atomic
  | edge type => exact (succeeds_read _).atomic
  | inspect type question => exact .after_read _ atomic_ofExcept
  | query question => exact (succeeds_read _).atomic

/-- A failed operation leaves the graph as it was, if the pending objects of the graph are there. -/
theorem Operation.graph_eq_of_error {op : Operation (Edge δ) TypeId} {g : Graph δ}
    (hpending : ∀ id ∈ g.pending, id.index < g.size) {failure : Failure}
    (h : (op.run g).result = .error failure) : (op.run g).graph = g := by
  cases hop : op.isTwoStep with
  | false => exact atomic_run hop g failure h
  | true =>
    cases op with
    | declare name =>
      rw [run_declare] at h
      cases h
    | define id ps additional flags =>
      by_cases hid : id ∈ g.pending
      · obtain ⟨answer, hrun, -⟩ := run_define_of_pending hid (hpending id hid) ps additional flags
        rw [hrun] at h
        cases h
      · rw [run_define_of_not_pending hid]
    | _ => cases hop

end

namespace Session

/-- The step was refused, or it followed an id that leads nowhere. -/
def Result.isFailure : Result → Bool
  | failed _ => true
  | _ => false

theorem perform_of_failed {s : Session} {label index : ℕ} {g : Graph Recipe}
    (hg : s.graphs[index]? = some g) (hpending : ∀ id ∈ g.pending, id.index < g.size)
    {op : Operation (Edge Recipe) TypeId} {failure : Failure}
    (h : (s.perform label index g op).2.result = .failed failure) :
    (s.perform label index g op).1 = s := by
  have hsame : ∀ failure', (op.run g).result = .error failure' → (op.run g).graph = g :=
    fun _ => Operation.graph_eq_of_error hpending
  unfold perform at h ⊢
  cases hrun : op.run g with
  | mk result g' events =>
    rw [hrun] at hsame h
    cases result with
    | error failure' =>
      obtain rfl : g' = g := hsame failure' rfl
      simp only [set_self hg]
    | ok answer =>
      dsimp only at h
      split at h <;> cases h

/-- A failed step leaves the session as it was. -/
theorem step_of_failed {s : Session} (hrange : s.PendingInRange) {st : Step} {failure : Failure}
    (h : (s.step st).2.result = .failed failure) : (s.step st).1 = s := by
  cases haction : st.action with
  | fresh =>
    simp only [step, haction] at h
    cases h
  | copy =>
    cases hg : s.graphs[st.graph]? with
    | none => simp only [step, haction, hg]
    | some g =>
      simp only [step, haction, hg] at h
      cases h
  | perform op =>
    rcases step_perform_cases (s := s) haction with ⟨g, op', hg, -, hstep⟩ | ⟨hsame, -⟩
    · rw [hstep] at h ⊢
      exact perform_of_failed hg (hrange hg) h
    · exact hsame

/-- The graphs of a session are ends of runs, so that their pending objects are there. -/
theorem pendingInRange (past : List Step) : (state past).PendingInRange := by
  intro graph g hg id hid
  obtain ⟨ops, rfl, -⟩ := exists_run past hg
  exact (Run.inStep ops).index_lt_of_pending hid

theorem state_of_failed {past : List Step} {st : Step} {failure : Failure}
    (h : (reply past st).result = .failed failure) : state (st :: past) = state past := by
  rw [state_cons]
  exact step_of_failed (pendingInRange past) h

/-- The steps that do not fail when all are taken from a state, with the replies to them. -/
def kept (s : Session) (steps : List Step) : List (Step × Reply) :=
  (steps.zip (s.run steps).2).filter fun taken => !taken.2.result.isFailure

theorem run_cons (past : List Step) (st : Step) (steps : List Step) :
    (state past).run (st :: steps) =
      (((state (st :: past)).run steps).1,
        reply past st :: ((state (st :: past)).run steps).2) := by
  rw [state_cons]
  rfl

theorem kept_cons (past : List Step) (st : Step) (steps : List Step) :
    (state past).kept (st :: steps) =
      if (reply past st).result.isFailure then (state (st :: past)).kept steps
      else (st, reply past st) :: (state (st :: past)).kept steps := by
  rw [kept, run_cons, List.zip_cons_cons, List.filter_cons]
  cases (reply past st).result.isFailure <;> rfl

/-- A session without the steps that fail in it goes on as before: it gives the same replies to the
other steps and ends in the same state. -/
theorem run_kept (past steps : List Step) :
    (state past).run (((state past).kept steps).map Prod.fst) =
      (((state past).run steps).1, ((state past).kept steps).map Prod.snd) := by
  induction steps generalizing past with
  | nil => rfl
  | cons st steps ih =>
    have ih := ih (st :: past)
    rw [kept_cons, run_cons]
    cases hresult : (reply past st).result with
    | failed failure =>
      rw [state_of_failed hresult] at ih ⊢
      exact ih
    | _ =>
      show (state past).run (st :: _) = _
      rw [run_cons, ih]
      rfl

/-- Failures change nothing. An operation that fails at any point of a run leaves the graph as it
was, and a step that fails at any point of a session leaves all its graphs, the types that steps
gave and the tokens as they were. So a session can do without the steps that fail in it: the other
steps get the same replies, and it ends in the same state. -/
theorem failures_change_nothing :
    (∀ {δ : Type} [Deferral δ] (ops : List (Operation (Edge δ) TypeId))
      (op : Operation (Edge δ) TypeId) (failure : Failure),
      let g := ((Run.start : Run δ).after ops).graph
      (op.run g).result = .error failure → (op.run g).graph = g) ∧
    (∀ (past : List Step) (st : Step) (failure : Failure),
      (reply past st).result = .failed failure → state (st :: past) = state past) ∧
    ∀ steps : List Step,
      start.run ((start.kept steps).map Prod.fst) =
        ((start.run steps).1, (start.kept steps).map Prod.snd) := by
  refine ⟨?_, fun past st failure => state_of_failed, run_kept []⟩
  intro δ _ ops op failure g hfailure
  refine Operation.graph_eq_of_error (fun id hid => ?_) hfailure
  exact (Run.inStep ops).index_lt_of_pending hid

/-- A discriminated object is refused in the fresh graph. Between the declaration of an object and
its definition a union fails, since one of its members is not there, and a second definition is
refused; the session ends as if neither had been tried. -/
theorem failures_change_nothing_around_definition :
    let op : Operation (Edge Recipe) TypeId :=
      .make (.discriminated "D" "kind" [.direct .string])
    let declare : Step := ⟨0, 0, .perform (.declare "A")⟩
    let union : Step := ⟨1, 0, .perform (.make (.union [.id .string, .id ⟨99⟩]))⟩
    let define : Step := ⟨2, 0, .perform (.define 0 [] none .none)⟩
    let again : Step := ⟨3, 0, .perform (.define 0 [] none .none)⟩
    (op.run .fresh).result = .error (.refused (.memberNotObject "D" "string" .primitive)) ∧
      (op.run .fresh).graph = .fresh ∧
      (reply [declare] union).result = .failed .dangling ∧
      state [union, declare] = state [declare] ∧
      (start.run [declare, define]).1 = (start.run [declare, union, define, again]).1 := by
  intro op declare union define again
  obtain ⟨hrun, hstate, hkept⟩ := failures_change_nothing
  have hrefused :
      (op.run .fresh).result = .error (.refused (.memberNotObject "D" "string" .primitive)) := by
    rw [Graph.fresh_eq]
    rfl
  have hgraph := hrun [] op _ (by rw [Run.after_nil, Run.graph_start]; exact hrefused)
  rw [Run.after_nil, Run.graph_start] at hgraph
  have hdangling : (reply [declare] union).result = .failed .dangling := by
    simp only [reply, state, start, Graph.fresh_eq]
    rfl
  have hsteps : (start.kept [declare, union, define, again]).map Prod.fst = [declare, define] := by
    simp only [start, Graph.fresh_eq]
    rfl
  refine ⟨hrefused, hgraph, hdangling, hstate _ _ _ hdangling, ?_⟩
  rw [← hsteps, hkept]

end Session

end TypeGraph
