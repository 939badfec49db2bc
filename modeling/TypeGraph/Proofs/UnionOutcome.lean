import TypeGraph.Proofs.StoredUnions
import TypeGraph.Recipe

/-!
# What forming a union does

The union of some types depends on the list of all their members, in order and without repetition
(`Graph.MembersOf`). There is one such list if all the types are there, and it decides the outcome
(`Graph.Unites`): the union of no members is `never`, that of one member is the member, and any
other is found or made. The union of types of which one is not there is not formed
(`Graph.Sound.union_of_missing`).
-/

namespace TypeGraph

variable {δ : Type}

namespace Graph

theorem Increasing.ordered {g : Graph δ} {ids : List TypeId} (h : g.Increasing ids) :
    g.Ordered ids :=
  h.imp rank_lt_rank_iff.2

/-- The list holds the members of all the types that the edges lead to, each of them once, by label
and then by id. -/
structure MembersOf [Deferral δ] (g : Graph δ) (edges : List (Edge δ)) (ids : List TypeId) :
    Prop where
  increasing : g.Increasing ids
  mem_iff : ∀ id, id ∈ ids ↔
    ∃ e ∈ edges, ∃ members, g.members? (g.resolve e) = some members ∧ id ∈ members

theorem MembersOf.unique [Deferral δ] {g : Graph δ} {edges : List (Edge δ)} {ids ids' : List TypeId}
    (h : g.MembersOf edges ids) (h' : g.MembersOf edges ids') : ids = ids' :=
  h.increasing.ordered.eq_of_mem_iff h'.increasing.ordered fun id =>
    (h.mem_iff id).trans (h'.mem_iff id).symm

/-- Some slot holds the union of these members. -/
def HoldsUnion (g : Graph δ) (members : List TypeId) : Prop :=
  ∃ id label, g.slot? id = some ⟨label, .union members⟩

/-- In `g`, these members are united to the type `id`, and `g'` is the graph with this type. -/
structure Unites (g : Graph δ) (ids : List TypeId) (id : TypeId) (g' : Graph δ) : Prop where
  members : g'.members? id = some ids
  never : ids = [] → id = .never ∧ g' = g
  single : ∀ member, ids = [member] → id = member ∧ g' = g
  slot : 2 ≤ ids.length →
    g'.slot? id = some ⟨" | ".intercalate (ids.map g.display), .union ids⟩
  /-- A union that is there is not made again. -/
  found : 2 ≤ ids.length → g.HoldsUnion ids → g' = g
  /-- A union that is not there takes the next free id, and all slots stay as they are. -/
  made : 2 ≤ ids.length → ¬ g.HoldsUnion ids →
    id = ⟨g.size⟩ ∧ g'.size = g.size + 1 ∧ ∀ old, old.index < g.size → g'.slot? old = g.slot? old

theorem members?_of_slot? {g : Graph δ} {id : TypeId} {label : String} {ids : List TypeId}
    (h : g.slot? id = some ⟨label, .union ids⟩) : g.members? id = some ids := by
  rw [members?, node?, h]
  rfl

/-- With at least two members it is enough to know the slot of the union. -/
theorem Unites.of_two_le {g g' : Graph δ} {ids : List TypeId} {id : TypeId}
    (hlength : 2 ≤ ids.length)
    (hslot : g'.slot? id = some ⟨" | ".intercalate (ids.map g.display), .union ids⟩)
    (hfound : g.HoldsUnion ids → g' = g)
    (hmade : ¬ g.HoldsUnion ids → id = ⟨g.size⟩ ∧ g'.size = g.size + 1 ∧
      ∀ old, old.index < g.size → g'.slot? old = g.slot? old) : g.Unites ids id g' where
  members := members?_of_slot? hslot
  never := by
    rintro rfl
    simp at hlength
  single := by
    rintro member rfl
    simp at hlength
  slot _ := hslot
  found _ := hfound
  made _ := hmade

namespace Sound

variable {declared : List TypeId} {g : Graph δ}

/-- The table leads to unions in their slots. -/
theorem slot?_of_shared_union (h : g.Sound declared) {ids : List TypeId} {id : TypeId}
    (hentry : (.union ids, id) ∈ g.shared) : ∃ label, g.slot? id = some ⟨label, .union ids⟩ := by
  obtain ⟨⟨label, node⟩, hslot, rfl⟩ := node?_eq_some_iff.1 (h.node?_of_shared hentry)
  exact ⟨label, hslot⟩

/-- A union is there if and only if the table leads to it. -/
theorem holdsUnion_iff (h : g.Sound declared) {members : List TypeId} :
    g.HoldsUnion members ↔ ∃ id, (.union members, id) ∈ g.shared := by
  constructor
  · rintro ⟨id, label, hslot⟩
    exact ⟨id, h.mem_shared_of_union (node?_eq_some_iff.2 ⟨_, hslot, rfl⟩)⟩
  · rintro ⟨id, hentry⟩
    obtain ⟨label, hslot⟩ := h.slot?_of_shared_union hentry
    exact ⟨id, label, hslot⟩

/-- A union that is there is found. -/
theorem unites_of_known (h : g.Sound declared) (hlabelled : g.Labelled) {ids : List TypeId}
    {id : TypeId} (hlength : 2 ≤ ids.length) (hentry : (.union ids, id) ∈ g.shared) :
    g.Unites ids id g := by
  obtain ⟨label, hslot⟩ := h.slot?_of_shared_union hentry
  have hne : ids ≠ [] := List.ne_nil_of_length_pos (by omega)
  obtain rfl := (h.isCanonical hlabelled hslot).label_eq hne
  refine .of_two_le hlength hslot (fun _ => rfl) fun hnone => ?_
  exact absurd (h.holdsUnion_iff.2 ⟨id, hentry⟩) hnone

/-- A union that is not there is made. -/
theorem unites_of_new (h : g.Sound declared) {ids : List TypeId} (hlength : 2 ≤ ids.length)
    (hnone : ∀ id, (.union ids, id) ∉ g.shared) :
    g.Unites ids ⟨g.size⟩ (g.share (.union ids) ⟨g.unionLabel ids, .union ids⟩) := by
  refine .of_two_le hlength (g.slot?_push_size _) (fun hold => ?_) fun _ => ?_
  · obtain ⟨id, hentry⟩ := h.holdsUnion_iff.1 hold
    exact absurd hentry (hnone id)
  · exact ⟨rfl, g.size_push _, fun old hold => slot?_push_of_lt hold⟩

/-- Members that are not unions are united. -/
theorem unites (h : g.Sound declared) (hlabelled : g.Labelled) (ids : List TypeId)
    (hleaf : ∀ m ∈ ids, g.IsLeaf m) :
    ∃ id, (Build.unite ids g).result = .ok id ∧ g.Unites ids id (Build.unite ids g).graph := by
  rcases ids with _ | ⟨a, _ | ⟨b, rest⟩⟩
  · have hnever : g.members? .never = some [] := h.members?_of_shared (h.foundation (by decide))
    exact ⟨.never, rfl, hnever, fun _ => ⟨rfl, rfl⟩, by simp, by simp, by simp, by simp⟩
  · refine ⟨a, rfl, (hleaf a (by simp)).members?_eq, by simp, ?_, by simp, by simp, by simp⟩
    rintro member heq
    exact ⟨List.singleton_inj.1 heq, rfl⟩
  · have hlength : 2 ≤ (a :: b :: rest).length := by simp
    rw [Build.unite_cons_cons]
    cases hlookup : g.shared.lookup (.union (a :: b :: rest)) with
    | some id =>
      rw [Build.place_of_known rfl hlookup]
      exact ⟨id, rfl, h.unites_of_known hlabelled hlength (h.lookup_eq_some_iff.1 hlookup)⟩
    | none =>
      rw [Build.place_of_new rfl hlookup]
      refine ⟨⟨g.size⟩, rfl, h.unites_of_new hlength fun id hentry => ?_⟩
      rw [h.lookup_eq_some_iff.2 hentry] at hlookup
      cases hlookup

variable [Deferral δ]

/-- A union is not formed if one of the types is not there. -/
theorem union_of_missing (h : g.Sound declared) {edges : List (Edge δ)}
    (hmissing : ∃ e ∈ edges, g.size ≤ (g.resolve e).index) :
    Build.union edges g = ⟨.error .dangling, g, []⟩ := by
  obtain ⟨e, he, hindex⟩ := hmissing
  rw [Build.union_apply]
  cases hleaves : gather g.leaves? (edges.map g.resolve) with
  | none => rfl
  | some leaves =>
    obtain ⟨members, hmembers⟩ := exists_of_gather hleaves (List.mem_map_of_mem he)
    rw [h.leaves?_eq] at hmembers
    have hlt := index_lt_of_members? hmembers
    omega

end Sound

end Graph

namespace Run

variable [Deferral δ]

/-- Forming a union, at any point of a run. If one of the types is not there, then nothing is formed
and nothing changes. Otherwise there is one list of all members, and they are united: to `never` if
there are none, to the member itself if there is one, and else to a union with these members and
their labels in the order of the list, which is made only if it is not there. -/
theorem union_outcome (ops : List (Operation (Edge δ) TypeId)) (edges : List (Edge δ)) :
    let g := ((start : Run δ).after ops).graph
    let outcome := Build.union edges g
    ((∃ e ∈ edges, g.size ≤ (g.resolve e).index) →
      outcome.result = .error .dangling ∧ outcome.graph = g) ∧
    ((∀ e ∈ edges, (g.resolve e).index < g.size) →
      ∃ ids id, g.MembersOf edges ids ∧ (∀ ids', g.MembersOf edges ids' → ids' = ids) ∧
        outcome.result = .ok id ∧ g.Unites ids id outcome.graph) := by
  intro g outcome
  have h : g.Sound _ := sound ops
  constructor
  · intro hmissing
    have houtcome : outcome = _ := h.union_of_missing hmissing
    rw [houtcome]
    exact ⟨rfl, rfl⟩
  · intro hids
    obtain ⟨ids, hunion, hord, hleaf, hmem⟩ := h.union_eq_unite hids
    have hmembers : g.MembersOf edges ids := by
      refine ⟨hord.increasing, fun id => ?_⟩
      rw [hmem, Graph.mem_memberSet]
      simp
    obtain ⟨id, hid, hunites⟩ := h.unites (labelled ops) ids hleaf
    rw [← hunion] at hid hunites
    exact ⟨ids, id, hmembers, fun ids' hids' => hids'.unique hmembers, hid, hunites⟩

/-- The union of two objects of one name, one of them inside of another union that is found late,
and of `never` is made of three members. -/
theorem union_outcome_of_namesakes :
    let g := ((start : Run Recipe).after
      [.make (.named "obj" [⟨"x", .direct .int, .none⟩] none .none),
       .make (.named "obj" [⟨"x", .direct .bool, .none⟩] none .none),
       .make (.union [.direct .string, .direct ⟨12⟩])]).graph
    let edges : List (Edge Recipe) := [.deferred .newest, .direct .never, .direct ⟨11⟩]
    (∀ e ∈ edges, (g.resolve e).index < g.size) ∧
      g.MembersOf edges [⟨11⟩, ⟨12⟩, .string] ∧ (Build.union edges g).result = .ok ⟨14⟩ ∧
      g.Unites [⟨11⟩, ⟨12⟩, .string] ⟨14⟩ (Build.union edges g).graph := by
  intro g edges
  have hids : ∀ e ∈ edges, (g.resolve e).index < g.size := by
    simp only [g, after_cons, after_nil, graph_perform_make, graph_start, Graph.fresh_eq]
    decide
  have hresult : (Build.union edges g).result = .ok ⟨14⟩ := by
    simp only [g, after_cons, after_nil, graph_perform_make, graph_start, Graph.fresh_eq]
    rfl
  have hmembers : (Build.union edges g).graph.members? ⟨14⟩ = some [⟨11⟩, ⟨12⟩, .string] := by
    simp only [g, after_cons, after_nil, graph_perform_make, graph_start, Graph.fresh_eq]
    rfl
  obtain ⟨ids, id, hof, -, hid, hunites⟩ := (union_outcome _ edges).2 hids
  obtain rfl : ⟨14⟩ = id := Except.ok.inj (hresult.symm.trans hid)
  obtain rfl := Option.some.inj (hmembers.symm.trans hunites.members)
  exact ⟨hids, hof, hresult, hunites⟩

end Run

end TypeGraph
