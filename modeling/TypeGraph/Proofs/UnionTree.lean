import TypeGraph.Proofs.Members
import TypeGraph.Recipe

/-!
# Trees of unions

A `UnionTree` nests unions: its leaves are edges and its inner nodes are unions, which are formed
from the inside out. What a tree gives depends on the members of its leaves alone
(`Run.eval_eq_iff`), wherever in a run it is formed.
-/

namespace TypeGraph

variable {δ : Type}

/-- Unions in unions. -/
inductive UnionTree (α : Type) where
  | leaf (type : α)
  | node (parts : List (UnionTree α))

namespace UnionTree

/-- What holds of leaves, and of nodes with parts of which it holds, holds of all trees. -/
theorem ind {α : Type} {motive : UnionTree α → Prop} (leaf : ∀ type, motive (.leaf type))
    (node : ∀ parts, (∀ t ∈ parts, motive t) → motive (.node parts)) (t : UnionTree α) :
    motive t := by
  refine @UnionTree.rec α motive (fun parts => ∀ t ∈ parts, motive t) leaf node ?_ ?_ t
  · simp
  · intro part parts hpart hparts
    simpa using ⟨hpart, hparts⟩

variable [Deferral δ]

mutual

/-- Form the unions of a tree from the inside out. A leaf is followed when the union around it is
formed. -/
def build : UnionTree (Edge δ) → Build δ (Edge δ)
  | leaf edge => return edge
  | node parts => do return .direct (← Build.union (← buildAll parts))

/-- Form the unions of several trees one after the other. -/
def buildAll : List (UnionTree (Edge δ)) → Build δ (List (Edge δ))
  | [] => return []
  | part :: parts => do
    let edge ← build part
    let edges ← buildAll parts
    return edge :: edges

end

/-- The type that a tree gives. -/
def eval (t : UnionTree (Edge δ)) : Build δ TypeId := do
  let edge ← t.build
  Build.read (·.resolve edge)

mutual

/-- The types that the leaves of a tree lead to, if each of them leads to one. The unions are formed
from the graph `start` on, and the tree is a part of a union that is formed in the graph
`around`. -/
def targets? : UnionTree (Edge δ) → (start around : Graph δ) → Option (List TypeId)
  | leaf edge, _, around =>
    if (around.resolve edge).index < around.size then some [around.resolve edge] else none
  | node parts, start, _ => targetsAll? parts start (buildAll parts start).graph

/-- The types that the leaves of several trees lead to. -/
def targetsAll? : List (UnionTree (Edge δ)) → (start around : Graph δ) → Option (List TypeId)
  | [], _, _ => some []
  | part :: parts, start, around =>
    match targets? part start around, targetsAll? parts (build part start).graph around with
    | some ids, some rest => some (ids ++ rest)
    | _, _ => none

end

/-- The types that the leaves of a tree lead to when it is formed in `g`. -/
def leafTypes? (t : UnionTree (Edge δ)) (g : Graph δ) : Option (List TypeId) :=
  t.targets? g (t.build g).graph

/-! ### Forming trees in a sound graph -/

theorem grows_buildAll {parts : List (UnionTree (Edge δ))}
    (h : ∀ t ∈ parts, ∀ g, Grows g (t.build g).graph) (g : Graph δ) :
    Grows g (buildAll parts g).graph := by
  induction parts generalizing g with
  | nil => exact .refl
  | cons part parts ih =>
    rw [buildAll]
    refine Build.grows_bind (h part (by simp) g) fun edge _ => ?_
    exact Build.grows_bind (ih (fun t ht => h t (List.mem_cons_of_mem _ ht)) _) fun _ _ => .refl

theorem grows_build (t : UnionTree (Edge δ)) (g : Graph δ) : Grows g (t.build g).graph := by
  induction t using ind generalizing g with
  | leaf edge => exact .refl
  | node parts ih =>
    rw [build]
    refine Build.grows_bind (grows_buildAll ih g) fun edges _ => ?_
    exact Build.grows_bind (Build.grows_union edges _) fun _ _ => .refl

/-- The graph after the first of several trees is older than the one after all of them. -/
theorem grows_buildAll_cons (part : UnionTree (Edge δ)) (parts : List (UnionTree (Edge δ)))
    (g : Graph δ) : Grows (part.build g).graph (buildAll (part :: parts) g).graph := by
  rw [buildAll]
  refine Build.grows_bind_right fun edge _ => ?_
  exact Build.grows_bind (grows_buildAll (fun t _ => t.grows_build) _) fun _ _ => .refl

theorem buildAll_cons_of_ok {part : UnionTree (Edge δ)} {g : Graph δ} {edge : Edge δ}
    (h : (part.build g).result = .ok edge) (parts : List (UnionTree (Edge δ))) :
    (buildAll (part :: parts) g).graph = (buildAll parts (part.build g).graph).graph ∧
      ∀ edges, (buildAll parts (part.build g).graph).result = .ok edges →
        (buildAll (part :: parts) g).result = .ok (edge :: edges) := by
  rw [buildAll]
  constructor
  · rw [Build.graph_bind h]
    cases hrest : buildAll parts (part.build g).graph with
    | mk result g' events =>
      cases result with
      | error failure => rw [Build.bind_apply_error hrest]
      | ok edges =>
        rw [Build.bind_apply_ok hrest]
        rfl
  · intro edges hedges
    rw [Build.result_bind h, Build.result_bind hedges]
    rfl

/-- What forming a tree in `g` comes to, where the union around it is formed in the later graph
`around`: an edge that leads to a type with the members of the leaves. -/
def Formed (t : UnionTree (Edge δ)) : Prop :=
  ∀ {declared : List TypeId} {g around : Graph δ} {ids : List TypeId}, g.Sound declared →
    (t.build g).graph.Extends around → t.targets? g around = some ids →
    ∃ edge, (t.build g).result = .ok edge ∧ (∀ id ∈ ids, id.index < around.size) ∧
      (around.resolve edge).index < around.size ∧
      around.memberSet [around.resolve edge] = around.memberSet ids

theorem formedAll {parts : List (UnionTree (Edge δ))} (h : ∀ t ∈ parts, t.Formed)
    {declared : List TypeId} {g around : Graph δ} {ids : List TypeId} (hg : g.Sound declared)
    (hext : (buildAll parts g).graph.Extends around)
    (hids : targetsAll? parts g around = some ids) :
    ∃ edges, (buildAll parts g).result = .ok edges ∧ (∀ id ∈ ids, id.index < around.size) ∧
      (∀ e ∈ edges, (around.resolve e).index < around.size) ∧
      around.memberSet (edges.map around.resolve) = around.memberSet ids := by
  induction parts generalizing g ids with
  | nil =>
    obtain rfl : [] = ids := by simpa [targetsAll?] using hids
    exact ⟨[], rfl, by simp, by simp, rfl⟩
  | cons part parts ih =>
    rw [targetsAll?] at hids
    split at hids
    · rename_i first rest hfirst hrest
      obtain rfl := Option.some.inj hids
      obtain ⟨hg₁, -⟩ := hg.grows (part.grows_build g)
      have hext₁ : (part.build g).graph.Extends around :=
        (hg₁.grows (grows_buildAll_cons part parts g)).2.trans hext
      obtain ⟨edge, hedge, hin₁, hrange₁, hset₁⟩ := h part (by simp) hg hext₁ hfirst
      obtain ⟨hgraph, hresult⟩ := buildAll_cons_of_ok hedge parts
      obtain ⟨edges, hedges, hin₂, hrange₂, hset₂⟩ :=
        ih (fun t ht => h t (List.mem_cons_of_mem _ ht)) hg₁ (hgraph ▸ hext) hrest
      refine ⟨edge :: edges, hresult edges hedges, ?_, ?_, ?_⟩
      · intro id hid
        rcases List.mem_append.1 hid with hid | hid
        · exact hin₁ id hid
        · exact hin₂ id hid
      · intro e he
        rcases List.mem_cons.1 he with rfl | he
        · exact hrange₁
        · exact hrange₂ e he
      · rw [Graph.memberSet_append, ← hset₁, ← hset₂, ← Graph.memberSet_append]
        rfl
    · cases hids

theorem formed (t : UnionTree (Edge δ)) : t.Formed := by
  induction t using ind with
  | leaf edge =>
    intro declared g around ids hg hext hids
    rw [targets?] at hids
    split_ifs at hids with hlt
    obtain rfl := Option.some.inj hids
    exact ⟨edge, rfl, by simpa using hlt, hlt, rfl⟩
  | node parts ih =>
    intro declared g around ids hg hext hids
    rw [targets?] at hids
    -- the parts are united in the graph that they leave
    set call := (buildAll parts g).graph with hcall
    obtain ⟨hsound, -⟩ := hg.grows (grows_buildAll (fun t _ => t.grows_build) g : Grows g call)
    obtain ⟨edges, hedges, hin, hrange, hset⟩ := formedAll ih hg (.refl call) hids
    obtain ⟨id, g', events, hunion, -, hext', members, hmembers, hmem⟩ :=
      hsound.union_members hrange
    have hbuild : (build (.node parts) g).result = .ok (.direct id) ∧
        (build (.node parts) g).graph = g' := by
      rw [build, Build.result_bind hedges, Build.graph_bind hedges, ← hcall,
        Build.bind_apply_ok hunion]
      exact ⟨rfl, rfl⟩
    rw [hbuild.2] at hext
    have haround : around.members? id = some members := hext.members?_eq hmembers
    refine ⟨.direct id, hbuild.1, ?_, ?_, ?_⟩
    · exact fun x hx => (hext'.trans hext).index_lt (hin x hx)
    · exact Graph.index_lt_of_members? haround
    · ext x
      rw [(hext'.trans hext).memberSet_eq hin, ← hset, ← hmem]
      exact Graph.mem_memberSet_singleton haround

theorem graph_eval (t : UnionTree (Edge δ)) (g : Graph δ) :
    (t.eval g).graph = (t.build g).graph := by
  unfold eval
  cases h : t.build g with
  | mk result g' events =>
    cases result with
    | error failure => rw [Build.bind_apply_error h]
    | ok edge =>
      rw [Build.bind_apply_ok h]
      rfl

/-- A tree whose leaves lead to types gives a type, and its members are those of the leaves. -/
theorem eval_members {declared : List TypeId} {g : Graph δ} (hg : g.Sound declared)
    {t : UnionTree (Edge δ)} {ids : List TypeId} (hids : t.leafTypes? g = some ids) :
    ∃ id, (t.eval g).result = .ok id ∧ (∀ x ∈ ids, x.index < (t.eval g).graph.size) ∧
      id.index < (t.eval g).graph.size ∧
      (t.eval g).graph.memberSet [id] = (t.eval g).graph.memberSet ids := by
  obtain ⟨edge, hedge, hin, hrange, hset⟩ := t.formed hg (.refl _) hids
  rw [graph_eval]
  refine ⟨(t.build g).graph.resolve edge, ?_, hin, hrange, hset⟩
  rw [eval, Build.result_bind hedge]
  rfl

/-! ### Trees whose leaves are direct -/

mutual

/-- The leaves of a tree, from left to right. -/
def leaves {α : Type} : UnionTree α → List α
  | leaf type => [type]
  | node parts => leavesAll parts

/-- The leaves of several trees. -/
def leavesAll {α : Type} : List (UnionTree α) → List α
  | [] => []
  | part :: parts => part.leaves ++ leavesAll parts

end

theorem targetsAll?_direct {parts : List (UnionTree (Edge δ))}
    (h : ∀ t ∈ parts, ∀ {declared : List TypeId} {g around : Graph δ} {ids : List TypeId},
      g.Sound declared → (∀ id ∈ ids, id.index < g.size ∧ id.index < around.size) →
      t.leaves = ids.map .direct → t.targets? g around = some ids)
    {declared : List TypeId} {g around : Graph δ} {ids : List TypeId} (hg : g.Sound declared)
    (hids : ∀ id ∈ ids, id.index < g.size ∧ id.index < around.size)
    (hleaves : leavesAll parts = ids.map .direct) : targetsAll? parts g around = some ids := by
  induction parts generalizing g ids with
  | nil =>
    obtain rfl : ids = [] := by simpa [leavesAll] using hleaves
    rfl
  | cons part parts ih =>
    obtain ⟨first, rest, rfl, hfirst, hrest⟩ := List.append_eq_map_iff.1 hleaves
    obtain ⟨hg₁, hext⟩ := hg.grows (part.grows_build g)
    have hpart : part.targets? g around = some first :=
      h part (by simp) hg (fun id hid => hids id (by simp [hid])) hfirst.symm
    have hparts : targetsAll? parts (part.build g).graph around = some rest := by
      refine ih (fun t ht => h t (List.mem_cons_of_mem _ ht)) hg₁ (fun id hid => ?_) hrest.symm
      obtain ⟨hlt, hlt'⟩ := hids id (by simp [hid])
      exact ⟨hext.index_lt hlt, hlt'⟩
    rw [targetsAll?, hpart, hparts]

/-- Leaves that lead directly to types that are there are what a tree is formed from. -/
theorem targets?_direct (t : UnionTree (Edge δ)) {declared : List TypeId} {g around : Graph δ}
    {ids : List TypeId} (hg : g.Sound declared)
    (hids : ∀ id ∈ ids, id.index < g.size ∧ id.index < around.size)
    (hleaves : t.leaves = ids.map .direct) : t.targets? g around = some ids := by
  induction t using ind generalizing declared g around ids with
  | leaf edge =>
    obtain ⟨id, rfl, rfl⟩ : ∃ id, ids = [id] ∧ edge = .direct id := by
      rw [leaves, eq_comm, List.map_eq_singleton_iff] at hleaves
      obtain ⟨id, rfl, rfl⟩ := hleaves
      exact ⟨id, rfl, rfl⟩
    rw [targets?]
    exact if_pos (hids id (by simp)).2
  | node parts ih =>
    have hgrows : Grows g (buildAll parts g).graph := grows_buildAll (fun t _ => t.grows_build) g
    obtain ⟨-, hext⟩ := hg.grows hgrows
    rw [targets?]
    refine targetsAll?_direct ih hg (fun id hid => ?_) (by rw [← hleaves, leaves])
    have hlt := (hids id hid).1
    exact ⟨hlt, hext.index_lt hlt⟩

theorem leafTypes?_direct (t : UnionTree (Edge δ)) {declared : List TypeId} {g : Graph δ}
    {ids : List TypeId} (hg : g.Sound declared) (hids : ∀ id ∈ ids, id.index < g.size)
    (hleaves : t.leaves = ids.map .direct) : t.leafTypes? g = some ids := by
  have hext := (hg.grows (t.grows_build g)).2
  exact t.targets?_direct hg (fun id hid => ⟨hids id hid, hext.index_lt (hids id hid)⟩) hleaves

/-- The tree of one type that is there. -/
def type (id : TypeId) : UnionTree (Edge δ) := leaf (.direct id)

/-- The union of types that are there. -/
def flat (ids : List TypeId) : UnionTree (Edge δ) := node (ids.map type)

omit [Deferral δ] in
theorem leaves_flat (ids : List TypeId) :
    (flat ids : UnionTree (Edge δ)).leaves = ids.map .direct := by
  rw [flat, leaves]
  induction ids with
  | nil => rfl
  | cons id ids ih =>
    rw [List.map_cons, leavesAll, ih]
    rfl

end UnionTree

namespace Run

open UnionTree (type flat)

variable [Deferral δ]

/-- From the run on, the second tree gives the same type as the first, whatever happens between
them. -/
def Agree (r : Run δ) (t₁ t₂ : UnionTree (Edge δ)) : Prop :=
  ∀ ops, ∃ id, (t₁.eval r.graph).result = .ok id ∧
    (t₂.eval ((r.build t₁.eval).after ops).graph).result = .ok id

/-- Forming a tree keeps a sound graph sound and extends it. -/
theorem sound_eval {r : Run δ} (h : r.graph.Sound r.declared) (t : UnionTree (Edge δ)) :
    (t.eval r.graph).graph.Sound r.declared ∧ r.graph.Extends (t.eval r.graph).graph := by
  rw [UnionTree.graph_eval]
  exact h.grows (t.grows_build r.graph)

/-- Two trees give the same type if and only if their leaves have the same members. -/
theorem eval_eq_iff {r : Run δ} (h : r.graph.Sound r.declared) {t₁ t₂ : UnionTree (Edge δ)}
    {ops : List (Operation (Edge δ) TypeId)} {ids₁ ids₂ : List TypeId}
    (h₁ : t₁.leafTypes? r.graph = some ids₁)
    (h₂ : t₂.leafTypes? ((r.build t₁.eval).after ops).graph = some ids₂) :
    ∃ id₁ id₂, (t₁.eval r.graph).result = .ok id₁ ∧
      (t₂.eval ((r.build t₁.eval).after ops).graph).result = .ok id₂ ∧
      (id₁ = id₂ ↔ (t₁.eval r.graph).graph.memberSet ids₁ =
        (t₂.eval ((r.build t₁.eval).after ops).graph).graph.memberSet ids₂) := by
  obtain ⟨hsound, hext⟩ := sound_after (r := r.build t₁.eval) (sound_eval h t₁).1 ops
  obtain ⟨id₁, hid₁, hin₁, hrange₁, hset₁⟩ := UnionTree.eval_members h h₁
  obtain ⟨id₂, hid₂, hin₂, hrange₂, hset₂⟩ := UnionTree.eval_members hsound h₂
  refine ⟨id₁, id₂, hid₁, hid₂, ?_⟩
  -- both sides are compared in the last graph, which keeps the members of the first tree's leaves
  obtain ⟨hg, hext₂⟩ := sound_eval hsound t₂
  have hlast : (t₁.eval r.graph).graph.Extends _ := hext.trans hext₂
  have hset : Graph.memberSet _ [id₁] = Graph.memberSet _ ids₁ :=
    calc Graph.memberSet _ [id₁]
        = (t₁.eval r.graph).graph.memberSet [id₁] := hlast.memberSet_eq (by simpa using hrange₁)
      _ = (t₁.eval r.graph).graph.memberSet ids₁ := hset₁
      _ = _ := (hlast.memberSet_eq hin₁).symm
  rw [hg.eq_iff_memberSet (hlast.index_lt hrange₁) hrange₂, hset₂, hset]
  exact Eq.congr_left (hlast.memberSet_eq hin₁)

/-- A tree of direct leaves agrees with an earlier tree whose leaves have the same members. -/
theorem agree_of_memberSet_eq {r : Run δ} (h : r.graph.Sound r.declared)
    {t₁ t₂ : UnionTree (Edge δ)} {ids₁ ids₂ : List TypeId}
    (h₁ : t₁.leafTypes? r.graph = some ids₁) (hleaves : t₂.leaves = ids₂.map .direct)
    (hids : ∀ id ∈ ids₂, id.index < (t₁.eval r.graph).graph.size)
    (hset : (t₁.eval r.graph).graph.memberSet ids₁ = (t₁.eval r.graph).graph.memberSet ids₂) :
    r.Agree t₁ t₂ := by
  intro ops
  obtain ⟨hsound, hext⟩ := sound_after (r := r.build t₁.eval) (sound_eval h t₁).1 ops
  have h₂ : t₂.leafTypes? ((r.build t₁.eval).after ops).graph = some ids₂ :=
    t₂.leafTypes?_direct hsound (fun id hid => hext.index_lt (hids id hid)) hleaves
  obtain ⟨id₁, id₂, hid₁, hid₂, hiff⟩ := eval_eq_iff h h₁ h₂
  obtain rfl : id₁ = id₂ := by
    rw [hiff, hset]
    exact ((hext.trans (sound_eval hsound t₂).2).memberSet_eq hids).symm
  exact ⟨id₁, hid₁, hid₂⟩

/-- Two trees of direct leaves agree if their leaves have the same members. -/
theorem agree_of_direct {r : Run δ} (h : r.graph.Sound r.declared) {t₁ t₂ : UnionTree (Edge δ)}
    {ids₁ ids₂ : List TypeId} (h₁ : t₁.leaves = ids₁.map .direct)
    (h₂ : t₂.leaves = ids₂.map .direct) (hids₁ : ∀ id ∈ ids₁, id.index < r.graph.size)
    (hids₂ : ∀ id ∈ ids₂, id.index < r.graph.size)
    (hset : r.graph.memberSet ids₁ = r.graph.memberSet ids₂) : r.Agree t₁ t₂ := by
  obtain ⟨-, hext⟩ := sound_eval h t₁
  refine agree_of_memberSet_eq h (t₁.leafTypes?_direct h hids₁ h₁) h₂
    (fun id hid => hext.index_lt (hids₂ id hid)) ?_
  rw [hext.memberSet_eq hids₁, hext.memberSet_eq hids₂, hset]

/-- Unions are canonical. Two trees of unions that are formed at any two points of a run give the
same type if and only if their leaves have the same members, whatever happens between them. So a
tree gives the type of the flat union of its leaves, and unions are associative, commutative and
idempotent, with `never` as their identity. -/
theorem unions_canonical (ops : List (Operation (Edge δ) TypeId)) :
    let r := (start : Run δ).after ops
    (∀ (t₁ t₂ : UnionTree (Edge δ)) (ops' : List (Operation (Edge δ) TypeId))
      (ids₁ ids₂ : List TypeId),
      let r' := (r.build t₁.eval).after ops'
      t₁.leafTypes? r.graph = some ids₁ → t₂.leafTypes? r'.graph = some ids₂ →
      ∃ id₁ id₂, (t₁.eval r.graph).result = .ok id₁ ∧ (t₂.eval r'.graph).result = .ok id₂ ∧
        (id₁ = id₂ ↔
          (t₁.eval r.graph).graph.memberSet ids₁ = (t₂.eval r'.graph).graph.memberSet ids₂)) ∧
    (∀ (t : UnionTree (Edge δ)) (ids : List TypeId), t.leafTypes? r.graph = some ids →
      r.Agree t (flat ids)) ∧
    (∀ a b c : TypeId, a.index < r.graph.size → b.index < r.graph.size → c.index < r.graph.size →
      r.Agree (.node [.node [type a, type b], type c]) (.node [type a, .node [type b, type c]]) ∧
      r.Agree (.node [type a, type b]) (.node [type b, type a]) ∧
      r.Agree (.node [type a, type a]) (type a) ∧
      r.Agree (.node [type a, type .never]) (type a)) := by
  intro r
  have h : r.graph.Sound r.declared := sound ops
  refine ⟨?_, ?_, ?_⟩
  · intro t₁ t₂ ops' ids₁ ids₂ r' h₁ h₂
    exact eval_eq_iff h h₁ h₂
  · intro t ids hids
    obtain ⟨-, -, hin, -⟩ := UnionTree.eval_members h hids
    exact agree_of_memberSet_eq h hids (UnionTree.leaves_flat ids) hin rfl
  · intro a b c ha hb hc
    have hnever : r.graph.members? .never = some [] :=
      h.members?_of_shared (h.foundation (by decide))
    refine ⟨?_, ?_, ?_, ?_⟩
    · exact agree_of_direct h (rfl : _ = [a, b, c].map _) (rfl : _ = [a, b, c].map _)
        (by simp [ha, hb, hc]) (by simp [ha, hb, hc]) rfl
    · exact agree_of_direct h (rfl : _ = [a, b].map _) (rfl : _ = [b, a].map _)
        (by simp [ha, hb]) (by simp [ha, hb]) (r.graph.memberSet_congr (by simp [or_comm]))
    · exact agree_of_direct h (rfl : _ = [a, a].map _) (rfl : _ = [a].map _)
        (by simp [ha]) (by simp [ha]) (r.graph.memberSet_congr (by simp))
    · refine agree_of_direct h (rfl : _ = [a, .never].map _) (rfl : _ = [a].map _)
        (by simp [ha, Graph.index_lt_of_members? hnever]) (by simp [ha]) ?_
      ext x
      simp [Graph.mem_memberSet, hnever]

/-- A tree over a declared object, `never` and `string` gives the type that the flat union of the
three gives once the object is defined. -/
theorem unions_canonical_across_definition :
    let r := (start : Run Recipe).after [.declare "A"]
    let t : UnionTree (Edge Recipe) := .node [.node [type ⟨11⟩, type .never], type .string]
    let r' := (r.build t.eval).after [.define ⟨11⟩ [] none .none]
    t.leafTypes? r.graph = some [⟨11⟩, .never, .string] ∧
      ∃ id, (t.eval r.graph).result = .ok id ∧
        ((flat [⟨11⟩, .never, .string]).eval r'.graph).result = .ok id := by
  intro r t r'
  have hsize : r.graph.size = 12 := by
    show ((start : Run Recipe).perform (.declare "A")).graph.size = 12
    rw [graph_perform_declare, graph_start]
    exact (Graph.size_push _ _).trans (by rw [Graph.size_fresh])
  have hids : t.leafTypes? r.graph = some [⟨11⟩, .never, .string] := by
    refine t.leafTypes?_direct (sound _) ?_ rfl
    rw [hsize]
    decide
  exact ⟨hids, (unions_canonical _).2.1 t _ hids _⟩

end Run

end TypeGraph
