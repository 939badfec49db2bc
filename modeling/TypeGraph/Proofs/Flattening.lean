import TypeGraph.Proofs.Members
import TypeGraph.Recipe

/-!
# Opening nested unions

A union is opened by opening its members, one after the other, and any other type is put at the end
of the list that is made. `Graph.Opens` is this recursion without a limit on its depth: it follows
the ids wherever they lead, and there is a derivation only if it comes to an end and meets no id
without a type.

* `Graph.opens_iff`: in every graph, it comes to an end if and only if some depth is enough for
  `Graph.leavesWithin`, and then both give the same types.
* `Graph.Sound.opens_iff`: in a sound graph it comes to an end for every type, and gives its
  members.
-/

namespace TypeGraph

variable {δ : Type}

namespace Graph

/-- Opening the given types in order brings the list `out` to `out'`. -/
inductive Opens (g : Graph δ) : (ids out out' : List TypeId) → Prop
  | nil {out : List TypeId} : Opens g [] out out
  | leaf {id : TypeId} {ids out out' : List TypeId} (isLeaf : g.IsLeaf id)
      (rest : Opens g ids (out ++ [id]) out') : Opens g (id :: ids) out out'
  | union {id : TypeId} {members ids out mid out' : List TypeId}
      (node : g.node? id = some (.union members)) (opened : Opens g members out mid)
      (rest : Opens g ids mid out') : Opens g (id :: ids) out out'

/-! ### Depth -/

/-- What is found within some depth is found within every greater one. -/
theorem leavesWithin_mono {g : Graph δ} {depth depth' : ℕ} {id : TypeId} {leaves : List TypeId}
    (hle : depth ≤ depth') (h : g.leavesWithin depth id = some leaves) :
    g.leavesWithin depth' id = some leaves := by
  induction depth generalizing depth' id leaves with
  | zero => cases h
  | succ depth ih =>
    obtain ⟨depth', rfl⟩ := Nat.exists_eq_succ_of_ne_zero (by omega : depth' ≠ 0)
    rcases leavesWithin_cases h with ⟨hid, rfl⟩ | ⟨members, hnode, hmembers⟩
    · exact leavesWithin_of_isLeaf hid
    · rw [leavesWithin_union hnode]
      exact gather_mono (fun m _ l hl => ih (by omega) hl) hmembers

/-! ### Opening with and without a limit -/

theorem opens_of_gather {g : Graph δ} {depth : ℕ} {ids leaves : List TypeId}
    (h : gather (g.leavesWithin depth) ids = some leaves) (out : List TypeId) :
    g.Opens ids out (out ++ leaves) := by
  -- one level down to the members of a union, and along the list otherwise
  induction depth using Nat.strong_induction_on generalizing ids leaves out with
  | _ depth ihdepth =>
    induction ids generalizing leaves out with
    | nil =>
      obtain rfl : [] = leaves := Option.some.inj h
      rw [List.append_nil]
      exact .nil
    | cons id ids ih =>
      obtain ⟨first, rest, hid, hids, rfl⟩ := gather_cons_eq_some_iff.1 h
      rw [← List.append_assoc]
      cases depth with
      | zero => cases hid
      | succ depth =>
        rcases leavesWithin_cases hid with ⟨hleaf, rfl⟩ | ⟨members, hnode, hmembers⟩
        · exact .leaf hleaf (ih hids _)
        · exact .union hnode (ihdepth depth (by omega) hmembers out) (ih hids _)

theorem exists_gather_of_opens {g : Graph δ} {ids out out' : List TypeId}
    (h : g.Opens ids out out') :
    ∃ depth leaves, gather (g.leavesWithin depth) ids = some leaves ∧ out' = out ++ leaves := by
  induction h with
  | nil => exact ⟨0, [], rfl, (List.append_nil _).symm⟩
  | @leaf id ids out out' isLeaf _ ih =>
    obtain ⟨depth, leaves, hleaves, rfl⟩ := ih
    refine ⟨depth + 1, id :: leaves, ?_, by simp⟩
    refine gather_cons_eq_some_iff.2 ⟨[id], leaves, leavesWithin_of_isLeaf isLeaf, ?_, rfl⟩
    exact gather_mono (fun _ _ _ => leavesWithin_mono (by omega)) hleaves
  | @union id members ids out mid out' node _ _ ihmembers ihrest =>
    obtain ⟨depth₁, first, hfirst, rfl⟩ := ihmembers
    obtain ⟨depth₂, rest, hrest, rfl⟩ := ihrest
    refine ⟨max depth₁ depth₂ + 1, first ++ rest, ?_, by simp⟩
    refine gather_cons_eq_some_iff.2 ⟨first, rest, ?_, ?_, rfl⟩
    · rw [leavesWithin_union node]
      exact gather_mono (fun _ _ _ => leavesWithin_mono (by omega)) hfirst
    · exact gather_mono (fun _ _ _ => leavesWithin_mono (by omega)) hrest

/-- The recursion comes to an end if and only if some depth is enough. -/
theorem opens_iff {g : Graph δ} {ids out out' : List TypeId} :
    g.Opens ids out out' ↔
      ∃ depth leaves, gather (g.leavesWithin depth) ids = some leaves ∧ out' = out ++ leaves := by
  refine ⟨exists_gather_of_opens, ?_⟩
  rintro ⟨depth, leaves, hleaves, rfl⟩
  exact opens_of_gather hleaves out

/-- An id without a type cannot be opened. -/
theorem not_opens_of_size_le {g : Graph δ} {id : TypeId} (hid : g.size ≤ id.index)
    (out out' : List TypeId) : ¬ g.Opens [id] out out' := by
  have hnode : g.node? id = none := by rw [node?, slot?_eq_none_iff.2 hid, Option.map_none]
  intro hopens
  cases hopens with
  | leaf isLeaf _ =>
    obtain ⟨node, hsome, -⟩ := isLeaf
    rw [hnode] at hsome
    cases hsome
  | union hsome _ _ =>
    rw [hnode] at hsome
    cases hsome

/-! ### Sound graphs -/

theorem Ordered.nodup {g : Graph δ} {ids : List TypeId} (h : g.Ordered ids) : ids.Nodup := by
  refine List.Pairwise.imp ?_ h
  rintro a b hlt rfl
  exact lt_irrefl _ hlt

namespace Sound

variable {declared : List TypeId} {g : Graph δ}

/-- Opening a type always comes to an end, and puts its members at the end of the list. -/
theorem opens_iff (h : g.Sound declared) {id : TypeId} {members : List TypeId}
    (hmembers : g.members? id = some members) {out out' : List TypeId} :
    g.Opens [id] out out' ↔ out' = out ++ members := by
  simp only [Graph.opens_iff, gather_one]
  constructor
  · rintro ⟨depth, leaves, hleaves, rfl⟩
    -- the depth that was enough may be less than the id
    have hdeep := leavesWithin_mono (Nat.le_max_left depth (id.index + 1)) hleaves
    rw [h.leavesWithin_eq (by omega), hmembers] at hdeep
    rw [Option.some.inj hdeep]
  · rintro rfl
    refine ⟨id.index + 1, members, ?_, rfl⟩
    rw [h.leavesWithin_eq (Nat.lt_succ_self id.index), hmembers]

end Sound

end Graph

namespace Run

variable [Deferral δ]

/-- Opening the type with the given id, at any point of a run. If there is such a type, then the
recursion comes to an end and meets no id without a type, whatever the list is that it adds to. It
adds the members of the type, in their order and none of them twice, and every depth beyond the id
is enough for it. If there is no such type, then the recursion fails. -/
theorem opening_gives_members (ops : List (Operation (Edge δ) TypeId)) (id : TypeId) :
    let g := ((start : Run δ).after ops).graph
    (id.index < g.size → ∃ members, g.members? id = some members ∧ members.Nodup ∧
      (∀ out out', g.Opens [id] out out' ↔ out' = out ++ members) ∧
      ∀ depth, id.index < depth → g.leavesWithin depth id = some members) ∧
    (g.size ≤ id.index → g.leaves? id = none ∧ ∀ out out', ¬ g.Opens [id] out out') := by
  intro g
  have h : g.Sound _ := sound ops
  constructor
  · intro hid
    obtain ⟨members, hmembers⟩ := Graph.exists_members? hid
    have hnodup := (h.of_members? hmembers).1.nodup
    refine ⟨members, hmembers, hnodup, fun _ _ => h.opens_iff hmembers, ?_⟩
    intro depth hdepth
    rw [h.leavesWithin_eq hdepth, hmembers]
  · intro hid
    refine ⟨?_, Graph.not_opens_of_size_le hid⟩
    rw [h.leaves?_eq, Option.eq_none_iff_forall_ne_some]
    intro members hmembers
    have hlt := Graph.index_lt_of_members? hmembers
    omega

/-- A union around a union with a member that was declared and has been defined since. -/
theorem opening_gives_members_across_definition :
    let g := ((start : Run Recipe).after
      [.declare "k", .make (.union [.direct .string, .direct ⟨11⟩]),
       .make (.union [.direct ⟨12⟩, .direct .never, .direct .int]),
       .define ⟨11⟩ [⟨"p", .direct ⟨13⟩, .none⟩] none .none]).graph
    (⟨13⟩ : TypeId).index < g.size ∧
      g.Opens [⟨13⟩] [.string] [.string, .int, ⟨11⟩, .string] ∧
      ∀ depth, 13 < depth → g.leavesWithin depth ⟨13⟩ = some [.int, ⟨11⟩, .string] := by
  intro g
  have hgraph : g.size = 14 ∧ g.members? ⟨13⟩ = some [.int, ⟨11⟩, .string] := by
    simp only [g, after_cons, after_nil, perform, graph_start, Graph.fresh_eq]
    exact ⟨rfl, rfl⟩
  have hlt : (⟨13⟩ : TypeId).index < g.size := by
    rw [hgraph.1]
    decide
  obtain ⟨members, hmembers, -, hopens, hdepth⟩ := (opening_gives_members _ ⟨13⟩).1 hlt
  obtain rfl := Option.some.inj (hgraph.2.symm.trans hmembers)
  exact ⟨hlt, (hopens _ _).2 rfl, hdepth⟩

end Run

end TypeGraph
