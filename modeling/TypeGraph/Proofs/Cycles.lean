import Mathlib.Data.List.Cycle
import TypeGraph.Proofs.Grounding

/-!
# Cycles

Types that are made at once lead to older types only, so that direct edges can form a cycle only
where an object was declared first and defined later.

* `Graph.Descends`: direct edges lead to types that are there, and to older ones unless they leave a
  declared object. It holds after every grounded run (`Run.descends`).
* `Graph.walk`: the types that are found by direct edges, not going beyond those at which to stop.
  Where edges lead to older types unless they leave a type at which to stop, every cycle passes
  through such a type (`Graph.exists_mem_of_chain`), and the depth that a walk needs is bounded by
  the id where it starts (`Graph.walkEnds`).
-/

namespace TypeGraph

open Relation (ReflTransGen)

variable {δ : Type}

namespace Graph

/-- Direct edges lead to types that are there, and to older ones unless they leave a declared
object. -/
def Descends (g : Graph δ) (declared : List TypeId) : Prop :=
  ∀ a b, g.PointsTo a b → b.index < g.size ∧ (a ∉ declared → b.index < a.index)

namespace Descends

variable {declared : List TypeId} {g g' : Graph δ}

theorem fresh : (Graph.fresh : Graph δ).Descends [] := by
  rintro ⟨i⟩ b ⟨node, hnode, hb⟩
  have hi : i < 11 := size_fresh ▸ index_lt_of_node? hnode
  rw [fresh_eq] at hnode
  have hdown : ∀ t ∈ node.targets, t.index < i := by
    interval_cases i <;> obtain rfl := Option.some.inj hnode <;> exact of_decide_eq_true rfl
  have hlt := hdown b hb
  rw [size_fresh]
  exact ⟨by omega, fun _ => hlt⟩

theorem push (h : g.Descends declared) {slot : Slot δ} (hslot : g.Covers slot.node.targets) :
    (g.push slot).Descends declared := by
  rintro a b ⟨node, hnode, hb⟩
  rw [size_push]
  rcases node?_push_cases hnode with ⟨rfl, rfl⟩ | hold
  · have hlt := hslot b hb
    exact ⟨by omega, fun _ => hlt⟩
  · obtain ⟨hlt, hdown⟩ := h a b ⟨node, hold, hb⟩
    exact ⟨by omega, hdown⟩

theorem growth (h : g.Descends declared) (hstep : GroundedGrowth g g') : g'.Descends declared := by
  obtain ⟨hgrowth, hcovers⟩ := hstep
  cases hgrowth with
  | share fits direct unknown => exact h.push (hcovers _ (g.slot?_push_size _))
  | push fits unshared => exact h.push (hcovers _ (g.slot?_push_size _))
  | register name id => exact h

/-- A declared object leads nowhere until it is defined. -/
theorem declare (h : g.Descends declared) (name : String) :
    (g.declare name).Descends (⟨g.size⟩ :: declared) := by
  have hempty : g.Covers (Slot.mk name (.named name .empty) : Slot δ).node.targets := by
    simp [Covers, Node.targets, Body.targets, Body.types, Body.empty]
  intro a b hab
  obtain ⟨hlt, hdown⟩ := h.push hempty a b hab
  exact ⟨hlt, fun ha => hdown fun hmem => ha (List.mem_cons_of_mem _ hmem)⟩

theorem define (h : g.Descends declared) (hs : g.Sound declared) {id : TypeId}
    (hid : id ∈ g.pending) {body : Body (Edge δ)} (hbody : g.Covers body.targets) :
    (g.define id body).Descends declared := by
  rintro a b ⟨node, hnode, hb⟩
  rw [size_define]
  by_cases ha : a = id
  · subst ha
    obtain ⟨slot, hslot, rfl⟩ := node?_eq_some_iff.1 hnode
    rw [slot?_define, if_pos rfl] at hslot
    obtain ⟨old, -, rfl⟩ := Option.map_eq_some_iff.1 hslot
    exact ⟨hbody b hb, fun ha => absurd (hs.pending hid) ha⟩
  · rw [node?_define_of_ne ha] at hnode
    exact h a b ⟨node, hnode, hb⟩

end Descends

/-! ### Following direct edges -/

/-- A direct edge leads on from a type at which not to stop. -/
def Follows (g : Graph δ) (stop : TypeId → Prop) (a b : TypeId) : Prop := ¬ stop a ∧ g.PointsTo a b

/-- The types that are found by following direct edges from an id, this one included. Nothing is
found if the depth does not suffice, or if an id is reached that is not there. -/
def walk (g : Graph δ) (stop : TypeId → Prop) [DecidablePred stop] :
    ℕ → TypeId → Option (List TypeId)
  | 0, _ => none
  | depth + 1, id =>
    match g.node? id with
    | none => none
    | some node =>
      if stop id then some [id]
      else (gather (g.walk stop depth) node.targets).map (id :: ·)

section

variable {g : Graph δ} {stop : TypeId → Prop}

/-- Going round a cycle without stopping, ids would get smaller all the way. -/
theorem exists_mem_of_chain (hdown : ∀ a b, g.Follows stop a b → b.index < a.index)
    {cycle : Cycle TypeId} (hne : cycle ≠ .nil) (hchain : cycle.Chain g.PointsTo) :
    ∃ id ∈ cycle, stop id := by
  by_contra! hnone
  refine hne (Cycle.Chain.eq_nil_of_irrefl (r := fun a b : TypeId => b.index < a.index) ?_)
  induction cycle with
  | nil => trivial
  | cons a ids =>
    rw [Cycle.chain_coe_cons] at hchain ⊢
    refine hchain.imp_of_mem_imp fun x y hx _ hxy => hdown x y ⟨hnone x ?_, hxy⟩
    simpa [or_comm, or_assoc] using hx

variable [DecidablePred stop]

/-- A walk from the id ends: a depth that exceeds the id is enough. It finds exactly what can be
reached. -/
def WalkEnds (g : Graph δ) (stop : TypeId → Prop) [DecidablePred stop] (id : TypeId) : Prop :=
  ∃ found, (∀ depth, id.index < depth → g.walk stop depth id = some found) ∧
    ∀ x, x ∈ found ↔ ReflTransGen (g.Follows stop) id x

theorem walkEnds_of_stop {id : TypeId} {node : Node (Edge δ)} (hnode : g.node? id = some node)
    (hstop : stop id) : g.WalkEnds stop id := by
  refine ⟨[id], fun depth hdepth => ?_, fun x => ?_⟩
  · cases depth with
    | zero => omega
    | succ depth => simp [walk, hnode, hstop]
  · rw [ReflTransGen.cases_head_iff]
    simp [Follows, hstop, eq_comm]

/-- A walk ends if the walks from the targets do, and these are older. -/
theorem walkEnds_of_targets {id : TypeId} {node : Node (Edge δ)} (hnode : g.node? id = some node)
    (hstop : ¬ stop id) (hdown : ∀ t ∈ node.targets, t.index < id.index)
    (h : ∀ t ∈ node.targets, g.WalkEnds stop t) : g.WalkEnds stop id := by
  choose! found hfound hreach using h
  obtain ⟨rest, hrest⟩ : ∃ rest, gather (fun t => some (found t)) node.targets = some rest :=
    exists_gather fun t _ => ⟨found t, rfl⟩
  refine ⟨id :: rest, fun depth hdepth => ?_, fun x => ?_⟩
  · cases depth with
    | zero => omega
    | succ depth =>
      have hgather : gather (g.walk stop depth) node.targets = some rest := by
        rw [← hrest]
        refine gather_congr fun t ht => hfound t ht depth ?_
        have hlt := hdown t ht
        omega
      simp [walk, hnode, hstop, hgather]
  · have hfollows : ∀ t, g.Follows stop id t ↔ t ∈ node.targets := by
      simp [Follows, hstop, PointsTo, hnode]
    rw [ReflTransGen.cases_head_iff, List.mem_cons, mem_gather hrest]
    simp only [hfollows, Option.some.injEq, exists_eq_left', eq_comm (a := x)]
    refine or_congr_right (exists_congr fun t => and_congr_right fun ht => ?_)
    exact hreach t ht x

/-- Where edges lead to older types unless they leave a type at which to stop, every walk ends. -/
theorem walkEnds (hrange : ∀ a b, g.PointsTo a b → b.index < g.size)
    (hdown : ∀ a b, g.Follows stop a b → b.index < a.index) {id : TypeId}
    (hid : id.index < g.size) : g.WalkEnds stop id := by
  induction hi : id.index using Nat.strong_induction_on generalizing id with
  | h i ih =>
    subst hi
    obtain ⟨slot, hslot⟩ := exists_slot? hid
    have hnode : g.node? id = some slot.node := node?_eq_some_iff.2 ⟨slot, hslot, rfl⟩
    by_cases hstop : stop id
    · exact walkEnds_of_stop hnode hstop
    · have hlt : ∀ t ∈ slot.node.targets, t.index < id.index :=
        fun t ht => hdown id t ⟨hstop, slot.node, hnode, ht⟩
      refine walkEnds_of_targets hnode hstop hlt fun t ht => ?_
      exact ih t.index (hlt t ht) (hrange id t ⟨slot.node, hnode, ht⟩) rfl

end

end Graph

/-! ### Runs -/

namespace Run

/-- The declared objects are those of which the history tells. -/
theorem mem_declared_iff {r : Run δ} {id : TypeId} :
    id ∈ r.declared ↔ ∃ name, .declared id name ∈ r.milestones := by
  have hentry : ∀ entry : Operation (Edge δ) TypeId × Except Failure Answer,
      declaredBy entry = some id ↔ ∃ name, milestone? entry = some (.declared id name) := by
    rintro ⟨op, result⟩
    cases op <;> cases result <;> simp [declaredBy, milestone?]
  simp only [declared, milestones, List.mem_filterMap, hentry]
  constructor
  · rintro ⟨entry, hmem, name, h⟩
    exact ⟨name, entry, hmem, h⟩
  · rintro ⟨name, entry, hmem, h⟩
    exact ⟨entry, hmem, name, h⟩

variable [Deferral δ]

theorem descends {ops : List (Operation (Edge δ) TypeId)} (hops : (start : Run δ).Grounded ops) :
    ((start : Run δ).after ops).graph.Descends ((start : Run δ).after ops).declared := by
  refine Grounded.induction (P := fun declared g => g.Descends declared) (r := start)
    (fun _ h hstep => h.growth hstep) (fun name _ h => h.declare name)
    (fun body hs h hid hbody => h.define hs hid hbody) (sound []) ?_ hops
  rw [graph_start, declared_start]
  exact Graph.Descends.fresh

/-- Direct edges lead to older types, unless they leave an object that was declared and defined: a
pending object has none. -/
theorem index_lt_of_pointsTo {ops : List (Operation (Edge δ) TypeId)}
    (hops : (start : Run δ).Grounded ops) {a b : TypeId}
    (hab : ((start : Run δ).after ops).graph.PointsTo a b)
    (ha : .defined a ∉ ((start : Run δ).after ops).milestones) : b.index < a.index := by
  refine (descends hops a b hab).2 fun hdeclared => ?_
  obtain ⟨name, hname⟩ := mem_declared_iff.1 hdeclared
  have hstep := inStep (δ := δ) ops
  have hslot := hstep.slot hname ((hstep.pending_iff a).2 ⟨⟨name, hname⟩, ha⟩)
  obtain ⟨node, hnode, hb⟩ := hab
  obtain ⟨slot, hslot', rfl⟩ := Graph.node?_eq_some_iff.1 hnode
  obtain rfl := Option.some.inj (hslot.symm.trans hslot')
  cases hb

/-- After every grounded run, direct edges lead to types that are there, and to older ones unless
they leave a declared object. Hence every cycle of direct edges passes through an object that was
declared and defined, and a walk that stops at such objects ends, whatever type it starts from. -/
theorem cycles_need_definitions (ops : List (Operation (Edge δ) TypeId)) :
    let r := (start : Run δ).after ops
    let isDefined : TypeId → Prop := fun id => .defined id ∈ r.milestones
    (start : Run δ).Grounded ops →
    (∀ a b, r.graph.PointsTo a b →
      b.index < r.graph.size ∧ (a ∉ r.declared → b.index < a.index)) ∧
    (∀ cycle : Cycle TypeId, cycle ≠ .nil → cycle.Chain r.graph.PointsTo →
      ∃ id ∈ cycle, id ∈ r.declared ∧ isDefined id) ∧
    (∀ id : TypeId, id.index < r.graph.size →
      ∃ found, (∀ depth, id.index < depth → r.graph.walk isDefined depth id = some found) ∧
        ∀ x, x ∈ found ↔ ReflTransGen (r.graph.Follows isDefined) id x) := by
  intro r isDefined hops
  have hdown : ∀ a b, r.graph.Follows isDefined a b → b.index < a.index :=
    fun a b hab => index_lt_of_pointsTo hops hab.2 hab.1
  refine ⟨descends hops, fun cycle hne hchain => ?_, fun id hid => ?_⟩
  · obtain ⟨id, hmem, hdefined⟩ := Graph.exists_mem_of_chain hdown hne hchain
    exact ⟨id, hmem, mem_declared_iff.2 ((inStep ops).of_defined hdefined), hdefined⟩
  · exact Graph.walkEnds (fun a b hab => (descends hops a b hab).1) hdown hid

/-- An object and the array of it form a cycle once the object is defined. The cycle passes through
the object, and a walk from the array ends there. -/
theorem cycles_need_definitions_of_array :
    let ops : List (Operation (Edge Recipe) TypeId) :=
      [.declare "A", .make (.array (.direct ⟨11⟩)),
       .define ⟨11⟩ [⟨"rest", .direct ⟨12⟩, .none⟩, ⟨"last", .deferred .newest, .none⟩] none .none]
    let r := (start : Run Recipe).after ops
    let cycle : Cycle TypeId := ([⟨11⟩, ⟨12⟩] : List TypeId)
    (start : Run Recipe).Grounded ops ∧ cycle.Chain r.graph.PointsTo ∧
      (∃ id ∈ cycle, id ∈ r.declared ∧ .defined id ∈ r.milestones) ∧
      ∀ depth, 12 < depth →
        r.graph.walk (fun id => .defined id ∈ r.milestones) depth ⟨12⟩ = some [⟨12⟩, ⟨11⟩] := by
  intro ops r cycle
  have hnodes : r.graph.node? ⟨11⟩ = some (.named "A" ⟨[⟨"rest", .direct ⟨12⟩, .none⟩,
        ⟨"last", .deferred .newest, .none⟩], none, .none⟩) ∧
      r.graph.node? ⟨12⟩ = some (.array (some ⟨11⟩)) := by
    simp only [r, ops, after_cons, after_nil, perform, graph_start, Graph.fresh_eq]
    exact ⟨rfl, rfl⟩
  have hops : (start : Run Recipe).Grounded ops := by
    simp only [ops, Grounded, perform, graph_start, Graph.fresh_eq]
    decide
  have hchain : cycle.Chain r.graph.PointsTo := by
    have hobject : r.graph.PointsTo ⟨11⟩ ⟨12⟩ := ⟨_, hnodes.1, by decide⟩
    have harray : r.graph.PointsTo ⟨12⟩ ⟨11⟩ := ⟨_, hnodes.2, by decide⟩
    rw [Cycle.chain_coe_cons]
    simp [hobject, harray]
  obtain ⟨-, hcycle, hwalk⟩ := cycles_need_definitions ops hops
  obtain ⟨found, hfound, -⟩ := hwalk ⟨12⟩ (Graph.index_lt_of_node? hnodes.2)
  have hfirst : r.graph.walk (fun id => .defined id ∈ r.milestones) 13 ⟨12⟩ =
      some [⟨12⟩, ⟨11⟩] := by
    simp only [r, ops, after_cons, after_nil, perform, start, Graph.fresh_eq]
    rfl
  obtain rfl := Option.some.inj ((hfound 13 (by decide)).symm.trans hfirst)
  exact ⟨hops, hchain, hcycle cycle (by simp [cycle]) hchain, hfound⟩

end Run

end TypeGraph
