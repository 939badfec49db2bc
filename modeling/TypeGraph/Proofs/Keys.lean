import Mathlib.Data.List.Basic
import TypeGraph.Node

/-!
# Keys of shared types

`Node.direct?` gives the key under which a type is shared. A key says all there is to say about its
type: `direct?_eq_some_iff` rebuilds the node from it. The nodes without a key are those in
`Node.Unshared`: discriminated objects, and objects with a deferred edge.
-/

namespace TypeGraph

variable {δ : Type}

theorem Edge.direct?_eq_some_iff {e : Edge δ} {target : TypeId} :
    e.direct? = some target ↔ e = .direct target := by
  cases e <;> simp [direct?]

theorem Property.direct?_eq_some_iff {ps : List (Property (Edge δ))} {qs : List (Property TypeId)} :
    Property.direct? ps = some qs ↔ ps = qs.map (Property.map .direct) := by
  induction ps generalizing qs with
  | nil => cases qs <;> simp [direct?]
  | cons p ps ih =>
    obtain ⟨name, type, flags⟩ := p
    constructor
    · intro h
      rw [direct?] at h
      split at h
      · rename_i target rest htarget hrest
        obtain rfl := Option.some.inj h
        rw [List.map_cons, ← ih.1 hrest]
        obtain rfl := Edge.direct?_eq_some_iff.1 htarget
        rfl
      · cases h
    · intro h
      cases qs with
      | nil => cases h
      | cons q qs =>
        obtain ⟨hq, hqs⟩ := List.cons.inj h
        rw [direct?, ih.2 hqs, hq]
        rfl

namespace Body

theorem direct?_eq_some_iff {body : Body (Edge δ)} {key : Body TypeId} :
    body.direct? = some key ↔ body = key.map .direct := by
  obtain ⟨ps, additional, flags⟩ := body
  obtain ⟨qs, target, flags'⟩ := key
  have hps : Property.direct? ps = some qs ↔ ps = qs.map (Property.map .direct) :=
    Property.direct?_eq_some_iff
  simp only [map, mk.injEq, ← hps]
  unfold direct?
  rcases Property.direct? ps with _ | qs' <;> rcases additional with _ | (_ | _) <;>
    rcases target with _ | _ <;> simp

/-- Some edge of the body is deferred. -/
def HasDeferred (body : Body (Edge δ)) : Prop :=
  (∃ p ∈ body.properties, p.type.isDeferred = true) ∨
    ∃ e ∈ body.additional, e.isDeferred = true

end Body

theorem Property.direct?_eq_none_iff {ps : List (Property (Edge δ))} :
    Property.direct? ps = none ↔ ∃ p ∈ ps, p.type.isDeferred = true := by
  induction ps with
  | nil => simp [direct?]
  | cons p ps ih =>
    obtain ⟨name, type, flags⟩ := p
    rw [List.exists_mem_cons_iff, ← ih, direct?]
    cases type <;> cases Property.direct? ps <;> simp [Edge.direct?, Edge.isDeferred]

theorem Body.direct?_eq_none_iff {body : Body (Edge δ)} :
    body.direct? = none ↔ body.HasDeferred := by
  obtain ⟨ps, additional, flags⟩ := body
  have hps : Property.direct? ps = none ↔ ∃ p ∈ ps, p.type.isDeferred = true :=
    Property.direct?_eq_none_iff
  simp only [HasDeferred, ← hps]
  unfold direct?
  rcases Property.direct? ps with _ | qs' <;> rcases additional with _ | (_ | _) <;>
    simp [Edge.isDeferred]

namespace Node

/-- The type is not of a kind that is shared: it is a discriminated object, or an object with a
deferred edge. -/
def Unshared : Node (Edge δ) → Prop
  | object body => body.HasDeferred
  | named _ body => body.HasDeferred
  | discriminated _ _ _ => True
  | _ => False

theorem direct?_eq_none_iff {node : Node (Edge δ)} : node.direct? = none ↔ node.Unshared := by
  cases node <;> simp [direct?, Unshared, Body.direct?_eq_none_iff]

/-- A key determines its node, and only discriminated objects are the key of nothing. -/
theorem direct?_eq_some_iff {node : Node (Edge δ)} {key : Node TypeId} :
    node.direct? = some key ↔ node = key.map .direct ∧ key.variants? = none := by
  cases node <;> cases key <;>
    simp [direct?, map, variants?, Body.direct?_eq_some_iff, and_comm]

end Node

end TypeGraph
