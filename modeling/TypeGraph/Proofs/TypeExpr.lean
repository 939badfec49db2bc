import Mathlib.Data.Finset.Card
import Mathlib.Data.Finset.Union
import TypeGraph.Graph.Construct
import TypeGraph.Graph.Union
import TypeGraph.Proofs.Properties

/-!
# Type expressions

A `TypeExpr` describes a type by its structure, down to types that are there from the start and to
types that are known by their ids only (`atom`).

* `TypeExpr.build`: the types of an expression are made from the inside out.
* `TypeExpr.normalForm`: a property that is given more than once stays at its first place with its
  last value, and a union becomes the set of its parts that are not unions, or the only such part.
-/

namespace TypeGraph

variable {δ : Type}

/-- The id of a primitive, which every graph holds. -/
def Primitive.id : Primitive → TypeId
  | string => .string
  | int => .int
  | bool => .bool
  | null => .null

/-- A type described by its structure. -/
inductive TypeExpr where
  | any
  | primitive (p : Primitive)
  /-- The array of any items. -/
  | array
  | resource
  | literal (value : String)
  | arrayOf (item : TypeExpr)
  | object (properties : List (Property TypeExpr)) (additional : Option TypeExpr)
  | named (name : String) (properties : List (Property TypeExpr)) (additional : Option TypeExpr)
      (additionalFlags : Flags)
  | union (parts : List TypeExpr)
  /-- A type that is known by its id only. -/
  | atom (id : TypeId)

namespace TypeExpr

/-- The expressions that an expression is made of. -/
def children : TypeExpr → List TypeExpr
  | arrayOf item => [item]
  | object properties additional => Body.types ⟨properties, additional, .none⟩
  | named _ properties additional additionalFlags =>
    Body.types ⟨properties, additional, additionalFlags⟩
  | union parts => parts
  | _ => []

theorem sizeOf_type_lt {p : Property TypeExpr} {ps : List (Property TypeExpr)} (h : p ∈ ps) :
    sizeOf p.type < sizeOf ps := by
  have := List.sizeOf_lt_of_mem h
  cases p
  simp only [Property.mk.sizeOf_spec] at this ⊢
  omega

theorem sizeOf_lt_of_mem_children {c e : TypeExpr} (h : c ∈ e.children) : sizeOf c < sizeOf e := by
  have body : ∀ (ps : List (Property TypeExpr)) (a : Option TypeExpr) {flags : Flags},
      c ∈ Body.types ⟨ps, a, flags⟩ → sizeOf c < sizeOf ps + sizeOf a := by
    intro ps a flags hc
    rcases List.mem_append.1 hc with hc | hc
    · obtain ⟨p, hp, rfl⟩ := List.mem_map.1 hc
      have : sizeOf p.type < sizeOf ps := sizeOf_type_lt hp
      omega
    · obtain rfl := Option.mem_toList.1 hc
      simp only [Option.some.sizeOf_spec]
      omega
  cases e with
  | arrayOf item =>
    obtain rfl : c = item := by simpa [children] using h
    simp
  | object ps a =>
    have := body ps a h
    simp only [object.sizeOf_spec]
    omega
  | named name ps a flags =>
    have := body ps a h
    simp only [named.sizeOf_spec]
    omega
  | union parts =>
    have := List.sizeOf_lt_of_mem (show c ∈ parts from h)
    simp only [union.sizeOf_spec]
    omega
  | _ => simp [children] at h

/-- What holds of every expression if it holds of those that it is made of holds of all. -/
theorem ind {motive : TypeExpr → Prop} (h : ∀ e, (∀ c ∈ e.children, motive c) → motive e)
    (e : TypeExpr) : motive e :=
  h e fun c _ => ind h c
termination_by sizeOf e
decreasing_by exact sizeOf_lt_of_mem_children ‹_›

/-- The types with the given ids are mentioned in an expression as atoms. -/
inductive Mentions : TypeExpr → TypeId → Prop
  | atom (id : TypeId) : Mentions (.atom id) id
  | child {e c : TypeExpr} {id : TypeId} (hc : c ∈ e.children) (h : Mentions c id) : Mentions e id

@[simp] theorem mentions_atom {id a : TypeId} : (atom id).Mentions a ↔ a = id := by
  constructor
  · rintro (_ | ⟨hc, -⟩)
    · rfl
    · cases hc
  · rintro rfl
    exact .atom a

/-- An expression other than an atom mentions what those mention that it is made of. -/
theorem mentions_iff {e : TypeExpr} {a : TypeId} (he : ∀ id, e ≠ .atom id) :
    e.Mentions a ↔ ∃ c ∈ e.children, c.Mentions a := by
  constructor
  · rintro (_ | ⟨hc, ha⟩)
    · exact absurd rfl (he a)
    · exact ⟨_, hc, ha⟩
  · rintro ⟨c, hc, ha⟩
    exact .child hc ha

@[simp] theorem mentions_literal {value : String} {a : TypeId} : ¬ (literal value).Mentions a := by
  rw [mentions_iff (by simp)]
  simp [children]

@[simp] theorem mentions_object {ps : List (Property TypeExpr)} {type : Option TypeExpr}
    {a : TypeId} :
    (object ps type).Mentions a ↔ ∃ c ∈ Body.types ⟨ps, type, .none⟩, c.Mentions a :=
  mentions_iff (by simp)

@[simp] theorem mentions_union {parts : List TypeExpr} {a : TypeId} :
    (union parts).Mentions a ↔ ∃ c ∈ parts, c.Mentions a :=
  mentions_iff (by simp)

/-! ### Normal forms -/

noncomputable instance : DecidableEq TypeExpr := Classical.decEq _

/-- Unions are taken apart. -/
noncomputable def leaves : TypeExpr → Finset TypeExpr
  | union parts => parts.toFinset
  | e => {e}

/-- The union of a set of expressions; of a single one it is that one. -/
noncomputable def ofLeaves (s : Finset TypeExpr) : TypeExpr :=
  match s.toList with
  | [e] => e
  | parts => .union parts

mutual

/-- The expression with properties settled and unions as sets, all the way down. -/
noncomputable def normalForm : TypeExpr → TypeExpr
  | any => .any
  | primitive p => .primitive p
  | array => .array
  | resource => .resource
  | literal value => .literal value
  | arrayOf item => .arrayOf (normalForm item)
  | object properties additional =>
    .object (Property.settle (normalProperties properties)) (normalAdditional additional)
  | named name properties additional additionalFlags =>
    .named name (Property.settle (normalProperties properties)) (normalAdditional additional)
      additionalFlags
  | union parts => ofLeaves ((normalParts parts).toFinset.biUnion leaves)
  | atom id => .atom id

/-- The properties with their types in normal form. -/
noncomputable def normalProperties : List (Property TypeExpr) → List (Property TypeExpr)
  | [] => []
  | ⟨name, type, flags⟩ :: ps => ⟨name, normalForm type, flags⟩ :: normalProperties ps

/-- The type of all other properties in normal form. -/
noncomputable def normalAdditional : Option TypeExpr → Option TypeExpr
  | none => none
  | some type => some (normalForm type)

/-- The parts of a union in normal form. -/
noncomputable def normalParts : List TypeExpr → List TypeExpr
  | [] => []
  | part :: parts => normalForm part :: normalParts parts

end

theorem normalProperties_eq_map (ps : List (Property TypeExpr)) :
    normalProperties ps = ps.map (Property.map normalForm) := by
  induction ps with
  | nil => rfl
  | cons p ps ih =>
    rw [normalProperties, ih]
    rfl

theorem normalAdditional_eq_map (type : Option TypeExpr) :
    normalAdditional type = type.map normalForm := by
  cases type with
  | none => rfl
  | some type => rfl

theorem normalParts_eq_map (parts : List TypeExpr) : normalParts parts = parts.map normalForm := by
  induction parts with
  | nil => rfl
  | cons part parts ih => rw [normalParts, ih, List.map_cons]

/-- An expression is a union. -/
def IsUnion : TypeExpr → Prop
  | union _ => True
  | _ => False

/-- Unions at the top of an expression are sets of other expressions, and not of a single one. -/
def Settled : TypeExpr → Prop
  | union parts =>
    parts.toFinset.toList = parts ∧ parts.length ≠ 1 ∧ ∀ part ∈ parts, ¬ part.IsUnion
  | _ => True

/-- An expression with settled unions all the way down. -/
inductive Normal : TypeExpr → Prop
  | intro {e : TypeExpr} (children : ∀ c ∈ e.children, Normal c) (settled : e.Settled) : Normal e

theorem leaves_of_not_isUnion {e : TypeExpr} (h : ¬ e.IsUnion) : e.leaves = {e} := by
  cases e with
  | union parts => exact absurd trivial h
  | _ => rfl

theorem Normal.of_mem_leaves {e l : TypeExpr} (h : Normal e) (hl : l ∈ e.leaves) :
    Normal l ∧ ¬ l.IsUnion := by
  by_cases he : e.IsUnion
  · cases e with
    | union parts =>
      obtain ⟨hchildren, hsettled⟩ := h
      have hl : l ∈ parts := List.mem_toFinset.1 hl
      exact ⟨hchildren l hl, hsettled.2.2 l hl⟩
    | _ => exact absurd he (by simp [IsUnion])
  · rw [leaves_of_not_isUnion he, Finset.mem_singleton] at hl
    subst hl
    exact ⟨h, he⟩

theorem ofLeaves_singleton (e : TypeExpr) : ofLeaves {e} = e := by
  simp [ofLeaves]

theorem ofLeaves_of_card_ne_one {s : Finset TypeExpr} (h : s.card ≠ 1) :
    ofLeaves s = .union s.toList := by
  unfold ofLeaves
  split
  · rename_i e he
    rw [← Finset.length_toList, he] at h
    exact absurd rfl h
  · rfl

theorem normal_ofLeaves {s : Finset TypeExpr} (h : ∀ l ∈ s, Normal l ∧ ¬ l.IsUnion) :
    Normal (ofLeaves s) := by
  by_cases hs : s.card = 1
  · obtain ⟨e, rfl⟩ := Finset.card_eq_one.1 hs
    rw [ofLeaves_singleton]
    exact (h e (by simp)).1
  · rw [ofLeaves_of_card_ne_one hs]
    refine .intro (fun c hc => (h c (Finset.mem_toList.1 hc)).1) ⟨?_, ?_, ?_⟩
    · rw [Finset.toList_toFinset]
    · rw [Finset.length_toList]
      exact hs
    · exact fun part hpart => (h part (Finset.mem_toList.1 hpart)).2

/-- The types of settled properties are among those given. -/
theorem mem_types_of_normal {ps : List (Property TypeExpr)} {a : Option TypeExpr} {flags : Flags}
    {c : TypeExpr}
    (h : c ∈ Body.types ⟨Property.settle (normalProperties ps), normalAdditional a, flags⟩) :
    ∃ d ∈ Body.types ⟨ps, a, flags⟩, c = d.normalForm := by
  rcases List.mem_append.1 h with h | h
  · obtain ⟨p, hp, rfl⟩ := List.mem_map.1 h
    have hp := Property.mem_of_mem_settle hp
    rw [normalProperties_eq_map] at hp
    obtain ⟨q, hq, rfl⟩ := List.mem_map.1 hp
    exact ⟨q.type, Body.type_mem_types hq, rfl⟩
  · rw [normalAdditional_eq_map] at h
    obtain ⟨d, hd, rfl⟩ := Option.map_eq_some_iff.1 (Option.mem_toList.1 h)
    exact ⟨d, Body.additional_mem_types hd, rfl⟩

theorem normal_normalForm (e : TypeExpr) : Normal e.normalForm := by
  induction e using ind with
  | h e ih =>
    cases e with
    | arrayOf item =>
      refine .intro (fun c hc => ?_) trivial
      obtain rfl : c = item.normalForm := by simpa [normalForm, children] using hc
      exact ih item (by simp [children])
    | object ps a =>
      refine .intro (fun c hc => ?_) trivial
      obtain ⟨d, hd, rfl⟩ := mem_types_of_normal hc
      exact ih d hd
    | named name ps a flags =>
      refine .intro (fun c hc => ?_) trivial
      obtain ⟨d, hd, rfl⟩ := mem_types_of_normal hc
      exact ih d hd
    | union parts =>
      refine normal_ofLeaves fun l hl => ?_
      rw [normalParts_eq_map] at hl
      obtain ⟨part, hpart, hl⟩ := Finset.mem_biUnion.1 hl
      obtain ⟨d, hd, rfl⟩ := List.mem_map.1 (List.mem_toFinset.1 hpart)
      exact (ih d hd).of_mem_leaves hl
    | _ => exact .intro (by simp [normalForm, children]) trivial

/-! ### Making the types of an expression -/

variable [Deferral δ]

mutual

/-- Make the types of an expression from the inside out, and give the outermost one. -/
def build : TypeExpr → Build δ TypeId
  | any => return .any
  | primitive p => return p.id
  | array => return .array
  | resource => return .resource
  | literal value => Build.literal value
  | arrayOf item => do Build.array (.direct (← build item))
  | object properties additional => do
    Build.object (← buildProperties properties) (← buildAdditional additional)
  | named name properties additional additionalFlags => do
    Build.named name (← buildProperties properties) (← buildAdditional additional) additionalFlags
  | union parts => do Build.union (← buildParts parts)
  | atom id => return id

/-- Make the types of properties one after the other. -/
def buildProperties : List (Property TypeExpr) → Build δ (List (Property (Edge δ)))
  | [] => return []
  | ⟨name, type, flags⟩ :: ps => do
    let id ← build type
    let rest ← buildProperties ps
    return ⟨name, .direct id, flags⟩ :: rest

/-- Make the type of all other properties. -/
def buildAdditional : Option TypeExpr → Build δ (Option (Edge δ))
  | none => return none
  | some type => do return some (.direct (← build type))

/-- Make the parts of a union one after the other. -/
def buildParts : List TypeExpr → Build δ (List (Edge δ))
  | [] => return []
  | part :: parts => do
    let id ← build part
    let rest ← buildParts parts
    return .direct id :: rest

end

end TypeExpr

end TypeGraph
