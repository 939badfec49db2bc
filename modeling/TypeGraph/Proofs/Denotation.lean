import TypeGraph.Proofs.Members
import TypeGraph.Proofs.TypeExpr

/-!
# What expressions denote

`Graph.Denotes` relates an expression in normal form to the id that it has in a graph: the id that
the table holds under its key, or its own if it is an atom.

* `Denotes.mono`: later graphs keep it.
* `Denotes.id_unique`, `Denotes.expr_unique`: in a sound graph it goes one to one.
* `Denotes.of_members`: a union is denoted by the set of what its members are denoted by.
-/

namespace TypeGraph

variable {δ : Type}

namespace Graph

/-- The id is there and the table does not lead to it. -/
def Bare (g : Graph δ) (id : TypeId) : Prop := id.index < g.size ∧ ∀ key, (key, id) ∉ g.shared

theorem Bare.mono {g g' : Graph δ} (hext : g.Extends g') {id : TypeId} (h : g.Bare id) :
    g'.Bare id :=
  ⟨hext.index_lt h.1, fun key hkey => h.2 key (hext.mem_of_shared hkey h.1)⟩

/-- The key of an expression, if the expressions that it is made of have the ids that `f` gives. -/
def keyOf? (g : Graph δ) (f : TypeExpr → TypeId) : TypeExpr → Option (Node TypeId)
  | .any => some .any
  | .primitive p => some (.primitive p)
  | .array => some (.array none)
  | .resource => some .resource
  | .literal value => some (.literal value)
  | .arrayOf item => some (.array (some (f item)))
  | .object ps a => some (.object (Body.map f ⟨ps, a, .none⟩))
  | .named name ps a flags => some (.named name (Body.map f ⟨ps, a, flags⟩))
  | .union parts => some (.union (g.canonical (parts.map f)))
  | .atom _ => none

/-- The id that an expression has in a graph. -/
inductive Denotes (g : Graph δ) : TypeExpr → TypeId → Prop
  | shared {e : TypeExpr} {key : Node TypeId} {id : TypeId} (f : TypeExpr → TypeId)
      (children : ∀ c ∈ e.children, Denotes g c (f c)) (hkey : g.keyOf? f e = some key)
      (hentry : (key, id) ∈ g.shared) : Denotes g e id
  | atom {id : TypeId} (h : g.Bare id) : Denotes g (.atom id) id

/-! ### Keys -/

theorem keyOf?_congr (g : Graph δ) {f f' : TypeExpr → TypeId} {e : TypeExpr}
    (h : ∀ c ∈ e.children, f c = f' c) : g.keyOf? f e = g.keyOf? f' e := by
  cases e with
  | arrayOf item => simp only [keyOf?, h item (by simp [TypeExpr.children])]
  | object ps a => rw [keyOf?, keyOf?, Body.map_congr h]
  | named name ps a flags => rw [keyOf?, keyOf?, Body.map_congr h]
  | union parts =>
    have hparts : parts.map f = parts.map f' := List.map_congr_left h
    rw [keyOf?, keyOf?, hparts]
  | _ => rfl

/-- Keys are the same in later graphs. -/
theorem keyOf?_extends {g g' : Graph δ} (hext : g.Extends g') {f : TypeExpr → TypeId} {e : TypeExpr}
    (h : ∀ c ∈ e.children, (f c).index < g.size) : g'.keyOf? f e = g.keyOf? f e := by
  cases e with
  | union parts =>
    have hord : g'.Ordered (g.canonical (parts.map f)) := by
      refine (g.ordered_canonical _).congr fun id hid => hext.display_eq ?_
      obtain ⟨c, hc, rfl⟩ := List.mem_map.1 (mem_canonical.1 hid)
      exact h c hc
    rw [keyOf?, keyOf?, (g'.ordered_canonical _).eq_of_mem_iff hord fun id => by simp]
  | _ => rfl

/-- Expressions whose ids have the same canonical list form the same set, if no two of them share an
id. -/
theorem toFinset_eq_of_canonical_eq {g : Graph δ} {f f' : TypeExpr → TypeId}
    {parts parts' : List TypeExpr}
    (hparts : ∀ m ∈ parts, ∀ m' ∈ parts', f m = f' m' → m = m')
    (h : g.canonical (parts.map f) = g.canonical (parts'.map f')) :
    parts.toFinset = parts'.toFinset := by
  have hmem : ∀ id, id ∈ parts.map f ↔ id ∈ parts'.map f' := by
    intro id
    rw [← g.mem_canonical, h, g.mem_canonical]
  ext m
  rw [List.mem_toFinset, List.mem_toFinset]
  constructor
  · intro hm
    obtain ⟨m', hm', heq⟩ := List.mem_map.1 ((hmem (f m)).1 (List.mem_map_of_mem hm))
    rwa [hparts m hm m' hm' heq.symm]
  · intro hm
    obtain ⟨m', hm', heq⟩ := List.mem_map.1 ((hmem (f' m)).2 (List.mem_map_of_mem hm))
    rwa [← hparts m' hm' m hm heq]

/-- Normal expressions with the same key are equal, if those that they are made of are equal
whenever they have the same id. -/
theorem eq_of_keyOf?_eq {g : Graph δ} {f f' : TypeExpr → TypeId} {e e' : TypeExpr}
    {key : Node TypeId} (h : g.keyOf? f e = some key) (h' : g.keyOf? f' e' = some key)
    (hchildren : ∀ c ∈ e.children, ∀ c' ∈ e'.children, f c = f' c' → c = c') (hs : e.Settled)
    (hs' : e'.Settled) : e = e' := by
  cases e with
  | any =>
    obtain rfl := Option.some.inj h
    cases e' with
    | any => rfl
    | _ => cases h'
  | primitive p =>
    obtain rfl := Option.some.inj h
    cases e' with
    | primitive p' =>
      cases h'
      rfl
    | _ => cases h'
  | array =>
    obtain rfl := Option.some.inj h
    cases e' with
    | array => rfl
    | _ => cases h'
  | resource =>
    obtain rfl := Option.some.inj h
    cases e' with
    | resource => rfl
    | _ => cases h'
  | literal value =>
    obtain rfl := Option.some.inj h
    cases e' with
    | literal value' =>
      cases h'
      rfl
    | _ => cases h'
  | arrayOf item =>
    obtain rfl := Option.some.inj h
    cases e' with
    | arrayOf item' =>
      simp only [keyOf?, Option.some.injEq, Node.array.injEq] at h'
      rw [hchildren item (by simp [TypeExpr.children]) item' (by simp [TypeExpr.children]) h'.symm]
    | _ => cases h'
  | object ps a =>
    obtain rfl := Option.some.inj h
    cases e' with
    | object ps' a' =>
      simp only [keyOf?, Option.some.injEq, Node.object.injEq] at h'
      cases Body.eq_of_map_eq hchildren h'.symm
      rfl
    | _ => cases h'
  | named name ps a flags =>
    obtain rfl := Option.some.inj h
    cases e' with
    | named name' ps' a' flags' =>
      simp only [keyOf?, Option.some.injEq, Node.named.injEq] at h'
      obtain ⟨rfl, hbody⟩ := h'
      cases Body.eq_of_map_eq hchildren hbody.symm
      rfl
    | _ => cases h'
  | union parts =>
    obtain rfl := Option.some.inj h
    cases e' with
    | union parts' =>
      simp only [keyOf?, Option.some.injEq, Node.union.injEq] at h'
      -- both lists enumerate their sets in the same way
      have hset : parts.toFinset = parts'.toFinset := toFinset_eq_of_canonical_eq hchildren h'.symm
      rw [← hs.1, ← hs'.1, hset]
    | _ => cases h'
  | atom id => cases h

/-! ### Denotation in a sound graph -/

namespace Denotes

variable {declared : List TypeId} {g : Graph δ} {e e' : TypeExpr} {id id' : TypeId}

theorem index_lt (h : g.Denotes e id) (hs : g.Sound declared) : id.index < g.size := by
  cases h with
  | shared f children hkey hentry => exact hs.index_lt_of_shared hentry
  | atom h => exact h.1

/-- Later graphs keep what expressions denote. -/
theorem mono {g' : Graph δ} (h : g.Denotes e id) (hs : g.Sound declared) (hext : g.Extends g') :
    g'.Denotes e id := by
  induction h with
  | shared f children hkey hentry ih =>
    have hkey' := (keyOf?_extends hext fun c hc => (children c hc).index_lt hs).trans hkey
    exact .shared f ih hkey' (hext.mem_shared hentry)
  | atom h => exact .atom (h.mono hext)

/-- An expression denotes one id. -/
theorem id_unique (h : g.Denotes e id) (h' : g.Denotes e id') (hs : g.Sound declared) :
    id = id' := by
  induction h generalizing id' with
  | shared f children hkey hentry ih =>
    cases h' with
    | shared f' children' hkey' hentry' =>
      rw [g.keyOf?_congr fun c hc => ih c hc (children' c hc), hkey'] at hkey
      obtain rfl := Option.some.inj hkey
      exact hs.id_unique hentry hentry'
    | atom h => cases hkey
  | atom h =>
    cases h' with
    | shared f' children' hkey' hentry' => cases hkey'
    | atom h => rfl

/-- An id is denoted by one normal expression. -/
theorem expr_unique (h : g.Denotes e id) (h' : g.Denotes e' id) (hs : g.Sound declared)
    (he : e.Normal) (he' : e'.Normal) : e = e' := by
  induction h generalizing e' with
  | shared f children hkey hentry ih =>
    cases h' with
    | shared f' children' hkey' hentry' =>
      -- the id has one key, and the key tells the two expressions apart up to their children
      obtain rfl := hs.key_unique hentry hentry'
      obtain ⟨hnormal, hsettled⟩ := he
      obtain ⟨hnormal', hsettled'⟩ := he'
      refine eq_of_keyOf?_eq hkey hkey' (fun c hc c' hc' heq => ?_) hsettled hsettled'
      exact ih c hc (heq ▸ children' c' hc') (hnormal c hc) (hnormal' c' hc')
    | atom h => exact absurd hentry (h.2 _)
  | atom h =>
    cases h' with
    | shared f' children' hkey' hentry' => exact absurd hentry' (h.2 _)
    | atom h => rfl

/-- What is not a union denotes a type that is none. -/
theorem isLeaf (h : g.Denotes e id) (hs : g.Sound declared) (he : ¬ e.IsUnion) : g.IsLeaf id := by
  cases h with
  | shared f children hkey hentry =>
    refine ⟨_, hs.node?_of_shared hentry, ?_⟩
    cases e with
    | union parts => exact absurd trivial he
    | atom id => cases hkey
    | _ =>
      obtain rfl := Option.some.inj hkey
      rfl
  | atom h =>
    obtain ⟨ids, hids⟩ := exists_members? h.1
    rcases hs.members?_cases hids with rfl | ⟨-, hentry⟩
    · exact (hs.of_members? hids).2 id (by simp)
    · exact absurd hentry (h.2 _)

/-- The members of what a normal expression denotes are what its leaves denote. -/
theorem members (h : g.Denotes e id) (hs : g.Sound declared) :
    ∃ ids, g.members? id = some ids ∧ ∀ x, x ∈ ids ↔ ∃ l ∈ e.leaves, g.Denotes l x := by
  by_cases he : e.IsUnion
  · cases e with
    | union parts =>
      cases h with
      | shared f children hkey hentry =>
        obtain rfl := Option.some.inj hkey
        refine ⟨_, hs.members?_of_shared hentry, fun x => ?_⟩
        rw [mem_canonical, List.mem_map]
        constructor
        · rintro ⟨l, hl, rfl⟩
          exact ⟨l, List.mem_toFinset.2 hl, children l hl⟩
        · rintro ⟨l, hl, hx⟩
          have hl := List.mem_toFinset.1 hl
          exact ⟨l, hl, (children l hl).id_unique hx hs⟩
    | _ => exact absurd he (by simp [TypeExpr.IsUnion])
  · refine ⟨[id], (h.isLeaf hs he).members?_eq, fun x => ?_⟩
    rw [TypeExpr.leaves_of_not_isUnion he, List.mem_singleton]
    constructor
    · rintro rfl
      exact ⟨e, by simp, h⟩
    · rintro ⟨l, hl, hx⟩
      obtain rfl := Finset.mem_singleton.1 hl
      exact hx.id_unique h hs

theorem exists_of_mem_leaves (h : g.Denotes e id) {l : TypeExpr} (hl : l ∈ e.leaves) :
    ∃ x, g.Denotes l x := by
  by_cases he : e.IsUnion
  · cases e with
    | union parts =>
      cases h with
      | shared f children hkey hentry => exact ⟨f l, children l (List.mem_toFinset.1 hl)⟩
    | _ => exact absurd he (by simp [TypeExpr.IsUnion])
  · rw [TypeExpr.leaves_of_not_isUnion he, Finset.mem_singleton] at hl
    subst hl
    exact ⟨id, h⟩

/-- A type whose members are what the expressions of a set denote is denoted by their union. -/
theorem of_members {s : Finset TypeExpr} {ids : List TypeId} (hs : g.Sound declared)
    (hnormal : ∀ l ∈ s, l.Normal ∧ ¬ l.IsUnion) (hdenotes : ∀ l ∈ s, ∃ x, g.Denotes l x)
    (hids : g.members? id = some ids) (hmem : ∀ x, x ∈ ids ↔ ∃ l ∈ s, g.Denotes l x) :
    g.Denotes (TypeExpr.ofLeaves s) id := by
  by_cases hcard : s.card = 1
  · obtain ⟨l, rfl⟩ := Finset.card_eq_one.1 hcard
    obtain ⟨x, hx⟩ := hdenotes l (by simp)
    have hself := (hx.isLeaf hs (hnormal l (by simp)).2).members?_eq
    obtain rfl : id = x := by
      refine hs.eq_of_members hids hself fun y => ?_
      rw [hmem, List.mem_singleton]
      constructor
      · rintro ⟨l', hl', hy⟩
        obtain rfl := Finset.mem_singleton.1 hl'
        exact hy.id_unique hx hs
      · rintro rfl
        exact ⟨l, by simp, hx⟩
    rw [TypeExpr.ofLeaves_singleton]
    exact hx
  · rw [TypeExpr.ofLeaves_of_card_ne_one hcard]
    have : Nonempty TypeId := ⟨.any⟩
    choose! f hf using hdenotes
    have hids' : ids = g.canonical (s.toList.map f) := by
      refine (hs.of_members? hids).1.eq_of_mem_iff (g.ordered_canonical _) fun x => ?_
      rw [hmem, mem_canonical, List.mem_map]
      constructor
      · rintro ⟨l, hl, hx⟩
        exact ⟨l, Finset.mem_toList.2 hl, (hf l hl).id_unique hx hs⟩
      · rintro ⟨l, hl, rfl⟩
        exact ⟨l, Finset.mem_toList.1 hl, hf l (Finset.mem_toList.1 hl)⟩
    rcases hs.members?_cases hids with hone | ⟨-, hentry⟩
    · -- with one member there is one expression, since no two denote the same id
      refine absurd (Finset.card_eq_one.2 ?_) hcard
      obtain ⟨l, hl, hx⟩ := (hmem id).1 (by simp [hone])
      refine ⟨l, Finset.eq_singleton_iff_unique_mem.2 ⟨hl, fun l' hl' => ?_⟩⟩
      have hid : f l' = id := by
        have := (hmem (f l')).2 ⟨l', hl', hf l' hl'⟩
        simpa [hone] using this
      exact (hid ▸ hf l' hl').expr_unique hx hs (hnormal l' hl').1 (hnormal l hl).1
    · refine .shared f (fun c hc => hf c (Finset.mem_toList.1 hc)) ?_ hentry
      rw [keyOf?, hids']

/-- The types that every graph holds. -/
theorem of_foundation {key : Node TypeId} (hs : g.Sound declared) (hchildren : e.children = [])
    (hkey : g.keyOf? (fun _ => .any) e = some key) (hentry : (key, id) ∈ foundationTable) :
    g.Denotes e id := by
  refine .shared _ (fun c hc => ?_) hkey (hs.foundation hentry)
  rw [hchildren] at hc
  cases hc

/-- Placing the type with the key of an expression gives the id that the expression denotes. -/
theorem yields_place (e : TypeExpr) (f : TypeExpr → TypeId) (key : Node TypeId) {label : String}
    (hs : g.Sound declared) (hchildren : ∀ c ∈ e.children, g.Denotes c (f c))
    (hkey : ∀ g' : Graph δ, g'.keyOf? f e = some key) (hvariants : key.variants? = none)
    (fits : Slot.Fits g ⟨label, key.map .direct⟩) :
    (Build.place ⟨label, key.map .direct⟩).Yields g declared fun id g' => g'.Denotes e id := by
  have hdirect : (key.map .direct : Node (Edge δ)).direct? = some key :=
    Node.direct?_eq_some_iff.2 ⟨rfl, hvariants⟩
  obtain ⟨id, g', events, hplace, hs', hext, hentry⟩ := hs.place fits hdirect
  refine ⟨id, g', events, hplace, hs', hext, .shared f (fun c hc => ?_) (hkey g') hentry⟩
  exact (hchildren c hc).mono hs hext

end Denotes

/-- The id that an expression denotes, if it denotes one. -/
noncomputable def idOf (g : Graph δ) (e : TypeExpr) : TypeId :=
  have : Nonempty TypeId := ⟨.any⟩
  Classical.epsilon (g.Denotes e)

theorem Denotes.idOf_eq {declared : List TypeId} {g : Graph δ} {e : TypeExpr} {id : TypeId}
    (h : g.Denotes e id) (hs : g.Sound declared) : g.idOf e = id := by
  have hid : g.Denotes e (g.idOf e) := Classical.epsilon_spec (p := g.Denotes e) ⟨id, h⟩
  exact hid.id_unique h hs

end Graph

end TypeGraph
