import TypeGraph.Proofs.ArrayLabels
import TypeGraph.Proofs.Cycles
import TypeGraph.Proofs.StructuralIdentity

/-!
# What is shown of a type

The label of a type is found when its slot is made, and the members of a union are put in order with
the help of their ids. Still the label tells nothing about the history of the graph: it is a
function of the normal form of the expression from which the type is made.

* `TypeExpr.label`, `TypeExpr.kind`: the label and the class that an expression without atoms calls
  for.
* `Graph.ItemsLabelled`: arrays are labelled after their items. It holds after every grounded run.
* `Graph.Denotes.display_eq`: the type that a normal expression denotes is shown under the label of
  the expression.
-/

namespace TypeGraph

variable {δ : Type}

namespace TypeExpr

mutual

/-- The label of an expression in normal form. The label of an atom is not known, and none is given
to it here. -/
def label : TypeExpr → String
  | any => "any"
  | primitive p => p.name
  | array => "array"
  | resource => "resource"
  | literal value => Text.quoted value
  | arrayOf item => label item ++ "[]"
  | object _ _ => "object"
  | named name _ _ _ => name
  | union parts =>
    if parts.isEmpty then "never"
    else Vocabulary.unionSeparator.intercalate ((labels parts).insertionSort (· ≤ ·))
  | atom _ => ""

/-- The labels of some expressions. -/
def labels : List TypeExpr → List String
  | [] => []
  | part :: parts => label part :: labels parts

end

theorem labels_eq_map (parts : List TypeExpr) : labels parts = parts.map label := by
  induction parts with
  | nil => rfl
  | cons part parts ih => rw [labels, ih, List.map_cons]

/-- The class of an expression in normal form that is not an atom. -/
def kind : TypeExpr → Kind
  | any => .any
  | primitive _ => .primitive
  | array => .array
  | resource => .resource
  | literal _ => .literal
  | arrayOf _ => .array
  | object _ _ => .object
  | named _ _ _ _ => .object
  | union parts => if parts.isEmpty then .never else .union
  | atom _ => .any

/-! ### Atoms of normal forms -/

theorem mentions_of_mem_leaves {e l : TypeExpr} (hl : l ∈ e.leaves) {a : TypeId}
    (ha : l.Mentions a) : e.Mentions a := by
  by_cases he : e.IsUnion
  · cases e with
    | union parts => exact .child (List.mem_toFinset.1 hl) ha
    | _ => exact absurd he (by simp [IsUnion])
  · rw [leaves_of_not_isUnion he, Finset.mem_singleton] at hl
    rwa [← hl]

theorem mentions_of_ofLeaves {s : Finset TypeExpr} {a : TypeId} (h : (ofLeaves s).Mentions a) :
    ∃ l ∈ s, l.Mentions a := by
  by_cases hs : s.card = 1
  · obtain ⟨l, rfl⟩ := Finset.card_eq_one.1 hs
    rw [ofLeaves_singleton] at h
    exact ⟨l, by simp, h⟩
  · rw [ofLeaves_of_card_ne_one hs, mentions_union] at h
    simpa using h

/-- The normal form of an expression mentions no other atoms. -/
theorem mentions_of_normalForm {e : TypeExpr} {a : TypeId} (h : e.normalForm.Mentions a) :
    e.Mentions a := by
  induction e using ind with
  | h e ih =>
    -- where the parts are normal forms of the old parts, one of these mentions the atom
    have hchild : ∀ {e' : TypeExpr}, e'.Mentions a → (∀ id, e' ≠ .atom id) →
        (∀ c ∈ e'.children, ∃ d ∈ e.children, c = d.normalForm) → e.Mentions a := by
      intro e' h' hatom hchildren
      obtain ⟨c, hc, hca⟩ := (mentions_iff hatom).1 h'
      obtain ⟨d, hd, rfl⟩ := hchildren c hc
      exact .child hd (ih d hd hca)
    cases e with
    | arrayOf item =>
      rw [normalForm] at h
      exact hchild h (by simp) (by simp [children])
    | object ps additional =>
      rw [normalForm] at h
      exact hchild h (by simp) fun c hc => mem_types_of_normal hc
    | named name ps additional flags =>
      rw [normalForm] at h
      exact hchild h (by simp) fun c hc => mem_types_of_normal hc
    | union parts =>
      rw [normalForm] at h
      obtain ⟨l, hl, hla⟩ := mentions_of_ofLeaves h
      rw [normalParts_eq_map] at hl
      obtain ⟨part, hpart, hl⟩ := Finset.mem_biUnion.1 hl
      obtain ⟨d, hd, rfl⟩ := List.mem_map.1 (List.mem_toFinset.1 hpart)
      exact .child hd (ih d hd (mentions_of_mem_leaves hl hla))
    | _ =>
      rw [normalForm] at h
      exact h

end TypeExpr

/-! ### Labels in a graph -/

theorem Node.kind_map {ε ε' : Type} (f : ε → ε') (node : Node ε) :
    (node.map f).kind = node.kind := by
  cases node with
  | union members => cases members <;> rfl
  | _ => rfl

namespace Graph

/-- Listed in canonical order, labels are sorted. -/
theorem map_display_canonical (g : Graph δ) {ids : List TypeId} (h : ids.Nodup) :
    (g.canonical ids).map g.display = (ids.map g.display).insertionSort (· ≤ ·) := by
  have hord := g.ordered_canonical ids
  have hperm : (g.canonical ids).Perm ids := by
    refine (List.perm_ext_iff_of_nodup (hord.imp fun hlt heq => ?_) h).2 fun _ => mem_canonical
    exact lt_irrefl _ (heq ▸ hlt)
  have hsorted : ((g.canonical ids).map g.display).Pairwise (· ≤ ·) := by
    refine List.pairwise_map.2 (hord.imp fun {a b} hlt => ?_)
    rcases Prod.Lex.toLex_lt_toLex.1 hlt with hlt | ⟨heq, -⟩
    · exact hlt.le
    · exact heq.le
  refine List.Perm.eq_of_pairwise' hsorted (List.pairwise_insertionSort (· ≤ ·) _) ?_
  exact (hperm.map g.display).trans (List.perm_insertionSort (· ≤ ·) _).symm

/-- The items of arrays are there, and arrays are labelled after them. -/
def ItemsLabelled (g : Graph δ) : Prop :=
  ∀ (id : TypeId) (label : String) (item : TypeId),
    g.slot? id = some ⟨label, .array (some item)⟩ →
      item.index < g.size ∧ label = g.display item ++ "[]"

/-- Where edges lead to older types, every array is labelled after its item. -/
theorem ArraysLabelled.itemsLabelled {declared : List TypeId} {g : Graph δ} (h : g.ArraysLabelled)
    (hs : g.Sound declared) (hdown : g.Descends declared) : g.ItemsLabelled := by
  intro id label item hslot
  have hnode : g.node? id = some (.array (some item)) := node?_eq_some_iff.2 ⟨_, hslot, rfl⟩
  have hid : id ∉ declared := by
    intro hdeclared
    obtain ⟨⟨name, body, hnamed⟩, -⟩ := hs.of_declared hdeclared
    cases hnode.symm.trans hnamed
  obtain ⟨hitem, holder⟩ := hdown id item ⟨_, hnode, by simp [Node.targets]⟩
  refine ⟨hitem, ?_⟩
  rw [h id label item hslot, if_pos (holder hid)]

namespace Denotes

variable {declared : List TypeId} {g : Graph δ} {e : TypeExpr} {id : TypeId}

/-- No two parts of a normal union denote the same id, so that every part has its label in the label
of the union. -/
theorem map_display_canonical {parts : List TypeExpr} {f : TypeExpr → TypeId}
    (hs : g.Sound declared) (he : (TypeExpr.union parts).Normal)
    (hdenotes : ∀ c ∈ parts, g.Denotes c (f c)) (hlabel : ∀ c ∈ parts, g.display (f c) = c.label) :
    (g.canonical (parts.map f)).map g.display =
      (TypeExpr.labels parts).insertionSort (· ≤ ·) := by
  obtain ⟨hnormal, hsettled⟩ := he
  have hparts : parts.Nodup := hsettled.1 ▸ Finset.nodup_toList _
  have hnodup : (parts.map f).Nodup := by
    refine hparts.map_on fun c hc d hd heq => ?_
    exact (hdenotes c hc).expr_unique (heq ▸ hdenotes d hd) hs (hnormal c hc) (hnormal d hd)
  have hlabels : (parts.map f).map g.display = TypeExpr.labels parts := by
    rw [TypeExpr.labels_eq_map, List.map_map]
    exact List.map_congr_left hlabel
  rw [Graph.map_display_canonical g hnodup, hlabels]

/-- What a normal expression without atoms denotes is shown under the label of the expression, and
it is of the class of the expression. -/
theorem display_eq (h : g.Denotes e id) (hs : g.Sound declared) (hlabelled : g.Labelled)
    (hitems : g.ItemsLabelled) (he : e.Normal) (hatoms : ∀ a, ¬ e.Mentions a) :
    g.display id = e.label ∧ g.kind? id = some e.kind := by
  induction h with
  | @shared e key id f children hkey hentry ih =>
    have hnode := hs.node?_of_shared hentry
    obtain ⟨⟨label, node⟩, hslot, rfl⟩ := node?_eq_some_iff.1 hnode
    have hlabel := hlabelled id _ hslot
    have hdisplay : g.display id = label := by simp [display, hslot]
    have hkind : g.kind? id = some key.kind := by
      rw [kind?, hnode, Option.map_some, Node.kind_map]
    rw [hdisplay, hkind]
    have ih' : ∀ c ∈ e.children, g.display (f c) = c.label := fun c hc => by
      obtain ⟨hnormal, -⟩ := he
      exact (ih c hc (hnormal c hc) fun a ha => hatoms a (.child hc ha)).1
    cases e with
    | atom id => cases hkey
    | arrayOf item =>
      obtain rfl := Option.some.inj hkey
      rw [(hitems id label (f item) hslot).2, ih' item (by simp [TypeExpr.children])]
      exact ⟨rfl, rfl⟩
    | union parts =>
      obtain rfl := Option.some.inj hkey
      by_cases hparts : parts = []
      · subst hparts
        exact ⟨hlabel.trans (if_pos rfl), rfl⟩
      · obtain ⟨part, rest, rfl⟩ := List.exists_cons_of_ne_nil hparts
        have hne : g.canonical ((part :: rest).map f) ≠ [] :=
          List.ne_nil_of_mem (mem_canonical.2 (List.mem_map_of_mem List.mem_cons_self))
        obtain ⟨m, ms, hmembers⟩ := List.exists_cons_of_ne_nil hne
        refine ⟨(hlabel.trans (if_neg hne)).trans ?_, by rw [hmembers]; rfl⟩
        rw [unionLabel, map_display_canonical hs he children ih']
        rfl
    | _ =>
      obtain rfl := Option.some.inj hkey
      exact ⟨hlabel, rfl⟩
  | atom h => exact absurd (.atom _) (hatoms _)

end Denotes

end Graph

/-! ### Making the types of an expression -/

namespace TypeExpr

variable [Deferral δ] {declared : List TypeId} {g : Graph δ}

/-- Made in a sound graph in which its atoms are there, an expression gives a type that is there, by
grounded changes only. -/
def BuiltGrounded (δ : Type) [Deferral δ] (e : TypeExpr) : Prop :=
  ∀ {declared : List TypeId} {g : Graph δ}, g.Sound declared →
    (∀ a, e.Mentions a → a.index < g.size) → e.build.Grounds g Build.InRange

theorem grounds_buildProperties {ps : List (Property TypeExpr)}
    (h : ∀ p ∈ ps, p.type.BuiltGrounded δ) (hs : g.Sound declared)
    (hatoms : ∀ p ∈ ps, ∀ a, p.type.Mentions a → a.index < g.size) :
    (buildProperties ps).Grounds g fun qs g' => g'.CoversTypes qs := by
  induction ps generalizing g with
  | nil => exact .pure (by simp [Graph.CoversTypes])
  | cons p ps ih =>
    obtain ⟨name, type, flags⟩ := p
    rw [buildProperties]
    refine .bind hs (h _ List.mem_cons_self hs (hatoms _ List.mem_cons_self))
      fun id g₁ hs₁ hgrows₁ hid => ?_
    refine .bind hs₁ (ih (fun q hq => h q (List.mem_cons_of_mem _ hq)) hs₁ fun q hq a ha => ?_)
      fun qs g₂ _ hgrows₂ hqs => .pure fun q hq id' hid' => ?_
    · exact hgrows₁.index_lt (hatoms q (List.mem_cons_of_mem _ hq) a ha)
    · rcases List.mem_cons.1 hq with rfl | hq
      · obtain rfl := Edge.direct.inj hid'
        exact hgrows₂.index_lt hid
      · exact hqs q hq id' hid'

theorem grounds_buildAdditional {type : Option TypeExpr} (h : ∀ e ∈ type, e.BuiltGrounded δ)
    (hs : g.Sound declared) (hatoms : ∀ e ∈ type, ∀ a, e.Mentions a → a.index < g.size) :
    (buildAdditional type).Grounds g fun edge g' =>
      ∀ id, edge = some (.direct id) → id.index < g'.size := by
  cases type with
  | none => exact .pure (by simp)
  | some e =>
    rw [buildAdditional]
    refine .bind hs (h e rfl hs (hatoms e rfl)) fun id g₁ _ _ hid => .pure fun id' hid' => ?_
    obtain rfl := Edge.direct.inj (Option.some.inj hid')
    exact hid

theorem grounds_buildParts {parts : List TypeExpr} (h : ∀ e ∈ parts, e.BuiltGrounded δ)
    (hs : g.Sound declared) (hatoms : ∀ e ∈ parts, ∀ a, e.Mentions a → a.index < g.size) :
    (buildParts parts).Grounds g fun _ _ => True := by
  induction parts generalizing g with
  | nil => exact .pure trivial
  | cons e parts ih =>
    rw [buildParts]
    refine .bind hs (h e List.mem_cons_self hs (hatoms e List.mem_cons_self))
      fun id g₁ hs₁ hgrows₁ _ => ?_
    refine .bind hs₁ (ih (fun c hc => h c (List.mem_cons_of_mem _ hc)) hs₁ fun c hc a ha => ?_)
      fun edges _ _ _ _ => .pure trivial
    exact hgrows₁.index_lt (hatoms c (List.mem_cons_of_mem _ hc) a ha)

/-- The edges of a body that is made from expressions lead to types that are there. -/
theorem grounds_body {ps : List (Property TypeExpr)} {type : Option TypeExpr} {flags : Flags}
    {f : List (Property (Edge δ)) → Option (Edge δ) → Build δ TypeId}
    (h : ∀ c ∈ Body.types ⟨ps, type, flags⟩, c.BuiltGrounded δ) (hs : g.Sound declared)
    (hatoms : ∀ c ∈ Body.types ⟨ps, type, flags⟩, ∀ a, c.Mentions a → a.index < g.size)
    (hf : ∀ {g' : Graph δ} {qs edge}, g'.Sound declared →
      g'.Covers (Body.ofProperties qs edge flags).targets → (f qs edge).Grounds g' Build.InRange) :
    (do f (← buildProperties ps) (← buildAdditional type) : Build δ TypeId).Grounds g
      Build.InRange := by
  refine .bind hs (grounds_buildProperties (fun p hp => h _ (Body.type_mem_types hp)) hs fun p hp =>
    hatoms _ (Body.type_mem_types hp)) fun qs g₁ hs₁ hgrows₁ hqs => ?_
  refine .bind hs₁ (grounds_buildAdditional (fun e he => h e (Body.additional_mem_types he)) hs₁
    fun e he a ha => hgrows₁.index_lt (hatoms e (Body.additional_mem_types he) a ha))
    fun edge g₂ hs₂ hgrows₂ hedge => hf hs₂ ?_
  exact (hgrows₂.coversTypes hqs).covers_targets hedge

theorem builtGrounded (e : TypeExpr) : e.BuiltGrounded δ := by
  induction e using ind with
  | h e ih =>
    intro declared g hs hatoms
    have hatoms' : ∀ c ∈ e.children, ∀ a, c.Mentions a → a.index < g.size :=
      fun c hc a ha => hatoms a (.child hc ha)
    cases e with
    | any =>
      rw [build]
      exact .pure (hs.index_lt_of_lt_eleven (by decide))
    | primitive p =>
      rw [build]
      refine .pure (hs.index_lt_of_lt_eleven ?_)
      cases p <;> decide
    | array =>
      rw [build]
      exact .pure (hs.index_lt_of_lt_eleven (by decide))
    | resource =>
      rw [build]
      exact .pure (hs.index_lt_of_lt_eleven (by decide))
    | literal value =>
      rw [build]
      exact Build.grounds_literal hs value
    | arrayOf item =>
      rw [build]
      refine .bind hs (ih item (by simp [children]) hs (hatoms' item (by simp [children])))
        fun id g₁ hs₁ _ hid => ?_
      exact Build.grounds_array hs₁ hid
    | object ps type =>
      rw [build]
      exact grounds_body ih hs hatoms' fun hs' hbody => Build.grounds_object hs' hbody
    | named name ps type flags =>
      rw [build]
      exact grounds_body ih hs hatoms' fun hs' hbody => Build.grounds_named hs' hbody
    | union parts =>
      rw [build]
      refine .bind hs (grounds_buildParts ih hs hatoms') fun edges g₁ hs₁ _ _ => ?_
      exact Build.grounds_union hs₁ edges
    | atom id =>
      rw [build]
      exact .pure (hatoms id (.atom id))

end TypeExpr

/-! ### Runs -/

namespace Run

section

variable [Deferral δ]

theorem itemsLabelled {ops : List (Operation (Edge δ) TypeId)}
    (hops : (start : Run δ).Grounded ops) :
    ((start : Run δ).after ops).graph.ItemsLabelled :=
  (regular ops).arrays.itemsLabelled (sound ops) (descends hops)

/-- Made after a grounded run, an expression without atoms gives a type that is shown under the
label of the normal form. -/
theorem display_build {ops : List (Operation (Edge δ) TypeId)}
    (hops : (start : Run δ).Grounded ops) {e : TypeExpr} (hatoms : ∀ a, ¬ e.Mentions a) :
    let r := (start : Run δ).after ops
    ∃ id, (e.build r.graph).result = .ok id ∧
      (r.build e.build).graph.display id = e.normalForm.label ∧
      (r.build e.build).graph.kind? id = some e.normalForm.kind := by
  intro r
  have hs : r.graph.Sound r.declared := sound ops
  obtain ⟨id, g, events, hbuild, hs', hext, hid⟩ :=
    e.built hs fun a ha => absurd ha (hatoms a)
  have hgrows : GrowsGrounded r.graph g := by
    have hgrows := (e.builtGrounded hs fun a ha => absurd ha (hatoms a)).1
    rwa [hbuild] at hgrows
  have hreg : g.Regular r.declared := (regular ops).grows hgrows.grows
  obtain ⟨-, hdown⟩ := hgrows.preserves (P := fun declared g => g.Descends declared)
    (fun _ h hstep => h.growth hstep) hs (descends hops)
  have hitems := hreg.arrays.itemsLabelled hs' hdown
  have hatoms' : ∀ a, ¬ e.normalForm.Mentions a :=
    fun a ha => hatoms a (TypeExpr.mentions_of_normalForm ha)
  have hgraph : (r.build e.build).graph = g := by
    show (e.build r.graph).graph = g
    rw [hbuild]
  rw [hbuild, hgraph]
  exact ⟨id, rfl, hid.display_eq hs' hreg.labelled hitems e.normal_normalForm hatoms'⟩

end

/-- What is shown of a type does not depend on the history of the graph. After any two grounded runs
an expression without atoms can be made, and the two types have the same label and the same class,
whatever ids they and their parts have. -/
theorem display_independent_of_history {δ₁ δ₂ : Type} [Deferral δ₁] [Deferral δ₂]
    (ops₁ : List (Operation (Edge δ₁) TypeId)) (ops₂ : List (Operation (Edge δ₂) TypeId))
    (e : TypeExpr) :
    let r₁ := (start : Run δ₁).after ops₁
    let r₂ := (start : Run δ₂).after ops₂
    (start : Run δ₁).Grounded ops₁ → (start : Run δ₂).Grounded ops₂ → (∀ a, ¬ e.Mentions a) →
    ∃ id₁ id₂ kind, (e.build r₁.graph).result = .ok id₁ ∧ (e.build r₂.graph).result = .ok id₂ ∧
      (r₁.build e.build).graph.display id₁ = (r₂.build e.build).graph.display id₂ ∧
      (r₁.build e.build).graph.kind? id₁ = some kind ∧
      (r₂.build e.build).graph.kind? id₂ = some kind := by
  intro r₁ r₂ hops₁ hops₂ hatoms
  obtain ⟨id₁, hok₁, hdisplay₁, hkind₁⟩ := display_build hops₁ hatoms
  obtain ⟨id₂, hok₂, hdisplay₂, hkind₂⟩ := display_build hops₂ hatoms
  exact ⟨id₁, id₂, e.normalForm.kind, hok₁, hok₂, hdisplay₁.trans hdisplay₂.symm, hkind₁, hkind₂⟩

/-- The union of two objects of the same name, made in the fresh graph and in one where the second
object was there first, so that the members stand in another order. -/
theorem display_independent_of_history_of_namesakes :
    let ops₁ : List (Operation (Edge Recipe) TypeId) := []
    let ops₂ : List (Operation (Edge Recipe) TypeId) :=
      [.declare "B", .make (.named "A" [⟨"p", .direct .int, .none⟩] none .none)]
    let r₁ := (start : Run Recipe).after ops₁
    let r₂ := (start : Run Recipe).after ops₂
    let e : TypeExpr := .union
      [.named "A" [⟨"p", .primitive .string, .none⟩] none .none,
       .named "A" [⟨"p", .primitive .int, .none⟩] none .none]
    (e.build r₁.graph).result = .ok ⟨13⟩ ∧ (e.build r₂.graph).result = .ok ⟨14⟩ ∧
      (r₁.build e.build).graph.members? ⟨13⟩ = some [⟨11⟩, ⟨12⟩] ∧
      (r₂.build e.build).graph.members? ⟨14⟩ = some [⟨12⟩, ⟨13⟩] ∧
      (r₁.build e.build).graph.display ⟨13⟩ = (r₂.build e.build).graph.display ⟨14⟩ := by
  intro ops₁ ops₂ r₁ r₂ e
  have hops₂ : (start : Run Recipe).Grounded ops₂ := by
    simp only [ops₂, Grounded, perform, graph_start, Graph.fresh_eq]
    decide
  have hatoms : ∀ a, ¬ e.Mentions a := by
    simp [e, TypeExpr.mentions_iff, TypeExpr.children, Body.types]
  have hok₁ : (e.build r₁.graph).result = .ok ⟨13⟩ := by
    simp only [r₁, ops₁, after_nil, graph_start, Graph.fresh_eq]
    rfl
  have hok₂ : (e.build r₂.graph).result = .ok ⟨14⟩ := by
    simp only [r₂, ops₂, after_cons, after_nil, perform, graph_start, Graph.fresh_eq]
    rfl
  have hmembers : (r₁.build e.build).graph.members? ⟨13⟩ = some [⟨11⟩, ⟨12⟩] ∧
      (r₂.build e.build).graph.members? ⟨14⟩ = some [⟨12⟩, ⟨13⟩] := by
    simp only [r₁, r₂, ops₁, ops₂, Run.build, after_cons, after_nil, perform, graph_start,
      Graph.fresh_eq]
    exact ⟨rfl, rfl⟩
  obtain ⟨id₁, id₂, kind, h₁, h₂, hdisplay, -⟩ :=
    display_independent_of_history ops₁ ops₂ e trivial hops₂ hatoms
  cases hok₁.symm.trans h₁
  cases hok₂.symm.trans h₂
  exact ⟨hok₁, hok₂, hmembers.1, hmembers.2, hdisplay⟩

end Run

end TypeGraph
