import TypeGraph.Proofs.Denotation
import TypeGraph.Recipe

/-!
# Structural identity

Types that are made from expressions are told apart by the normal forms of the expressions and by
nothing else (`Run.structural_identity`): making the types of an expression gives the id that its
normal form denotes (`TypeExpr.built`), wherever in a run it is done.
-/

namespace TypeGraph

variable {δ : Type}

namespace TypeExpr

variable [Deferral δ] {declared : List TypeId} {g : Graph δ}

/-- Made in a sound graph in which its atoms are bare, an expression gives the id that its normal
form denotes. -/
def Built (δ : Type) [Deferral δ] (e : TypeExpr) : Prop :=
  ∀ {declared : List TypeId} {g : Graph δ}, g.Sound declared → (∀ a, e.Mentions a → g.Bare a) →
    e.build.Yields g declared fun id g' => g'.Denotes e.normalForm id

theorem yields_buildProperties {ps : List (Property TypeExpr)} (h : ∀ p ∈ ps, p.type.Built δ)
    (hs : g.Sound declared) (hbare : ∀ p ∈ ps, ∀ a, p.type.Mentions a → g.Bare a) :
    (buildProperties ps).Yields g declared fun qs g' =>
      (∀ p ∈ normalProperties ps, g'.Denotes p.type (g'.idOf p.type)) ∧
        qs = (normalProperties ps).map (Property.map fun c => .direct (g'.idOf c)) := by
  induction ps generalizing g with
  | nil => exact .pure hs ⟨by simp [normalProperties], rfl⟩
  | cons p ps ih =>
    obtain ⟨name, type, flags⟩ := p
    rw [buildProperties, normalProperties]
    refine .bind (h _ List.mem_cons_self hs (hbare _ List.mem_cons_self))
      fun id g₁ hs₁ hext₁ hid => ?_
    refine .bind (ih (fun q hq => h q (List.mem_cons_of_mem _ hq)) hs₁ fun q hq a ha => ?_)
      fun qs g₂ hs₂ hext₂ hqs => ?_
    · exact (hbare q (List.mem_cons_of_mem _ hq) a ha).mono hext₁
    · obtain ⟨hdenotes, rfl⟩ := hqs
      have hid₂ := hid.mono hs₁ hext₂
      obtain rfl := hid₂.idOf_eq hs₂
      refine .pure hs₂ ⟨?_, rfl⟩
      intro q hq
      rcases List.mem_cons.1 hq with rfl | hq
      · exact hid₂
      · exact hdenotes q hq

theorem yields_buildAdditional {type : Option TypeExpr} (h : ∀ e ∈ type, e.Built δ)
    (hs : g.Sound declared) (hbare : ∀ e ∈ type, ∀ a, e.Mentions a → g.Bare a) :
    (buildAdditional type).Yields g declared fun edge g' =>
      (∀ c ∈ normalAdditional type, g'.Denotes c (g'.idOf c)) ∧
        edge = (normalAdditional type).map fun c => .direct (g'.idOf c) := by
  cases type with
  | none => exact .pure hs ⟨by simp [normalAdditional], rfl⟩
  | some e =>
    rw [buildAdditional, normalAdditional]
    refine .bind (h e rfl hs (hbare e rfl)) fun id g₁ hs₁ _ hid => ?_
    obtain rfl := hid.idOf_eq hs₁
    refine .pure hs₁ ⟨?_, rfl⟩
    rintro c ⟨⟩
    exact hid

theorem yields_buildParts {parts : List TypeExpr} (h : ∀ e ∈ parts, e.Built δ)
    (hs : g.Sound declared) (hbare : ∀ e ∈ parts, ∀ a, e.Mentions a → g.Bare a) :
    (buildParts parts).Yields g declared fun edges g' =>
      (∀ c ∈ normalParts parts, g'.Denotes c (g'.idOf c)) ∧
        edges = (normalParts parts).map fun c => .direct (g'.idOf c) := by
  induction parts generalizing g with
  | nil => exact .pure hs ⟨by simp [normalParts], rfl⟩
  | cons part parts ih =>
    rw [buildParts, normalParts]
    refine .bind (h part (by simp) hs (hbare part (by simp))) fun id g₁ hs₁ hext₁ hid => ?_
    refine .bind (ih (fun e he => h e (List.mem_cons_of_mem _ he)) hs₁ fun e he a ha => ?_)
      fun edges g₂ hs₂ hext₂ hedges => ?_
    · exact (hbare e (List.mem_cons_of_mem _ he) a ha).mono hext₁
    · obtain ⟨hdenotes, rfl⟩ := hedges
      have hid₂ := hid.mono hs₁ hext₂
      obtain rfl := hid₂.idOf_eq hs₂
      refine .pure hs₂ ⟨?_, rfl⟩
      intro c hc
      rcases List.mem_cons.1 hc with rfl | hc
      · exact hid₂
      · exact hdenotes c hc

/-- The body that is made from properties and the type of all others, in terms of the ids of their
normal forms. -/
theorem yields_body {ps : List (Property TypeExpr)} {type : Option TypeExpr} {flags : Flags}
    (h : ∀ c ∈ Body.types ⟨ps, type, flags⟩, c.Built δ) (hs : g.Sound declared)
    (hbare : ∀ c ∈ Body.types ⟨ps, type, flags⟩, ∀ a, c.Mentions a → g.Bare a) :
    (do return Body.ofProperties (← buildProperties ps) (← buildAdditional type) flags :
      Build δ (Body (Edge δ))).Yields g declared fun body g' =>
        (∀ c ∈ Body.types ⟨Property.settle (normalProperties ps), normalAdditional type, flags⟩,
          g'.Denotes c (g'.idOf c)) ∧
        body = (Body.map g'.idOf
          ⟨Property.settle (normalProperties ps), normalAdditional type, flags⟩).map .direct := by
  refine .bind (yields_buildProperties (fun p hp => h _ (Body.type_mem_types hp)) hs fun p hp =>
    hbare _ (Body.type_mem_types hp)) fun qs g₁ hs₁ hext₁ hqs => ?_
  refine .bind (yields_buildAdditional (fun e he => h e (Body.additional_mem_types he)) hs₁
    fun e he a ha => (hbare e (Body.additional_mem_types he) a ha).mono hext₁)
    fun edge g₂ hs₂ hext₂ hedge => ?_
  obtain ⟨hps, rfl⟩ := hqs
  obtain ⟨htype, rfl⟩ := hedge
  -- the properties were made first, and what they denote has not changed since
  have hps₂ : ∀ p ∈ normalProperties ps, g₂.Denotes p.type (g₁.idOf p.type) := fun p hp =>
    (hps p hp).mono hs₁ hext₂
  have hqs : (normalProperties ps).map (Property.map fun c => (.direct (g₁.idOf c) : Edge δ)) =
      (normalProperties ps).map (Property.map fun c => .direct (g₂.idOf c)) := by
    refine List.map_congr_left fun p hp => ?_
    rw [Property.map, Property.map, (hps₂ p hp).idOf_eq hs₂]
  refine .pure hs₂ ⟨fun c hc => ?_, ?_⟩
  · rcases List.mem_append.1 hc with hc | hc
    · obtain ⟨p, hp, rfl⟩ := List.mem_map.1 hc
      have hp := hps₂ p (Property.mem_of_mem_settle hp)
      rwa [hp.idOf_eq hs₂]
    · exact htype c (Option.mem_toList.1 hc)
  · rw [hqs, Body.ofProperties, Property.distinct_map, Property.distinct_eq_settle]
    simp only [Body.map, List.map_map, Option.map_map]
    rfl

theorem build_object (ps : List (Property TypeExpr)) (type : Option TypeExpr) :
    (build (.object ps type) : Build δ TypeId) =
      (do return Body.ofProperties (← buildProperties ps) (← buildAdditional type) .none) >>=
        fun body => Build.place ⟨"object", .object body⟩ := by
  simp [build, Build.object]

theorem build_named (name : String) (ps : List (Property TypeExpr)) (type : Option TypeExpr)
    (flags : Flags) :
    (build (.named name ps type flags) : Build δ TypeId) =
      (do return Body.ofProperties (← buildProperties ps) (← buildAdditional type) flags) >>=
        fun body => Build.place ⟨name, .named name body⟩ := by
  simp [build, Build.named]

/-- The union of what normal expressions denote is denoted by the union of their leaves. -/
theorem yields_union {parts : List TypeExpr} (hs : g.Sound declared)
    (hnormal : ∀ c ∈ parts, c.Normal) (hdenotes : ∀ c ∈ parts, g.Denotes c (g.idOf c)) :
    (Build.union (parts.map fun c => .direct (g.idOf c))).Yields g declared fun id g' =>
      g'.Denotes (ofLeaves (parts.toFinset.biUnion leaves)) id := by
  have hrange : ∀ e ∈ parts.map fun c => (.direct (g.idOf c) : Edge δ),
      (g.resolve e).index < g.size := by
    intro e he
    obtain ⟨c, hc, rfl⟩ := List.mem_map.1 he
    exact (hdenotes c hc).index_lt hs
  obtain ⟨id, g', events, hunion, hs', hext, ids, hids, hmem⟩ := hs.union_members hrange
  refine ⟨id, g', events, hunion, hs', hext, ?_⟩
  have hleaf : ∀ l ∈ parts.toFinset.biUnion leaves, ∃ c ∈ parts, l ∈ c.leaves := by
    simp only [Finset.mem_biUnion, List.mem_toFinset, imp_self, implies_true]
  have hfound : ∀ l ∈ parts.toFinset.biUnion leaves, ∃ x, g.Denotes l x := by
    intro l hl
    obtain ⟨c, hc, hl⟩ := hleaf l hl
    exact (hdenotes c hc).exists_of_mem_leaves hl
  refine .of_members hs' (fun l hl => ?_) (fun l hl => ?_) hids fun x => ?_
  · obtain ⟨c, hc, hl⟩ := hleaf l hl
    exact (hnormal c hc).of_mem_leaves hl
  · obtain ⟨x, hx⟩ := hfound l hl
    exact ⟨x, hx.mono hs hext⟩
  · rw [hmem, Graph.mem_memberSet]
    constructor
    · rintro ⟨y, hy, members, hmembers, hx⟩
      obtain ⟨e, he, rfl⟩ := List.mem_map.1 hy
      obtain ⟨c, hc, rfl⟩ := List.mem_map.1 he
      obtain ⟨members', hmembers', hiff⟩ := (hdenotes c hc).members hs
      obtain rfl := Option.some.inj (hmembers.symm.trans hmembers')
      obtain ⟨l, hl, hlx⟩ := (hiff x).1 hx
      refine ⟨l, ?_, hlx.mono hs hext⟩
      exact Finset.mem_biUnion.2 ⟨c, List.mem_toFinset.2 hc, hl⟩
    · rintro ⟨l, hl, hlx⟩
      -- the leaf denoted something before the union was formed, and denotes the same now
      obtain ⟨x', hlx'⟩ := hfound l hl
      obtain rfl := hlx.id_unique (hlx'.mono hs hext) hs'
      obtain ⟨c, hc, hl⟩ := hleaf l hl
      obtain ⟨members, hmembers, hiff⟩ := (hdenotes c hc).members hs
      refine ⟨g.idOf c, ?_, members, hmembers, (hiff x).2 ⟨l, hl, hlx'⟩⟩
      rw [List.map_map]
      exact List.mem_map.2 ⟨c, hc, rfl⟩

/-- Made in a sound graph, an expression gives the id that its normal form denotes. -/
theorem built (e : TypeExpr) : e.Built δ := by
  induction e using ind with
  | h e ih =>
    intro declared g hs hbare
    have hbare' : ∀ c ∈ e.children, ∀ a, c.Mentions a → g.Bare a :=
      fun c hc a ha => hbare a (.child hc ha)
    cases e with
    | any =>
      rw [build, normalForm]
      exact .pure hs (.of_foundation hs rfl rfl (by decide))
    | primitive p =>
      rw [build, normalForm]
      refine .pure hs (.of_foundation hs rfl rfl ?_)
      cases p <;> decide
    | array =>
      rw [build, normalForm]
      exact .pure hs (.of_foundation hs rfl rfl (by decide))
    | resource =>
      rw [build, normalForm]
      exact .pure hs (.of_foundation hs rfl rfl (by decide))
    | literal value =>
      rw [build, normalForm]
      exact Graph.Denotes.yields_place (.literal value) (fun _ => .any) (.literal value) hs
        (by simp [children]) (fun _ => rfl) rfl rfl
    | arrayOf item =>
      rw [build, normalForm]
      refine .bind (ih item (by simp [children]) hs (hbare' item (by simp [children])))
        fun id g₁ hs₁ _ hid => ?_
      refine .congr ?_ (Build.array_apply (.direct id) g₁)
      exact Graph.Denotes.yields_place (.arrayOf item.normalForm) (fun _ => id) (.array (some id))
        hs₁ (by simpa [children] using hid) (fun _ => rfl) rfl rfl
    | object ps type =>
      rw [build_object, normalForm]
      refine .bind (yields_body ih hs hbare') fun body g₁ hs₁ _ hbody => ?_
      obtain ⟨hdenotes, rfl⟩ := hbody
      exact Graph.Denotes.yields_place (.object _ _) g₁.idOf (.object _) hs₁ hdenotes
        (fun _ => rfl) rfl rfl
    | named name ps type flags =>
      rw [build_named, normalForm]
      refine .bind (yields_body ih hs hbare') fun body g₁ hs₁ _ hbody => ?_
      obtain ⟨hdenotes, rfl⟩ := hbody
      exact Graph.Denotes.yields_place (.named name _ _ flags) g₁.idOf (.named name _) hs₁ hdenotes
        (fun _ => rfl) rfl rfl
    | union parts =>
      rw [build, normalForm]
      refine .bind (yields_buildParts ih hs hbare') fun edges g₁ hs₁ _ hedges => ?_
      obtain ⟨hdenotes, rfl⟩ := hedges
      refine yields_union hs₁ (fun c hc => ?_) hdenotes
      rw [normalParts_eq_map] at hc
      obtain ⟨d, -, rfl⟩ := List.mem_map.1 hc
      exact normal_normalForm d
    | atom id =>
      rw [build, normalForm]
      exact .pure hs (.atom (hbare id (.atom id)))

end TypeExpr

namespace Run

variable [Deferral δ]

omit [Deferral δ] in
theorem Opaque.bare {r : Run δ} {id : TypeId} (hid : r.Opaque id)
    (h : r.graph.Sound r.declared) : r.graph.Bare id := by
  refine ⟨?_, hid.not_mem_shared h⟩
  rcases hid with hdeclared | ⟨node, hnode, -⟩
  · exact h.index_lt_of_declared hdeclared
  · exact Graph.index_lt_of_node? hnode

/-- Types are known by their structure. Two expressions that are made at any two points of a run,
whatever happens between them, give the same type if and only if they have the same normal form.
Their atoms are types that are never shared. -/
theorem structural_identity (ops₁ ops₂ : List (Operation (Edge δ) TypeId)) (e₁ e₂ : TypeExpr) :
    let r₁ := (start : Run δ).after ops₁
    let r₂ := (r₁.build e₁.build).after ops₂
    (∀ a, e₁.Mentions a → r₁.Opaque a) → (∀ a, e₂.Mentions a → r₂.Opaque a) →
      ∃ id₁ id₂, (e₁.build r₁.graph).result = .ok id₁ ∧ (e₂.build r₂.graph).result = .ok id₂ ∧
        (id₁ = id₂ ↔ e₁.normalForm = e₂.normalForm) := by
  intro r₁ r₂ h₁ h₂
  have hs₁ : r₁.graph.Sound r₁.declared := sound ops₁
  obtain ⟨id₁, g₁, events₁, hbuild₁, hs₁', -, hid₁⟩ :=
    e₁.built hs₁ fun a ha => (h₁ a ha).bare hs₁
  have hgraph : (r₁.build e₁.build).graph = g₁ := by
    show (e₁.build r₁.graph).graph = g₁
    rw [hbuild₁]
  obtain ⟨hs₂, hext⟩ : r₂.graph.Sound r₂.declared ∧ g₁.Extends r₂.graph := by
    rw [← hgraph]
    exact sound_after (hgraph ▸ hs₁') ops₂
  obtain ⟨id₂, g₂, events₂, hbuild₂, hs₂', hext₂, hid₂⟩ :=
    e₂.built hs₂ fun a ha => (h₂ a ha).bare hs₂
  refine ⟨id₁, id₂, by rw [hbuild₁], by rw [hbuild₂], ?_⟩
  -- in the last graph the two ids are those of the two normal forms
  have hid₁ : g₂.Denotes e₁.normalForm id₁ := hid₁.mono hs₁' (hext.trans hext₂)
  constructor
  · rintro rfl
    exact hid₁.expr_unique hid₂ hs₂' e₁.normal_normalForm e₂.normal_normalForm
  · intro hnormal
    rw [hnormal] at hid₁
    exact hid₁.id_unique hid₂ hs₂'

/-- An object whose property is given twice, the second time with a declared object for its type,
and the object in which that type is a union with itself, made after the definition, are the
same. -/
theorem structural_identity_across_definition :
    let r₁ := (start : Run Recipe).after [.declare "A"]
    let e₁ : TypeExpr := .object [⟨"p", .literal "x", .none⟩, ⟨"p", .atom ⟨11⟩, .none⟩] none
    let r₂ := (r₁.build e₁.build).after [.define ⟨11⟩ [] none .none]
    let e₂ : TypeExpr := .object [⟨"p", .union [.atom ⟨11⟩, .atom ⟨11⟩], .none⟩] none
    (∀ a, e₁.Mentions a → r₁.Opaque a) ∧ (∀ a, e₂.Mentions a → r₂.Opaque a) ∧
      ∃ id, (e₁.build r₁.graph).result = .ok id ∧ (e₂.build r₂.graph).result = .ok id := by
  intro r₁ e₁ r₂ e₂
  have hdeclared : ⟨11⟩ ∈ r₁.declared := by
    show (⟨11⟩ : TypeId) ∈ ((start : Run Recipe).perform (.declare "A")).declared
    rw [declared_perform_declare, graph_start, Graph.size_fresh]
    exact List.mem_cons_self
  have h₁ : ∀ a, e₁.Mentions a → r₁.Opaque a := by
    intro a ha
    obtain rfl : a = ⟨11⟩ := by simpa [e₁, Body.types] using ha
    exact .inl hdeclared
  have h₂ : ∀ a, e₂.Mentions a → r₂.Opaque a := by
    intro a ha
    obtain rfl : a = ⟨11⟩ := by simpa [e₂, Body.types] using ha
    refine .inl (mem_declared_after ?_ _)
    rwa [declared_build]
  have hnormal : e₁.normalForm = e₂.normalForm := by
    have hunion : (TypeExpr.union [.atom ⟨11⟩, .atom ⟨11⟩]).normalForm = .atom ⟨11⟩ := by
      simp [TypeExpr.normalForm, TypeExpr.normalParts, TypeExpr.leaves, TypeExpr.ofLeaves_singleton]
    show TypeExpr.object (Property.settle [⟨"p", .literal "x", .none⟩, ⟨"p", .atom ⟨11⟩, .none⟩])
      none = .object (Property.settle [⟨"p", TypeExpr.normalForm _, .none⟩]) none
    rw [hunion, ← Property.distinct_eq_settle, ← Property.distinct_eq_settle]
    rfl
  obtain ⟨id₁, id₂, hid₁, hid₂, hiff⟩ := structural_identity _ _ e₁ e₂ h₁ h₂
  obtain rfl := hiff.2 hnormal
  exact ⟨h₁, h₂, id₁, hid₁, hid₂⟩

end Run

end TypeGraph
