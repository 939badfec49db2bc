import TypeGraph.Proofs.Labels
import TypeGraph.Proofs.Lifecycle
import TypeGraph.Recipe

/-!
# Variants of discriminated objects

The members of a discriminated object are checked when it is made. `Graph.variants_eq_ok_iff` says
what the check finds out: each member has an entry under its quoted value, in order, and no value
occurs twice.

An object that is still pending has no properties, so that it never passes the check, and an object
that is not pending keeps its content. What was found out by the check is therefore right for good.
-/

namespace TypeGraph

variable {δ : Type}

namespace Graph

/-- The type at the id is a named object that has a property `key`, and the type of this property is
the string literal with the given label. -/
def IsTagged (g : Graph δ) (key : String) (id : TypeId) (label : String) : Prop :=
  ∃ name body p target value, g.slot? id = some ⟨name, .named name body⟩ ∧
    body.property? key = some p ∧ p.type = .direct target ∧
    g.slot? target = some ⟨label, .literal value⟩ ∧ label = Text.quoted value

/-- An object with the property is not pending, and neither is a string literal. -/
theorem IsTagged.later {g g' : Graph δ} {key label : String} {id : TypeId}
    (h : g.IsTagged key id label) {history : List Milestone} (hlife : g.Lifecycle history)
    (hlater : g.Later g') : g'.IsTagged key id label := by
  obtain ⟨name, body, p, target, value, hslot, hp, htype, htarget, hlabel⟩ := h
  refine ⟨name, body, p, target, value, ?_, hp, htype, ?_, hlabel⟩
  · refine hlife.slot?_later hlater hslot ?_
    rintro name' hempty
    cases hempty
    cases hp
  · refine hlife.slot?_later hlater htarget ?_
    rintro name' hempty
    cases hempty

variable [Deferral δ]

theorem discriminator_eq_ok_iff {g : Graph δ} {object key value : String} {member : Edge δ} :
    g.discriminator object key member = .ok value ↔
      ∃ name body p, g.node? (g.resolve member) = some (.named name body) ∧
        body.property? key = some p ∧ g.node? (g.resolve p.type) = some (.literal value) := by
  constructor
  · intro h
    unfold discriminator at h
    split at h
    · cases h
    · next name body hnode =>
      split at h
      · cases h
      · next p hp =>
        split at h
        · cases h
        · next value' hvalue =>
          obtain rfl := Except.ok.inj h
          exact ⟨name, body, p, hnode, hp, hvalue⟩
        · cases h
    · cases h
  · rintro ⟨name, body, p, hnode, hp, hvalue⟩
    simp only [discriminator, hnode, hp, hvalue]

/-- The entry has the member under its quoted value. -/
def IsEntry (g : Graph δ) (object key : String) (entry : String × Edge δ) : Prop :=
  ∃ value, g.discriminator object key entry.2 = .ok value ∧ entry.1 = Text.quoted value

/-- One step of the check makes the entry of a member, if its value is new. -/
theorem variantsAfter_cons_eq_ok_iff {g : Graph δ} {object key : String} {member : Edge δ}
    {members : List (Edge δ)} {known variants : Variants (Edge δ)} :
    g.variantsAfter object key known (member :: members) = .ok variants ↔
      ∃ label, g.IsEntry object key (label, member) ∧ label ∉ known.map Prod.fst ∧
        g.variantsAfter object key (known ++ [(label, member)]) members = .ok variants := by
  have hany : ∀ label : String, known.any (·.1 == label) = true ↔ label ∈ known.map Prod.fst := by
    simp
  rw [variantsAfter]
  cases hvalue : g.discriminator object key member with
  | error failure => simp [IsEntry, hvalue]
  | ok value =>
    simp only [hany, IsEntry, hvalue, Except.ok.injEq, exists_eq_left']
    split_ifs with hmem
    · constructor
      · intro h
        cases h
      · rintro ⟨label, rfl, hnew, -⟩
        exact absurd hmem hnew
    · constructor
      · intro h
        exact ⟨_, rfl, hmem, h⟩
      · rintro ⟨label, rfl, -, h⟩
        exact h

theorem variantsAfter_eq_ok_iff {g : Graph δ} {object key : String} {members : List (Edge δ)}
    {known variants : Variants (Edge δ)} (hknown : (known.map Prod.fst).Nodup) :
    g.variantsAfter object key known members = .ok variants ↔
      ∃ new, variants = known ++ new ∧ new.map Prod.snd = members ∧
        (∀ entry ∈ new, g.IsEntry object key entry) ∧ (variants.map Prod.fst).Nodup := by
  induction members generalizing known with
  | nil =>
    simp only [variantsAfter, Except.ok.injEq, List.map_eq_nil_iff]
    constructor
    · rintro rfl
      exact ⟨[], by simp, rfl, by simp, hknown⟩
    · rintro ⟨new, rfl, rfl, -⟩
      simp
  | cons member members ih =>
    have hconcat : ∀ label, label ∉ known.map Prod.fst →
        ((known ++ [(label, member)]).map Prod.fst).Nodup := by
      intro label hnew
      rw [List.map_append]
      exact List.nodup_append_comm.1 (List.nodup_cons.2 ⟨hnew, hknown⟩)
    rw [variantsAfter_cons_eq_ok_iff]
    constructor
    · rintro ⟨label, hentry, hnew, h⟩
      obtain ⟨new, rfl, rfl, hentries, hnodup⟩ := (ih (hconcat label hnew)).1 h
      exact ⟨(label, member) :: new, by simp, rfl, List.forall_mem_cons.2 ⟨hentry, hentries⟩,
        hnodup⟩
    · rintro ⟨new, rfl, hmembers, hentries, hnodup⟩
      obtain ⟨⟨label, edge⟩, new, rfl, rfl, rfl⟩ := List.map_eq_cons_iff.1 hmembers
      obtain ⟨hentry, hentries⟩ := List.forall_mem_cons.1 hentries
      have hnew : label ∉ known.map Prod.fst := by
        intro hmem
        rw [List.map_append, List.nodup_append] at hnodup
        exact hnodup.2.2 _ hmem _ List.mem_cons_self rfl
      exact ⟨label, hentry, hnew,
        (ih (hconcat label hnew)).2 ⟨new, by simp, rfl, hentries, hnodup⟩⟩

/-- The check succeeds exactly if each member has a value and no two have the same. -/
theorem variants_eq_ok_iff {g : Graph δ} {object key : String} {members : List (Edge δ)}
    {variants : Variants (Edge δ)} :
    g.variants object key members = .ok variants ↔
      variants.map Prod.snd = members ∧ (∀ entry ∈ variants, g.IsEntry object key entry) ∧
        (variants.map Prod.fst).Nodup := by
  have hnil : (([] : Variants (Edge δ)).map Prod.fst).Nodup := List.nodup_nil
  rw [Graph.variants, variantsAfter_eq_ok_iff hnil]
  simp

theorem IsTagged.isEntry {g : Graph δ} {key label : String} {id : TypeId}
    (h : g.IsTagged key id label) (object : String) :
    g.IsEntry object key (label, .direct id) := by
  obtain ⟨name, body, p, target, value, hslot, hp, htype, htarget, hlabel⟩ := h
  refine ⟨value, discriminator_eq_ok_iff.2 ⟨name, body, p, ?_, hp, ?_⟩, hlabel⟩
  · exact node?_eq_some_iff.2 ⟨_, hslot, rfl⟩
  · rw [htype]
    exact node?_eq_some_iff.2 ⟨_, htarget, rfl⟩

theorem IsEntry.isTagged {g : Graph δ} {object key label : String} {id : TypeId}
    (h : g.IsEntry object key (label, .direct id)) (hlabelled : g.Labelled)
    (hdirect : ∀ name body p, g.node? id = some (.named name body) → body.property? key = some p →
      ∃ target, p.type = .direct target) : g.IsTagged key id label := by
  obtain ⟨value, hvalue, rfl⟩ := h
  obtain ⟨name, body, p, hnode, hp, hliteral⟩ := discriminator_eq_ok_iff.1 hvalue
  obtain ⟨target, htype⟩ := hdirect name body p hnode hp
  rw [htype] at hliteral
  obtain ⟨⟨label₁, node₁⟩, hslot, rfl⟩ := node?_eq_some_iff.1 hnode
  obtain ⟨⟨label₂, node₂⟩, htarget, rfl⟩ := node?_eq_some_iff.1 hliteral
  obtain rfl : label₁ = name := hlabelled _ _ hslot
  obtain rfl : label₂ = Text.quoted value := hlabelled _ _ htarget
  exact ⟨label₁, body, p, target, value, hslot, hp, htype, htarget, rfl⟩

end Graph

/-- A discriminated object takes the next free id, with the entries that the check has made. -/
theorem Build.discriminated_of_ok [Deferral δ] {name key : String} {members : List (Edge δ)}
    {g : Graph δ} {id : TypeId} (h : (discriminated name key members g).result = .ok id) :
    ∃ variants, g.variants name key members = .ok variants ∧ id = ⟨g.size⟩ ∧
      (discriminated name key members g).graph =
        g.push ⟨name, .discriminated name key variants⟩ := by
  unfold discriminated at h ⊢
  rw [read_bind_apply] at h ⊢
  cases hcheck : g.variants name key members with
  | error failure =>
    rw [hcheck] at h
    cases failure <;> cases h
  | ok variants =>
    rw [hcheck] at h
    obtain rfl := Except.ok.inj h
    exact ⟨variants, rfl, rfl, rfl⟩

namespace Run

variable [Deferral δ]

/-- A discriminated object that was made from ids, whose discriminators are given by ids as well,
stays valid: at every later point of the run the check succeeds and finds the entries that are
stored, and each of them leads to an object with the string literal of that label. -/
theorem discriminated_stays_valid (ops later : List (Operation (Edge δ) TypeId))
    (name key : String) (members : List TypeId) (id : TypeId) :
    let r := (start : Run δ).after ops
    let edges := members.map Edge.direct
    let r' := r.perform (.make (.discriminated name key edges))
    let g := (r'.after later).graph
    (Build.discriminated name key edges r.graph).result = .ok id →
    (∀ m ∈ members, ∀ n body p, r.graph.node? m = some (.named n body) →
      body.property? key = some p → ∃ target, p.type = .direct target) →
    ∃ variants, r'.graph.slot? id = some ⟨name, .discriminated name key variants⟩ ∧
      g.slot? id = some ⟨name, .discriminated name key variants⟩ ∧
      g.variants name key edges = .ok variants ∧
      ∀ label edge, (label, edge) ∈ variants → variants.member? label = some edge ∧
        ∃ m ∈ members, edge = .direct m ∧ m.index < g.size ∧ g.IsTagged key m label := by
  intro r edges r' g hok hdirect
  obtain ⟨variants, hcheck, rfl, hgraph⟩ := Build.discriminated_of_ok hok
  obtain ⟨hmembers, hentries, hnodup⟩ := Graph.variants_eq_ok_iff.1 hcheck
  have hlater : r.graph.Later g :=
    r.later_after (.make (.discriminated name key edges) :: later)
  -- what the check has found out is about types with content
  have htagged : ∀ label edge, (label, edge) ∈ variants →
      ∃ m ∈ members, edge = .direct m ∧ g.IsTagged key m label := by
    intro label edge hentry
    have hedge : edge ∈ edges := by
      rw [← hmembers]
      exact List.mem_map_of_mem hentry
    obtain ⟨m, hm, rfl⟩ := List.mem_map.1 hedge
    have hnow := (hentries _ hentry).isTagged (labelled ops) (hdirect m hm)
    exact ⟨m, hm, rfl, hnow.later (inStep ops).lifecycle hlater⟩
  have hslot : r'.graph.slot? ⟨r.graph.size⟩ = some ⟨name, .discriminated name key variants⟩ := by
    rw [graph_perform_make]
    show (Build.discriminated name key edges r.graph).graph.slot? _ = _
    rw [hgraph, Graph.slot?_push_size]
  refine ⟨variants, hslot, ?_, ?_, ?_⟩
  · have hlife := (inStep (δ := δ) (ops ++ [.make (.discriminated name key edges)])).lifecycle
    rw [after_concat] at hlife
    refine hlife.slot?_later (r'.later_after later) hslot ?_
    rintro n hempty
    cases hempty
  · refine Graph.variants_eq_ok_iff.2 ⟨hmembers, ?_, hnodup⟩
    rintro ⟨label, edge⟩ hentry
    obtain ⟨m, -, rfl, htag⟩ := htagged label edge hentry
    exact htag.isEntry name
  · intro label edge hentry
    obtain ⟨m, hm, rfl, htag⟩ := htagged label edge hentry
    refine ⟨(lookup_eq_some_iff_mem hnodup).2 hentry, m, hm, rfl, ?_, htag⟩
    obtain ⟨n, body, p, target, value, hobject, -⟩ := htag
    exact Graph.index_lt_of_slot? hobject

/-- A discriminated object of two members, one of which was declared first and then defined. It
stays valid when the same object is to be defined once more, when another object of the same name is
declared and defined, and when the name is registered for a third type. -/
theorem discriminated_stays_valid_across_definition :
    let r := (start : Run Recipe).after
      [.make (.literal "a"), .make (.literal "b"), .declare "A",
        .define ⟨13⟩ [⟨"kind", .direct ⟨11⟩, .none⟩] none .none,
        .make (.named "B" [⟨"kind", .direct ⟨12⟩, .none⟩] none .none)]
    let edges := [⟨13⟩, ⟨14⟩].map Edge.direct
    let variants := [(Text.quoted "a", .direct ⟨13⟩), (Text.quoted "b", .direct ⟨14⟩)]
    let r' := r.perform (.make (.discriminated "D" "kind" edges))
    let g := (r'.after [.define ⟨13⟩ [] none .none, .declare "A", .define ⟨16⟩ [] none .none,
      .register "A" (.direct .string)]).graph
    (Build.discriminated "D" "kind" edges r.graph).result = .ok ⟨15⟩ ∧
      (∀ m ∈ [⟨13⟩, ⟨14⟩], ∀ n body p, r.graph.node? m = some (.named n body) →
        body.property? "kind" = some p → ∃ target, p.type = .direct target) ∧
      r'.graph.slot? ⟨15⟩ = some ⟨"D", .discriminated "D" "kind" variants⟩ ∧
      g.slot? ⟨15⟩ = some ⟨"D", .discriminated "D" "kind" variants⟩ ∧
      g.variants "D" "kind" edges = .ok variants := by
  intro r edges variants r' g
  have hok : (Build.discriminated "D" "kind" edges r.graph).result = .ok ⟨15⟩ := by
    simp only [r, after_cons, after_nil, perform, graph_start, Graph.fresh_eq]
    rfl
  have hnodes :
      r.graph.node? ⟨13⟩ = some (.named "A" ⟨[⟨"kind", .direct ⟨11⟩, .none⟩], none, .none⟩) ∧
      r.graph.node? ⟨14⟩ = some (.named "B" ⟨[⟨"kind", .direct ⟨12⟩, .none⟩], none, .none⟩) := by
    simp only [r, after_cons, after_nil, perform, graph_start, Graph.fresh_eq]
    exact ⟨rfl, rfl⟩
  have hdirect : ∀ m ∈ [⟨13⟩, ⟨14⟩], ∀ n body p, r.graph.node? m = some (.named n body) →
      body.property? "kind" = some p → ∃ target, p.type = .direct target := by
    rintro m hm n body p hnode hp
    rcases List.mem_pair.1 hm with rfl | rfl
    · cases hnodes.1.symm.trans hnode
      exact ⟨⟨11⟩, congrArg Property.type (Option.some.inj hp).symm⟩
    · cases hnodes.2.symm.trans hnode
      exact ⟨⟨12⟩, congrArg Property.type (Option.some.inj hp).symm⟩
  have hstored : r'.graph.slot? ⟨15⟩ = some ⟨"D", .discriminated "D" "kind" variants⟩ := by
    simp only [r', r, after_cons, after_nil, perform, graph_start, Graph.fresh_eq]
    rfl
  obtain ⟨variants', hslot, hkept, hcheck, -⟩ :=
    discriminated_stays_valid _ _ "D" "kind" [⟨13⟩, ⟨14⟩] ⟨15⟩ hok hdirect
  cases hstored.symm.trans hslot
  exact ⟨hok, hdirect, hstored, hkept, hcheck⟩

end Run

end TypeGraph
