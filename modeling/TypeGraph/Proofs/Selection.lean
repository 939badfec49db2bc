import TypeGraph.Proofs.Offences

/-!
# Selecting a member by its value

The entries of a discriminated object are kept under quoted values, and a member is looked up under
the quoted form of the value that is asked for. `Graph.memberFor?_eq_some_iff` says that the lookup
finds exactly the member that had this value when the object was made, and
`Graph.member?_eq_some_iff` says the same for lookups by quoted values.
-/

namespace TypeGraph

variable {δ : Type} [Deferral δ]

namespace Graph

variable {g : Graph δ} {object key : String} {members : List (Edge δ)}
  {variants : Variants (Edge δ)}

/-- The entries are the members with their quoted values. -/
theorem mem_variants_iff (h : g.variants object key members = .ok variants) {label : String}
    {member : Edge δ} :
    (label, member) ∈ variants ↔
      member ∈ members ∧ ∃ value, g.HasTag key member value ∧ label = Text.quoted value := by
  constructor
  · intro hentry
    obtain ⟨hmembers, hentries, -⟩ := variants_eq_ok_iff.1 h
    obtain ⟨value, htag, hlabel⟩ := hentries _ hentry
    refine ⟨?_, value, (hasTag_iff object).2 htag, hlabel⟩
    rw [← hmembers]
    exact List.mem_map_of_mem hentry
  · rintro ⟨hmember, value, htag, rfl⟩
    obtain ⟨i, hi⟩ := List.getElem?_of_mem hmember
    obtain ⟨value', htag', hentry⟩ := getElem?_of_variants_eq_ok h hi
    rw [htag.unique htag']
    exact List.mem_of_getElem? hentry

theorem member?_eq_some_iff (h : g.variants object key members = .ok variants) {label : String}
    {member : Edge δ} :
    variants.member? label = some member ↔
      member ∈ members ∧ ∃ value, g.HasTag key member value ∧ label = Text.quoted value := by
  rw [Variants.member?, lookup_eq_some_iff_mem (variants_eq_ok_iff.1 h).2.2, mem_variants_iff h]

/-- Values are told apart by their quoted forms. -/
theorem memberFor?_eq_some_iff (h : g.variants object key members = .ok variants) {value : String}
    {member : Edge δ} :
    variants.memberFor? value = some member ↔ member ∈ members ∧ g.HasTag key member value := by
  rw [Variants.memberFor?, member?_eq_some_iff h]
  simp

theorem memberFor?_eq_none_iff (h : g.variants object key members = .ok variants)
    {value : String} :
    variants.memberFor? value = none ↔ ∀ member ∈ members, ¬ g.HasTag key member value := by
  simp only [Option.eq_none_iff_forall_ne_some, ne_eq, memberFor?_eq_some_iff h, not_and]

end Graph

namespace Run

/-- A discriminated object keeps the entries that the check has made for the rest of the run. -/
theorem exists_variants_after {ops : List (Operation (Edge δ) TypeId)} {name key : String}
    {members : List (Edge δ)} {id : TypeId}
    (h : (Build.discriminated name key members ((start : Run δ).after ops).graph).result = .ok id)
    (later : List (Operation (Edge δ) TypeId)) :
    let r := (start : Run δ).after ops
    let g := ((r.perform (.make (.discriminated name key members))).after later).graph
    ∃ variants, r.graph.variants name key members = .ok variants ∧
      g.slot? id = some ⟨name, .discriminated name key variants⟩ := by
  intro r g
  obtain ⟨variants, hcheck, rfl, hgraph⟩ := Build.discriminated_of_ok h
  refine ⟨variants, hcheck, ?_⟩
  have hlife := (inStep (δ := δ) (ops ++ [.make (.discriminated name key members)])).lifecycle
  rw [after_concat] at hlife
  refine hlife.slot?_later (later_after _ later) ?_ ?_
  · rw [graph_perform_make]
    show (Build.discriminated name key members _).graph.slot? _ = _
    rw [hgraph, Graph.slot?_push_size]
  · rintro n hempty
    cases hempty

/-- Members are selected exactly by their values. Once a discriminated object is made, from direct
or deferred edges, the member for a value is the one whose discriminator was the string literal with
this value at that time. There is at most one such member, and if there is none, then none is found.
A lookup by a key finds a member exactly if the key is the quoted form of such a value, and it finds
the member for that value. -/
theorem members_selected_by_value (ops later : List (Operation (Edge δ) TypeId))
    (name key : String) (members : List (Edge δ)) (id : TypeId) :
    let r := (start : Run δ).after ops
    let g := ((r.perform (.make (.discriminated name key members))).after later).graph
    (Build.discriminated name key members r.graph).result = .ok id →
    ∃ variants, g.slot? id = some ⟨name, .discriminated name key variants⟩ ∧
      (∀ (i : ℕ) member value, members[i]? = some member →
        (variants.memberFor? value = some member ↔ r.graph.HasTag key member value)) ∧
      (∀ (i j : ℕ) member member' value, members[i]? = some member → members[j]? = some member' →
        r.graph.HasTag key member value → r.graph.HasTag key member' value → i = j) ∧
      (∀ value, variants.memberFor? value = none ↔
        ∀ member ∈ members, ¬ r.graph.HasTag key member value) ∧
      (∀ label, (∃ member, variants.member? label = some member) ↔
        ∃ value, (∃ member ∈ members, r.graph.HasTag key member value) ∧
          label = Text.quoted value) ∧
      ∀ value, variants.member? (Text.quoted value) = variants.memberFor? value := by
  intro r g hok
  obtain ⟨variants, hcheck, hslot⟩ := exists_variants_after hok later
  refine ⟨variants, hslot, fun i member value hi => ?_, ?_,
    fun value => Graph.memberFor?_eq_none_iff hcheck, fun label => ?_, fun value => rfl⟩
  · rw [Graph.memberFor?_eq_some_iff hcheck]
    exact and_iff_right (List.mem_of_getElem? hi)
  · intro i j member member' value hi hj
    exact Graph.index_eq_of_hasTag hcheck hi hj
  · simp only [Graph.member?_eq_some_iff hcheck]
    constructor
    · rintro ⟨member, hmember, value, htag, hlabel⟩
      exact ⟨value, ⟨member, hmember, htag⟩, hlabel⟩
    · rintro ⟨value, ⟨member, hmember, htag⟩, hlabel⟩
      exact ⟨member, hmember, value, htag, hlabel⟩

/-- Two members whose values need escapes, one of them given by a name that is registered for
another type later on. The value of the second is a backslash and a letter, and no member is found
for the line feed that is written in this way. -/
theorem members_selected_by_value_with_escapes :
    let r := (start : Run Recipe).after
      [.make (.literal "it's $\x7b"), .make (.literal "\\n"),
        .make (.named "A" [⟨"kind", .direct ⟨11⟩, .none⟩] none .none),
        .make (.named "B" [⟨"kind", .deferred (.fixed ⟨12⟩), .none⟩] none .none)]
    let a : Edge Recipe := .deferred (.named "A" (.fixed ⟨13⟩))
    let b : Edge Recipe := .direct ⟨14⟩
    let g := ((r.perform (.make (.discriminated "D" "kind" [a, b]))).after
      [.register "A" (.direct .string)]).graph
    (Build.discriminated "D" "kind" [a, b] r.graph).result = .ok ⟨15⟩ ∧
      ∃ variants, g.slot? ⟨15⟩ = some ⟨"D", .discriminated "D" "kind" variants⟩ ∧
        variants.memberFor? "it's $\x7b" = some a ∧ variants.memberFor? "\\n" = some b ∧
        variants.memberFor? "\n" = none := by
  intro r a b g
  have hok : (Build.discriminated "D" "kind" [a, b] r.graph).result = .ok ⟨15⟩ := by
    simp only [r, after_cons, after_nil, perform, graph_start, Graph.fresh_eq]
    rfl
  have htags : r.graph.HasTag "kind" a "it's $\x7b" ∧ r.graph.HasTag "kind" b "\\n" := by
    rw [Graph.hasTag_iff "D", Graph.hasTag_iff "D"]
    simp only [r, after_cons, after_nil, perform, graph_start, Graph.fresh_eq]
    exact ⟨rfl, rfl⟩
  obtain ⟨variants, hslot, hfound, -, hnone, -⟩ :=
    members_selected_by_value _ [.register "A" (.direct .string)] "D" "kind" [a, b] ⟨15⟩ hok
  refine ⟨hok, variants, hslot, (hfound 0 a _ rfl).2 htags.1, (hfound 1 b _ rfl).2 htags.2, ?_⟩
  refine (hnone "\n").2 fun member hmember htag => ?_
  rcases List.mem_pair.1 hmember with rfl | rfl
  · exact absurd (htag.unique htags.1) (by decide)
  · exact absurd (htag.unique htags.2) (by decide)

end Run

end TypeGraph
