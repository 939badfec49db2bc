import Mathlib.Data.List.Induction
import TypeGraph.Proofs.Quoting
import TypeGraph.Proofs.Variants

/-!
# What is wrong with the members of a discriminated object

The check of the members stops at the first that is not as it should be. Here it is said without the
check what can be wrong: with a member on its own (`Graph.Flaw`), and with the member at an index of
the list (`Graph.Offence`), which may repeat the value of an earlier one.

* `Graph.variants_eq_error_iff`: the check reports the offence at the least index that has one.
* `Graph.getElem?_of_variants_eq_ok`: a check that succeeds makes one entry for each member.

The check compares values in their quoted form. That this is as good as comparing the values rests
on `Text.quoted_injective`.
-/

namespace TypeGraph

variable {δ : Type}

namespace Graph

theorem node?_eq_none_iff {g : Graph δ} {id : TypeId} : g.node? id = none ↔ g.size ≤ id.index := by
  rw [node?, Option.map_eq_none_iff, slot?_eq_none_iff]

theorem Labelled.display_eq_name {g : Graph δ} (h : g.Labelled) {id : TypeId} {name : String}
    {body : Body (Edge δ)} (hnode : g.node? id = some (.named name body)) :
    g.display id = name := by
  obtain ⟨⟨label, node⟩, hslot, rfl⟩ := node?_eq_some_iff.1 hnode
  rw [display, hslot]
  exact h id _ hslot

variable [Deferral δ]

/-- The edge leads to a named object whose property `key` is the string literal with the given
value. -/
def HasTag (g : Graph δ) (key : String) (member : Edge δ) (value : String) : Prop :=
  ∃ name body p, g.node? (g.resolve member) = some (.named name body) ∧
    body.property? key = some p ∧ g.node? (g.resolve p.type) = some (.literal value)

theorem hasTag_iff {g : Graph δ} {key value : String} {member : Edge δ} (object : String) :
    g.HasTag key member value ↔ g.discriminator object key member = .ok value :=
  discriminator_eq_ok_iff.symm

theorem HasTag.unique {g : Graph δ} {key value value' : String} {member : Edge δ}
    (h : g.HasTag key member value) (h' : g.HasTag key member value') : value = value' := by
  rw [hasTag_iff key] at h h'
  exact Except.ok.inj (h.symm.trans h')

/-- What is wrong with a member of a discriminated object on its own. Each case supposes that those
above it do not apply. -/
inductive Flaw (g : Graph δ) (object key : String) (member : Edge δ) : Failure → Prop
  /-- There is no such type. -/
  | dangling (missing : g.size ≤ (g.resolve member).index) : Flaw g object key member .dangling
  /-- The type is not a named object. -/
  | notObject {node : Node (Edge δ)} (found : g.node? (g.resolve member) = some node)
      (other : ∀ name body, node ≠ .named name body) :
      Flaw g object key member
        (.refused (.memberNotObject object (g.display (g.resolve member)) node.kind))
  /-- The object has no property `key`. -/
  | missing {name : String} {body : Body (Edge δ)}
      (found : g.node? (g.resolve member) = some (.named name body))
      (lacks : ∀ p ∈ body.properties, p.name ≠ key) :
      Flaw g object key member (.refused (.missingDiscriminator object name key))
  /-- The property leads to no type. -/
  | typeDangling {name : String} {body : Body (Edge δ)} {p : Property (Edge δ)}
      (found : g.node? (g.resolve member) = some (.named name body))
      (property : body.property? key = some p) (missing : g.size ≤ (g.resolve p.type).index) :
      Flaw g object key member .dangling
  /-- The property is not a string literal. -/
  | notLiteral {name : String} {body : Body (Edge δ)} {p : Property (Edge δ)}
      {node : Node (Edge δ)} (found : g.node? (g.resolve member) = some (.named name body))
      (property : body.property? key = some p) (type : g.node? (g.resolve p.type) = some node)
      (other : ∀ value, node ≠ .literal value) :
      Flaw g object key member
        (.refused (.discriminatorNotLiteral object name key (g.display (g.resolve p.type))))

/-- The check of a single member fails exactly if the member has a flaw. -/
theorem discriminator_eq_error_iff {g : Graph δ} (hlabelled : g.Labelled) {object key : String}
    {member : Edge δ} {failure : Failure} :
    g.discriminator object key member = .error failure ↔ g.Flaw object key member failure := by
  constructor
  · intro h
    unfold discriminator at h
    split at h
    · next hnode =>
      obtain rfl := Except.error.inj h
      exact .dangling (node?_eq_none_iff.1 hnode)
    · next name body hnode =>
      rw [hlabelled.display_eq_name hnode] at h
      split at h
      · next hp =>
        obtain rfl := Except.error.inj h
        exact .missing hnode (by simpa [Body.property?] using hp)
      · next p hp =>
        split at h
        · next htype =>
          obtain rfl := Except.error.inj h
          exact .typeDangling hnode hp (node?_eq_none_iff.1 htype)
        · cases h
        · next node hother htype =>
          obtain rfl := Except.error.inj h
          exact .notLiteral hnode hp htype hother
    · next node hother hnode =>
      obtain rfl := Except.error.inj h
      exact .notObject hnode hother
  · intro h
    cases h with
    | dangling hsize => simp only [discriminator, node?_eq_none_iff.2 hsize]
    | @notObject node hnode hother =>
      cases node with
      | named name body => exact absurd rfl (hother name body)
      | _ => simp only [discriminator, hnode]
    | @missing name body hnode hlacks =>
      have hp : body.property? key = none := List.find?_eq_none.2 (by simpa using hlacks)
      simp only [discriminator, hnode, hp, hlabelled.display_eq_name hnode]
    | typeDangling hnode hp hsize =>
      simp only [discriminator, hnode, hp, node?_eq_none_iff.2 hsize]
    | @notLiteral name body p node hnode hp htype hother =>
      cases node with
      | literal value => exact absurd rfl (hother value)
      | _ => simp only [discriminator, hnode, hp, htype, hlabelled.display_eq_name hnode]

/-! ### Lists of members -/

/-- What is wrong with the member at an index of the list: it has a flaw, or its value is that of an
earlier member. -/
inductive Offence (g : Graph δ) (object key : String) (members : List (Edge δ)) (i : ℕ) :
    Failure → Prop
  | flaw {member : Edge δ} {failure : Failure} (at_index : members[i]? = some member)
      (flaw : g.Flaw object key member failure) : Offence g object key members i failure
  | repeated {member earlier : Edge δ} {j : ℕ} {value : String}
      (at_index : members[i]? = some member) (tag : g.HasTag key member value) (lt : j < i)
      (at_earlier : members[j]? = some earlier) (tag_earlier : g.HasTag key earlier value) :
      Offence g object key members i
        (.refused (.repeatedDiscriminator object (g.display (g.resolve member)) key
          (Text.quoted value)))

/-- The offence at the least index that has one. -/
structure FirstOffence (g : Graph δ) (object key : String) (members : List (Edge δ)) (i : ℕ)
    (failure : Failure) : Prop where
  offence : g.Offence object key members i failure
  least : ∀ j < i, ∀ failure', ¬ g.Offence object key members j failure'

section

variable {g : Graph δ} {object key : String}

/-- Members behind an index do not matter there. -/
theorem Offence.congr {members members' : List (Edge δ)} {i : ℕ} {failure : Failure}
    (h : g.Offence object key members i failure) (hsame : ∀ j ≤ i, members'[j]? = members[j]?) :
    g.Offence object key members' i failure := by
  cases h with
  | flaw hi hflaw => exact .flaw ((hsame i le_rfl).trans hi) hflaw
  | repeated hi htag hlt hj htag' =>
    exact .repeated ((hsame i le_rfl).trans hi) htag hlt ((hsame _ hlt.le).trans hj) htag'

theorem offence_append_iff {members rest : List (Edge δ)} {i : ℕ} (hi : i < members.length)
    {failure : Failure} :
    g.Offence object key (members ++ rest) i failure ↔ g.Offence object key members i failure := by
  have hsame : ∀ j ≤ i, (members ++ rest)[j]? = members[j]? :=
    fun j hj => List.getElem?_append_left (lt_of_le_of_lt hj hi)
  exact ⟨fun h => h.congr fun j hj => (hsame j hj).symm, fun h => h.congr hsame⟩

theorem FirstOffence.append {members : List (Edge δ)} {i : ℕ} {failure : Failure}
    (h : g.FirstOffence object key members i failure) (rest : List (Edge δ)) :
    g.FirstOffence object key (members ++ rest) i failure := by
  have hi : i < members.length := by
    cases h.offence with
    | flaw hi _ => exact (List.getElem?_eq_some_iff.1 hi).1
    | repeated hi _ _ _ _ => exact (List.getElem?_eq_some_iff.1 hi).1
  refine ⟨(offence_append_iff hi).2 h.offence, fun j hj failure' hoffence => ?_⟩
  exact h.least j hj failure' ((offence_append_iff (hj.trans hi)).1 hoffence)

/-- A member with a value has no flaw. -/
theorem Flaw.not_hasTag (hlabelled : g.Labelled) {member : Edge δ} {failure : Failure}
    (h : g.Flaw object key member failure) {value : String} : ¬ g.HasTag key member value := by
  intro htag
  rw [hasTag_iff object] at htag
  cases htag.symm.trans ((discriminator_eq_error_iff hlabelled).2 h)

/-- There is one thing wrong at an index at most. -/
theorem Offence.unique (hlabelled : g.Labelled) {members : List (Edge δ)} {i : ℕ}
    {failure failure' : Failure} (h : g.Offence object key members i failure)
    (h' : g.Offence object key members i failure') : failure = failure' := by
  cases h with
  | flaw hi hflaw =>
    cases h' with
    | flaw hi' hflaw' =>
      obtain rfl := Option.some.inj (hi.symm.trans hi')
      rw [← discriminator_eq_error_iff hlabelled] at hflaw hflaw'
      exact Except.error.inj (hflaw.symm.trans hflaw')
    | repeated hi' htag _ _ _ =>
      obtain rfl := Option.some.inj (hi.symm.trans hi')
      exact absurd htag (hflaw.not_hasTag hlabelled)
  | repeated hi htag _ _ _ =>
    cases h' with
    | flaw hi' hflaw =>
      obtain rfl := Option.some.inj (hi.symm.trans hi')
      exact absurd htag (hflaw.not_hasTag hlabelled)
    | repeated hi' htag' _ _ _ =>
      obtain rfl := Option.some.inj (hi.symm.trans hi')
      rw [htag.unique htag']

theorem FirstOffence.unique (hlabelled : g.Labelled) {members : List (Edge δ)} {i i' : ℕ}
    {failure failure' : Failure} (h : g.FirstOffence object key members i failure)
    (h' : g.FirstOffence object key members i' failure') : failure = failure' := by
  rcases lt_trichotomy i i' with hlt | rfl | hlt
  · exact absurd h.offence (h'.least i hlt failure)
  · exact h.offence.unique hlabelled h'.offence
  · exact absurd h'.offence (h.least i' hlt failure')

/-! ### The check -/

/-- The check goes on behind a part of the list that passes. -/
theorem variantsAfter_append (known : Variants (Edge δ)) (members rest : List (Edge δ)) :
    g.variantsAfter object key known (members ++ rest) =
      (g.variantsAfter object key known members).bind
        fun entries => g.variantsAfter object key entries rest := by
  induction members generalizing known with
  | nil => rfl
  | cons member members ih =>
    rw [List.cons_append, variantsAfter, variantsAfter]
    cases g.discriminator object key member with
    | error failure => rfl
    | ok value =>
      dsimp only
      split_ifs
      · rfl
      · exact ih _

theorem variants_append (members rest : List (Edge δ)) :
    g.variants object key (members ++ rest) =
      (g.variants object key members).bind
        fun entries => g.variantsAfter object key entries rest :=
  variantsAfter_append [] members rest

variable {members : List (Edge δ)} {variants : Variants (Edge δ)}

/-- If the check succeeds, then each member has a value, and an entry under the quoted value at its
place. -/
theorem getElem?_of_variants_eq_ok (h : g.variants object key members = .ok variants) {i : ℕ}
    {member : Edge δ} (hi : members[i]? = some member) :
    ∃ value, g.HasTag key member value ∧ variants[i]? = some (Text.quoted value, member) := by
  obtain ⟨hmembers, hentries, -⟩ := variants_eq_ok_iff.1 h
  rw [← hmembers, List.getElem?_map] at hi
  obtain ⟨⟨label, edge⟩, hentry, rfl⟩ := Option.map_eq_some_iff.1 hi
  obtain ⟨value, htag, hlabel⟩ := hentries _ (List.mem_of_getElem? hentry)
  obtain rfl : label = Text.quoted value := hlabel
  exact ⟨value, (hasTag_iff object).2 htag, hentry⟩

/-- If the check succeeds, then no two members have the same value. -/
theorem index_eq_of_hasTag (h : g.variants object key members = .ok variants) {i j : ℕ}
    {member member' : Edge δ} {value : String} (hi : members[i]? = some member)
    (hj : members[j]? = some member') (htag : g.HasTag key member value)
    (htag' : g.HasTag key member' value) : i = j := by
  obtain ⟨value₁, htag₁, hentry⟩ := getElem?_of_variants_eq_ok h hi
  obtain ⟨value₂, htag₂, hentry'⟩ := getElem?_of_variants_eq_ok h hj
  obtain rfl := htag.unique htag₁
  obtain rfl := htag'.unique htag₂
  -- the entries of the two members have the same key
  have hnodup := (variants_eq_ok_iff.1 h).2.2
  have hlt : i < (variants.map Prod.fst).length := by
    simpa using (List.getElem?_eq_some_iff.1 hentry).1
  have hsame : (variants.map Prod.fst)[i]? = (variants.map Prod.fst)[j]? := by
    simp only [List.getElem?_map, hentry, hentry', Option.map_some]
  exact (List.getElem?_inj hlt hnodup).1 hsame

/-- If the check succeeds, then nothing is wrong. -/
theorem not_offence_of_variants_eq_ok (hlabelled : g.Labelled)
    (h : g.variants object key members = .ok variants) (i : ℕ) (failure : Failure) :
    ¬ g.Offence object key members i failure := by
  intro hoffence
  cases hoffence with
  | flaw hi hflaw =>
    obtain ⟨value, htag, -⟩ := getElem?_of_variants_eq_ok h hi
    exact hflaw.not_hasTag hlabelled htag
  | repeated hi htag hlt hj htag' => exact hlt.ne (index_eq_of_hasTag h hj hi htag' htag)

/-- What makes the check fail at the last member, if all others pass, is wrong with it. -/
theorem offence_of_last (hlabelled : g.Labelled) {member : Edge δ} {failure : Failure}
    (h : g.variants object key members = .ok variants)
    (hlast : g.variantsAfter object key variants [member] = .error failure) :
    g.Offence object key (members ++ [member]) members.length failure := by
  have hi : (members ++ [member])[members.length]? = some member := by simp
  rw [variantsAfter] at hlast
  cases hvalue : g.discriminator object key member with
  | error failure' =>
    rw [hvalue] at hlast
    obtain rfl := Except.error.inj hlast
    exact .flaw hi ((discriminator_eq_error_iff hlabelled).1 hvalue)
  | ok value =>
    simp only [hvalue, variantsAfter] at hlast
    split_ifs at hlast with hany
    obtain rfl := Except.error.inj hlast
    obtain ⟨⟨label, earlier⟩, hentry, hlabel⟩ := List.any_eq_true.1 hany
    obtain rfl : label = Text.quoted value := by simpa using hlabel
    obtain ⟨j, hj⟩ := List.getElem?_of_mem hentry
    have hj' : members[j]? = some earlier := by
      rw [← (variants_eq_ok_iff.1 h).1, List.getElem?_map, hj, Option.map_some]
    have hlt : j < members.length := (List.getElem?_eq_some_iff.1 hj').1
    obtain ⟨value', htag, hentry'⟩ := getElem?_of_variants_eq_ok h hj'
    obtain ⟨hquoted, -⟩ := Prod.mk.inj (Option.some.inj (hj.symm.trans hentry'))
    obtain rfl := Text.quoted_injective hquoted
    refine .repeated hi ((hasTag_iff object).2 hvalue) hlt ?_ htag
    rw [List.getElem?_append_left hlt, hj']

/-- A check that fails reports the first offence. -/
theorem exists_firstOffence (hlabelled : g.Labelled) {failure : Failure}
    (h : g.variants object key members = .error failure) :
    ∃ i, g.FirstOffence object key members i failure := by
  induction members using List.reverseRecOn with
  | nil => cases h
  | append_singleton members member ih =>
    rw [variants_append] at h
    cases hmembers : g.variants object key members with
    | error failure' =>
      rw [hmembers] at h
      obtain rfl := Except.error.inj h
      obtain ⟨i, hi⟩ := ih hmembers
      exact ⟨i, hi.append [member]⟩
    | ok variants =>
      rw [hmembers] at h
      refine ⟨members.length, offence_of_last hlabelled hmembers h, ?_⟩
      intro j hj failure' hoffence
      rw [offence_append_iff hj] at hoffence
      exact not_offence_of_variants_eq_ok hlabelled hmembers j failure' hoffence

/-- If nothing is wrong, then the check succeeds. -/
theorem exists_variants_eq_ok (hlabelled : g.Labelled)
    (hnone : ∀ i failure, ¬ g.Offence object key members i failure) :
    ∃ variants, g.variants object key members = .ok variants := by
  cases h : g.variants object key members with
  | error failure =>
    obtain ⟨i, hi⟩ := exists_firstOffence hlabelled h
    exact absurd hi.offence (hnone i failure)
  | ok variants => exact ⟨variants, rfl⟩

/-- The check reports the first offence and nothing else. -/
theorem variants_eq_error_iff (hlabelled : g.Labelled) {failure : Failure} :
    g.variants object key members = .error failure ↔
      ∃ i, g.FirstOffence object key members i failure := by
  constructor
  · exact exists_firstOffence hlabelled
  · rintro ⟨i, hi⟩
    cases h : g.variants object key members with
    | error failure' =>
      obtain ⟨i', hi'⟩ := exists_firstOffence hlabelled h
      rw [hi.unique hlabelled hi']
    | ok variants =>
      exact absurd hi.offence (not_offence_of_variants_eq_ok hlabelled h i failure)

/-- The check succeeds exactly if nothing is wrong, and the entries are those of the members. -/
theorem variants_eq_ok_iff_forall (hlabelled : g.Labelled) :
    g.variants object key members = .ok variants ↔
      (∀ i failure, ¬ g.Offence object key members i failure) ∧
        variants.length = members.length ∧
        ∀ (i : ℕ) member, members[i]? = some member →
          ∃ value, g.HasTag key member value ∧ variants[i]? = some (Text.quoted value, member) := by
  constructor
  · intro h
    refine ⟨not_offence_of_variants_eq_ok hlabelled h, ?_, fun i member hi => ?_⟩
    · rw [← (variants_eq_ok_iff.1 h).1, List.length_map]
    · exact getElem?_of_variants_eq_ok h hi
  · rintro ⟨hnone, hlength, hentries⟩
    obtain ⟨variants', h⟩ := exists_variants_eq_ok hlabelled hnone
    have hlength' : variants'.length = members.length := by
      rw [← (variants_eq_ok_iff.1 h).1, List.length_map]
    have hsame : variants' = variants := by
      refine List.ext_getElem? fun i => ?_
      cases hi : members[i]? with
      | none =>
        have hge : members.length ≤ i := List.getElem?_eq_none_iff.1 hi
        rw [List.getElem?_eq_none (by omega), List.getElem?_eq_none (by omega)]
      | some member =>
        obtain ⟨value, htag, hentry⟩ := hentries i member hi
        obtain ⟨value', htag', hentry'⟩ := getElem?_of_variants_eq_ok h hi
        rw [hentry, hentry', htag.unique htag']
    rw [h, hsame]

end

end Graph

/-- A discriminated object is made, at the next free id, exactly if its members pass the check. -/
theorem Build.result_discriminated [Deferral δ] (name key : String) (members : List (Edge δ))
    (g : Graph δ) :
    (discriminated name key members g).result =
      (g.variants name key members).map fun _ => ⟨g.size⟩ := by
  unfold discriminated
  rw [read_bind_apply]
  rcases g.variants name key members with (cause | _) | variants
  · rfl
  · rfl
  · rfl

namespace Run

variable [Deferral δ]

/-- The check of the members of a discriminated object, at any point of a run, reports the offence
at the least index that has one, and so does the attempt to make the object. It succeeds exactly if
nothing is wrong; then there is one entry for each member, in order, under the quoted value of the
member and with the edge as it was given, and these entries are stored with the object. -/
theorem first_offence_reported (ops : List (Operation (Edge δ) TypeId)) (object key : String)
    (members : List (Edge δ)) :
    let g := ((start : Run δ).after ops).graph
    let made := Build.discriminated object key members g
    (∀ failure, g.variants object key members = .error failure ↔
      ∃ i, g.FirstOffence object key members i failure) ∧
    (∀ variants, g.variants object key members = .ok variants ↔
      (∀ i failure, ¬ g.Offence object key members i failure) ∧
        variants.length = members.length ∧
        ∀ (i : ℕ) member, members[i]? = some member →
          ∃ value, g.HasTag key member value ∧ variants[i]? = some (Text.quoted value, member)) ∧
    (∀ failure, made.result = .error failure ↔
      ∃ i, g.FirstOffence object key members i failure) ∧
    ((∃ id, made.result = .ok id) ↔ ∀ i failure, ¬ g.Offence object key members i failure) ∧
    ∀ id, made.result = .ok id → ∃ variants, g.variants object key members = .ok variants ∧
      made.graph.node? id = some (.discriminated object key variants) := by
  intro g made
  have hlabelled : g.Labelled := labelled ops
  refine ⟨fun failure => Graph.variants_eq_error_iff hlabelled,
    fun variants => Graph.variants_eq_ok_iff_forall hlabelled, fun failure => ?_, ⟨?_, ?_⟩, ?_⟩
  · rw [Build.result_discriminated, ← Graph.variants_eq_error_iff hlabelled]
    cases g.variants object key members <;> simp [Except.map]
  · rintro ⟨id, hid⟩
    obtain ⟨variants, hvariants, -⟩ := Build.discriminated_of_ok hid
    exact Graph.not_offence_of_variants_eq_ok hlabelled hvariants
  · intro hnone
    obtain ⟨variants, hvariants⟩ := Graph.exists_variants_eq_ok hlabelled hnone
    rw [Build.result_discriminated, hvariants]
    exact ⟨_, rfl⟩
  · intro id hid
    obtain ⟨variants, hvariants, rfl, hgraph⟩ := Build.discriminated_of_ok hid
    refine ⟨variants, hvariants, ?_⟩
    rw [hgraph]
    exact Graph.node?_eq_some_iff.2 ⟨_, g.slot?_push_size _, rfl⟩

/-- The second member repeats the value of the first, which is found out last, and the third is not
an object, which would be found out first. The second is reported, with its value in quotes. -/
theorem first_offence_reported_of_repeated_value :
    let r := (start : Run Recipe).after
      [.make (.literal "it's"), .make (.named "A" [⟨"kind", .direct ⟨11⟩, .none⟩] none .none),
        .make (.named "B" [⟨"kind", .deferred (.fixed ⟨11⟩), .none⟩] none .none)]
    let members := [.direct ⟨12⟩, .deferred (.fixed ⟨13⟩), .direct .string]
    let failure := .refused (.repeatedDiscriminator "D" "B" "kind" "'it\\'s'")
    r.graph.variants "D" "kind" members = .error failure ∧
      ∃ i, r.graph.FirstOffence "D" "kind" members i failure := by
  intro r members failure
  have hreported : r.graph.variants "D" "kind" members = .error failure := by
    simp only [r, after_cons, after_nil, perform, graph_start, Graph.fresh_eq]
    rfl
  exact ⟨hreported, ((first_offence_reported _ "D" "kind" members).1 failure).1 hreported⟩

end Run

end TypeGraph
