import Mathlib.Data.List.Induction
import Mathlib.Data.List.Basic
import TypeGraph.Node

/-!
# Properties given more than once

`Property.distinct` inserts properties one by one. What comes out can be said without the order of
insertion: the names in the order in which they come up, each with the property that is given last
(`distinct_eq_settle`).
-/

namespace TypeGraph.Property

variable {ε ε' : Type}

/-- One property for each name, in the order in which the names come up and as it is given last. -/
def settle (ps : List (Property ε)) : List (Property ε) :=
  (ps.map (·.name)).eraseDups.filterMap fun name => ps.findRev? (·.name = name)

/-- Inserting a property changes the value for its name, or adds the name at the end. -/
theorem insert_filterMap (p : Property ε) {names : List String} (hnames : names.Nodup)
    {f : String → Option (Property ε)} (hf : ∀ n ∈ names, ∃ q, f n = some q ∧ q.name = n) :
    insert p (names.filterMap f) =
      (if p.name ∈ names then names else names ++ [p.name]).filterMap
        fun n => if p.name = n then some p else f n := by
  induction names with
  | nil => simp [insert]
  | cons n names ih =>
    obtain ⟨q, hq, rfl⟩ := hf n (by simp)
    obtain ⟨hnot, hnames⟩ := List.nodup_cons.1 hnames
    rw [List.filterMap_cons_some hq, insert]
    by_cases hname : q.name = p.name
    · have hnot' : p.name ∉ names := hname ▸ hnot
      rw [if_pos hname, if_pos (by simp [hname])]
      simp only [List.filterMap_cons, if_pos hname.symm, List.cons.injEq, true_and]
      refine List.filterMap_congr fun n hn => ?_
      rw [if_neg]
      rintro rfl
      exact hnot' hn
    · have hname' : p.name ≠ q.name := Ne.symm hname
      rw [if_neg hname, ih hnames fun n hn => hf n (List.mem_cons_of_mem _ hn)]
      by_cases hmem : p.name ∈ names
      · simp [hmem, hname', hq]
      · simp [hmem, hname', hq]

theorem eraseDups_concat (names : List String) (n : String) :
    (names ++ [n]).eraseDups = if n ∈ names then names.eraseDups else names.eraseDups ++ [n] := by
  rw [List.eraseDups_append, List.removeAll]
  by_cases hn : n ∈ names
  · simp [hn]
  · simp [hn, List.eraseDups_cons]

theorem nodup_eraseDups (names : List String) : names.eraseDups.Nodup := by
  induction names using List.reverseRecOn with
  | nil => simp
  | append_singleton names n ih =>
    rw [eraseDups_concat]
    split
    · exact ih
    · rename_i hn
      rw [← List.mem_eraseDups] at hn
      refine List.nodup_append.2 ⟨ih, by simp, ?_⟩
      intro m hm k hk heq
      rw [List.mem_singleton.1 hk] at heq
      exact hn (heq ▸ hm)

theorem exists_findRev? {ps : List (Property ε)} {name : String}
    (h : name ∈ ps.map (·.name)) :
    ∃ q ∈ ps, ps.findRev? (·.name = name) = some q ∧ q.name = name := by
  cases hq : ps.findRev? (·.name = name) with
  | none =>
    obtain ⟨p, hp, rfl⟩ := List.mem_map.1 h
    simp only [List.findRev?_eq_find?_reverse, List.find?_eq_none, List.mem_reverse] at hq
    simpa using hq p hp
  | some q =>
    rw [List.findRev?_eq_find?_reverse] at hq
    have hmem := List.mem_reverse.1 (List.mem_of_find?_eq_some hq)
    exact ⟨q, hmem, rfl, by simpa using List.find?_some hq⟩

theorem distinct_concat (ps : List (Property ε)) (p : Property ε) :
    distinct (ps ++ [p]) = insert p (distinct ps) := by
  simp [distinct]

/-- Inserting properties one by one settles them. -/
theorem distinct_eq_settle (ps : List (Property ε)) : distinct ps = settle ps := by
  induction ps using List.reverseRecOn with
  | nil => rfl
  | append_singleton ps p ih =>
    rw [distinct_concat, ih, settle, settle, insert_filterMap p (nodup_eraseDups _)]
    · rw [List.map_append, List.map_singleton, eraseDups_concat]
      simp only [List.mem_eraseDups]
      refine List.filterMap_congr fun n _ => ?_
      by_cases hn : p.name = n
      · simp [hn]
      · simp [hn]
    · intro n hn
      obtain ⟨q, -, hq⟩ := exists_findRev? (List.mem_eraseDups.1 hn)
      exact ⟨q, hq⟩

theorem mem_of_mem_settle {ps : List (Property ε)} {p : Property ε} (h : p ∈ settle ps) :
    p ∈ ps := by
  obtain ⟨name, hname, hp⟩ := List.mem_filterMap.1 h
  obtain ⟨q, hq, hfound, -⟩ := exists_findRev? (List.mem_eraseDups.1 hname)
  obtain rfl := Option.some.inj (hp.symm.trans hfound)
  exact hq

/-! ### Properties given once -/

theorem map_name_insert (p : Property ε) (qs : List (Property ε)) :
    (insert p qs).map (·.name) =
      if p.name ∈ qs.map (·.name) then qs.map (·.name) else qs.map (·.name) ++ [p.name] := by
  induction qs with
  | nil => rfl
  | cons q qs ih =>
    rw [insert]
    by_cases hname : q.name = p.name
    · simp [hname]
    · have hname' : p.name ≠ q.name := Ne.symm hname
      rw [if_neg hname, List.map_cons, ih]
      by_cases hmem : p.name ∈ qs.map (·.name)
      · simp [hmem]
      · simp [hmem, hname']

theorem map_name_distinct (ps : List (Property ε)) :
    (distinct ps).map (·.name) = (ps.map (·.name)).eraseDups := by
  induction ps using List.reverseRecOn with
  | nil => rfl
  | append_singleton ps p ih =>
    rw [distinct_concat, map_name_insert, ih, List.map_append, List.map_singleton, eraseDups_concat]
    simp only [List.mem_eraseDups]

theorem insert_of_not_mem {p : Property ε} {qs : List (Property ε)}
    (h : p.name ∉ qs.map (·.name)) : insert p qs = qs ++ [p] := by
  induction qs with
  | nil => rfl
  | cons q qs ih =>
    obtain ⟨hq, hqs⟩ : p.name ≠ q.name ∧ p.name ∉ qs.map (·.name) := by simpa using h
    rw [insert, if_neg (Ne.symm hq), ih hqs, List.cons_append]

/-- Properties that are given once each stay as they are. -/
theorem distinct_of_nodup {ps : List (Property ε)} (h : (ps.map (·.name)).Nodup) :
    distinct ps = ps := by
  induction ps using List.reverseRecOn with
  | nil => rfl
  | append_singleton ps p ih =>
    rw [List.map_append, List.map_singleton, List.nodup_append] at h
    obtain ⟨hps, -, hp⟩ := h
    rw [distinct_concat, ih hps]
    exact insert_of_not_mem fun hmem => hp _ hmem _ (List.mem_singleton.2 rfl) rfl

theorem distinct_distinct (ps : List (Property ε)) : distinct (distinct ps) = distinct ps := by
  apply distinct_of_nodup
  rw [map_name_distinct]
  exact nodup_eraseDups _

/-! ### Changing the types of properties -/

theorem map_insert (f : ε → ε') (p : Property ε) (qs : List (Property ε)) :
    (insert p qs).map (map f) = insert (p.map f) (qs.map (map f)) := by
  induction qs with
  | nil => rfl
  | cons q qs ih =>
    have hq : (q.map f).name = (p.map f).name ↔ q.name = p.name := Iff.rfl
    rw [insert, List.map_cons, insert]
    by_cases hname : q.name = p.name
    · rw [if_pos hname, if_pos (hq.2 hname), List.map_cons]
    · rw [if_neg hname, if_neg (hq.not.2 hname), List.map_cons, ih]

theorem distinct_map (f : ε → ε') (ps : List (Property ε)) :
    distinct (ps.map (map f)) = (distinct ps).map (map f) := by
  have hfold : ∀ qs, (ps.map (map f)).foldl (fun qs p => insert p qs) (qs.map (map f)) =
      (ps.foldl (fun qs p => insert p qs) qs).map (map f) := by
    induction ps with
    | nil => intro qs; rfl
    | cons p ps ih =>
      intro qs
      rw [List.map_cons, List.foldl_cons, List.foldl_cons, ← map_insert, ih]
  exact hfold []

end TypeGraph.Property

namespace TypeGraph.Body

variable {ε ε' : Type}

/-- The types that a body mentions. -/
def types (body : Body ε) : List ε := body.properties.map (·.type) ++ body.additional.toList

theorem type_mem_types {body : Body ε} {p : Property ε} (h : p ∈ body.properties) :
    p.type ∈ body.types :=
  List.mem_append_left _ (List.mem_map_of_mem h)

theorem additional_mem_types {body : Body ε} {type : ε} (h : body.additional = some type) :
    type ∈ body.types :=
  List.mem_append_right _ (by simp [h])

theorem map_congr {body : Body ε} {f f' : ε → ε'} (h : ∀ c ∈ body.types, f c = f' c) :
    body.map f = body.map f' := by
  have hproperties : body.properties.map (Property.map f) =
      body.properties.map (Property.map f') := by
    refine List.map_congr_left fun p hp => ?_
    rw [Property.map, Property.map, h p.type (type_mem_types hp)]
  have hadditional : body.additional.map f = body.additional.map f' :=
    Option.map_congr fun c hc => h c (additional_mem_types hc)
  rw [map, map, hproperties, hadditional]

theorem eq_of_map_eq_map {α β : Type} {l l' : List α} {f f' : α → β}
    (h : ∀ a ∈ l, ∀ a' ∈ l', f a = f' a' → a = a') (heq : l.map f = l'.map f') : l = l' := by
  induction l generalizing l' with
  | nil => exact (List.map_eq_nil_iff.1 heq.symm).symm
  | cons a l ih =>
    obtain ⟨a', l', rfl, ha, hl⟩ := List.map_eq_cons_iff.1 heq.symm
    have hrest : ∀ b ∈ l, ∀ b' ∈ l', f b = f' b' → b = b' := fun b hb b' hb' =>
      h b (List.mem_cons_of_mem _ hb) b' (List.mem_cons_of_mem _ hb')
    rw [h a (by simp) a' (by simp) ha.symm, ih hrest hl.symm]

/-- Two bodies are equal if they are after their types are replaced, and only equal types are
replaced by equal ones. -/
theorem eq_of_map_eq {b b' : Body ε} {f f' : ε → ε'}
    (h : ∀ c ∈ b.types, ∀ c' ∈ b'.types, f c = f' c' → c = c') (heq : b.map f = b'.map f') :
    b = b' := by
  obtain ⟨ps, a, flags⟩ := b
  obtain ⟨ps', a', flags'⟩ := b'
  obtain ⟨hps, ha, rfl⟩ := mk.inj heq
  have hproperties : ps = ps' := by
    refine eq_of_map_eq_map (fun p hp p' hp' hpp' => ?_) hps
    obtain ⟨hname, htype, hflags⟩ := Property.mk.inj hpp'
    have htype := h p.type (type_mem_types hp) p'.type (type_mem_types hp') htype
    cases p
    cases p'
    exact Property.mk.injEq .. ▸ ⟨hname, htype, hflags⟩
  have hadditional : a = a' := by
    cases a with
    | none => exact (Option.map_eq_none_iff.1 ha.symm).symm
    | some type =>
      obtain ⟨type', rfl, htype⟩ := Option.map_eq_some_iff.1 ha.symm
      rw [h type (additional_mem_types rfl) type' (additional_mem_types rfl) htype.symm]
  rw [hproperties, hadditional]

end TypeGraph.Body
