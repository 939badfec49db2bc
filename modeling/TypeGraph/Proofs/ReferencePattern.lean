import TypeGraph.Proofs.ReferenceGrammar

/-!
# The expression that finds references

The expression reads a little more than the grammar spells: it lets dots follow one another in the
provider. Its groups are told apart by the signs between them, so that a text is matched in one way
at most (`Reference.IsMatch.unique`), and looking into the provider afterwards leaves what the
grammar spells (`Reference.parse?_eq_some_iff`).

* `reading_follows_grammar`: what is read, as what, and what is refused.
* `writing_inverts_reading`: a reference that was read is written as it was read.
-/

namespace TypeGraph

namespace Resource.Reference

open Grammar

open Text (Regex Way HasCases caseVariants fields fields_eq_iff isDecimalDigit)

/-! ### Classes in all cases -/

theorem letter_iff_hasCases {c : Char} : Letter c ↔ HasCases c := or_assoc.symm

theorem any_isNameChar (c : Char) : (caseVariants c).any isNameChar = isLabelChar c := by
  have hsmall : ∀ d, 'a' ≤ d ∧ d ≤ 'z' → isNameChar d = true := by
    intro d hd
    rw [isNameChar, isLower_iff.2 hd, Bool.true_or]
  have hlower : c.isLower = true → isLetter c = true :=
    fun h => isLetter_iff.2 (.inl (isLower_iff.1 h))
  rw [Bool.eq_iff_iff, Text.any_caseVariants_iff hsmall, ← letter_iff_hasCases, ← isLetter_iff]
  simp only [isNameChar, isLabelChar, Bool.or_eq_true]
  rw [← or_assoc, or_iff_left_of_imp hlower]

theorem any_sign {sign : Char} (h : isLetter sign = false) (c : Char) :
    (caseVariants c).any (· == sign) = (c == sign) := by
  refine Text.any_caseVariants_eq (fun d hd => beq_false_of_ne ?_) c
  rintro rfl
  rw [isLetter_iff.2 (letter_iff_hasCases.2 hd)] at h
  cases h

/-- No letter is a decimal digit. -/
theorem isDecimalDigit_of_letter {c : Char} (h : Letter c) : isDecimalDigit c = false := by
  have hranges : ∀ range ∈ Text.decimalDigitRanges,
      (range.2 < 65 ∨ 122 < range.1) ∧ (range.2 < 0x17f ∨ 0x17f < range.1) ∧
        (range.2 < 0x212a ∨ 0x212a < range.1) := by decide
  have hc : (97 ≤ c.toNat ∧ c.toNat ≤ 122) ∨ (65 ≤ c.toNat ∧ c.toNat ≤ 90) ∨
      c.toNat = 0x17f ∨ c.toNat = 0x212a := by
    rcases h with hsmall | hcapital | rfl | rfl
    · exact .inl hsmall
    · exact .inr (.inl hcapital)
    · exact .inr (.inr (.inl rfl))
    · exact .inr (.inr (.inr rfl))
  rw [← Bool.not_eq_true, isDecimalDigit, Text.inRanges_eq_true_iff]
  rintro ⟨range, hrange, hfirst, hlast⟩
  have hrange := hranges range hrange
  omega

/-! ### The groups in all cases -/

theorem ignoringCase_sign {sign : Char} (h : isLetter sign = false) :
    (Regex.sign sign).ignoringCase = .sign sign :=
  congrArg Regex.one (funext (any_sign h))

theorem ignoringCase_one_isNameChar :
    (Regex.one isNameChar).ignoringCase = .one isLabelChar :=
  congrArg Regex.one (funext any_isNameChar)

theorem ignoringCase_one_isNameChar_or {sign : Char} (h : isLetter sign = false) :
    (Regex.one fun c => isNameChar c || c == sign).ignoringCase =
      .one fun c => isLabelChar c || c == sign := by
  refine congrArg Regex.one (funext fun c => ?_)
  rw [← any_isNameChar, ← any_sign h, Bool.eq_iff_iff]
  simp only [List.any_eq_true, Bool.or_eq_true, and_or_left, exists_or]

theorem ignoringCase_one_isDecimalDigit :
    (Regex.one isDecimalDigit).ignoringCase = .one isDecimalDigit := by
  refine congrArg Regex.one (funext (Text.any_caseVariants_eq fun c hc => ?_))
  exact isDecimalDigit_of_letter (letter_iff_hasCases.2 hc)

theorem ignoringCase_providerPart :
    providerPart.ignoringCase =
      .seq (.one isLabelChar) (.many (.one fun c => isLabelChar c || c == '.')) :=
  congrArg₂ Regex.seq ignoringCase_one_isNameChar
    (congrArg Regex.many (ignoringCase_one_isNameChar_or rfl))

theorem ignoringCase_typesPart :
    typesPart.ignoringCase = .several (.seq (.sign '/') (.several (.one isTypeChar))) :=
  congrArg Regex.several (congrArg₂ Regex.seq (ignoringCase_sign rfl)
    (congrArg Regex.several (ignoringCase_one_isNameChar_or rfl)))

theorem ignoringCase_versionPart :
    versionPart.ignoringCase =
      .inOrder [.times 4 (.one isDecimalDigit), .sign '-', .times 2 (.one isDecimalDigit),
        .sign '-', .times 2 (.one isDecimalDigit),
        .optional (.seq (.sign '-') (.firstOf ((stages.map .word).map .ignoringCase)))] := by
  have hhyphen : (Regex.sign '-').ignoringCase = .sign '-' := ignoringCase_sign rfl
  have hstage : ∀ r, (Regex.optional (.seq (.sign '-') r)).ignoringCase =
      .optional (.seq (.sign '-') r.ignoringCase) :=
    fun r => congrArg (fun sign => Regex.optional (.seq sign r.ignoringCase)) hhyphen
  rw [versionPart, Regex.ignoringCase_inOrder, ← Regex.ignoringCase_firstOf]
  simp only [List.map_cons, List.map_nil, Regex.ignoringCase_times, ignoringCase_one_isDecimalDigit,
    hhyphen, hstage]

/-! ### What the groups read -/

variable {x : List Char}

theorem mem_language_providerPart :
    x ∈ providerPart.ignoringCase.language ↔
      ∃ c cs, x = c :: cs ∧ isLabelChar c = true ∧
        ∀ d ∈ cs, (isLabelChar d || d == '.') = true := by
  rw [ignoringCase_providerPart, Regex.language, Language.mem_mul]
  constructor
  · rintro ⟨_, ⟨c, hc, rfl⟩, cs, hcs, rfl⟩
    exact ⟨c, cs, rfl, hc, Regex.mem_language_many_one.1 hcs⟩
  · rintro ⟨c, cs, rfl, hc, hcs⟩
    exact ⟨[c], ⟨c, hc, rfl⟩, cs, Regex.mem_language_many_one.2 hcs, rfl⟩

theorem mem_language_typePart :
    x ∈ (Regex.seq (.sign '/') (.several (.one isTypeChar))).language ↔
      ∃ type, isType type = true ∧ x = '/' :: type := by
  rw [Regex.language, Regex.mem_language_sign_mul]
  simp only [Regex.mem_language_several_one, isType]
  simp

theorem mem_language_typesPart :
    x ∈ typesPart.ignoringCase.language ↔
      ∃ types : List (List Char), types ≠ [] ∧ (∀ type ∈ types, isType type = true) ∧
        x = types.flatMap ('/' :: ·) := by
  rw [ignoringCase_typesPart, Regex.mem_language_several]
  constructor
  · rintro ⟨pieces, hne, rfl, hpieces⟩
    -- the types are the pieces without their slashes
    have hslash : ∀ piece ∈ pieces, '/' :: piece.tail = piece ∧ isType piece.tail = true := by
      intro piece hpiece
      obtain ⟨type, htype, rfl⟩ := mem_language_typePart.1 (hpieces piece hpiece)
      exact ⟨rfl, htype⟩
    refine ⟨pieces.map List.tail, by simpa using hne, ?_, ?_⟩
    · rw [List.forall_mem_map]
      exact fun piece hpiece => (hslash piece hpiece).2
    · rw [List.flatMap_map, List.flatMap_def, List.map_congr_left fun p hp => (hslash p hp).1,
        List.map_id']
  · rintro ⟨types, hne, htypes, rfl⟩
    refine ⟨types.map ('/' :: ·), by simpa using hne, List.flatMap_def, ?_⟩
    rw [List.forall_mem_map]
    exact fun type htype => mem_language_typePart.2 ⟨type, htypes type htype, rfl⟩

theorem mem_language_number {n : ℕ} :
    x ∈ (Regex.times n (.one isDecimalDigit)).language ↔ isNumber n x = true := by
  rw [Regex.mem_language_times_one]
  simp [isNumber]

theorem mem_language_stage :
    x ∈ (Regex.firstOf ((stages.map .word).map .ignoringCase)).language ↔ isStage x = true := by
  have hletters : stages.all (fun stage => stage.toList.all fun c => c != 's' && c != 'k') = true :=
    rfl
  simp only [Regex.mem_language_firstOf, List.map_map, List.mem_map, exists_exists_and_eq_and,
    isStage, List.any_eq_true, beq_iff_eq]
  refine exists_congr fun stage => and_congr_right fun hstage => ?_
  have hsmall := small_of_mem_stages hstage
  rw [map_toLower_eq_iff hsmall]
  refine Regex.mem_language_ignoringCase_word fun c hc => ⟨hsmall c hc, ?_⟩
  simpa using List.all_eq_true.1 (List.all_eq_true.1 hletters stage hstage) c hc

theorem mem_language_lastPart :
    x ∈ (Regex.optional
        (.seq (.sign '-') (.firstOf ((stages.map .word).map .ignoringCase)))).language ↔
      (∃ stage, isStage stage = true ∧ x = '-' :: stage) ∨ x = [] := by
  refine or_congr ?_ Iff.rfl
  refine Regex.mem_language_sign_mul.trans ?_
  simp only [mem_language_stage]

theorem mem_language_versionPart_iff :
    x ∈ versionPart.ignoringCase.language ↔
      ∃ year month day last,
        isNumber 4 year = true ∧ isNumber 2 month = true ∧ isNumber 2 day = true ∧
        ((∃ stage, isStage stage = true ∧ last = '-' :: stage) ∨ last = []) ∧
        x = year ++ '-' :: (month ++ '-' :: (day ++ last)) := by
  have hnil : (Regex.inOrder []).language = 1 := rfl
  rw [ignoringCase_versionPart]
  simp only [Regex.language_inOrder_cons, hnil, mul_one]
  constructor
  · intro h
    obtain ⟨year, hyear, _, h₁, rfl⟩ := Language.mem_mul.1 h
    obtain ⟨_, h₂, rfl⟩ := Regex.mem_language_sign_mul.1 h₁
    obtain ⟨month, hmonth, _, h₃, rfl⟩ := Language.mem_mul.1 h₂
    obtain ⟨_, h₄, rfl⟩ := Regex.mem_language_sign_mul.1 h₃
    obtain ⟨day, hday, last, hlast, rfl⟩ := Language.mem_mul.1 h₄
    exact ⟨year, month, day, last, mem_language_number.1 hyear, mem_language_number.1 hmonth,
      mem_language_number.1 hday, mem_language_lastPart.1 hlast, rfl⟩
  · rintro ⟨year, month, day, last, hyear, hmonth, hday, hlast, rfl⟩
    refine Language.append_mem_mul (mem_language_number.2 hyear) ?_
    refine Regex.mem_language_sign_mul.2 ⟨_, ?_, rfl⟩
    refine Language.append_mem_mul (mem_language_number.2 hmonth) ?_
    refine Regex.mem_language_sign_mul.2 ⟨_, ?_, rfl⟩
    exact Language.append_mem_mul (mem_language_number.2 hday) (mem_language_lastPart.2 hlast)

theorem mem_language_versionPart {s : String} :
    s.toList ∈ versionPart.ignoringCase.language ↔ Version s := by
  rw [mem_language_versionPart_iff]
  constructor
  · rintro ⟨year, month, day, last, hyear, hmonth, hday, hlast, hs⟩
    have hnumber : ∀ {n : ℕ} {cs : List Char}, isNumber n cs = true → Number n (.ofList cs) := by
      intro n cs h
      rwa [← isNumber_iff, String.toList_ofList]
    have hdate : Date (.ofList (year ++ '-' :: (month ++ '-' :: day))) := by
      refine ⟨.ofList year, .ofList month, .ofList day, hnumber hyear, hnumber hmonth,
        hnumber hday, ?_⟩
      simp [← String.toList_inj]
    rcases hlast with ⟨stage, hstage, rfl⟩ | rfl
    · rw [← String.toList_ofList (l := stage), isStage_iff] at hstage
      exact .inr ⟨_, .ofList stage, hdate, hstage, by simp [← String.toList_inj, hs]⟩
    · rw [List.append_nil] at hs
      rw [← hs, String.ofList_toList] at hdate
      exact .inl hdate
  · rintro (⟨year, month, day, hyear, hmonth, hday, rfl⟩ |
      ⟨_, stage, ⟨year, month, day, hyear, hmonth, hday, rfl⟩, hstage, rfl⟩)
    · exact ⟨year.toList, month.toList, day.toList, [], isNumber_iff.2 hyear, isNumber_iff.2 hmonth,
        isNumber_iff.2 hday, .inr rfl, by simp⟩
    · exact ⟨year.toList, month.toList, day.toList, '-' :: stage.toList, isNumber_iff.2 hyear,
        isNumber_iff.2 hmonth, isNumber_iff.2 hday, .inl ⟨_, isStage_iff.2 hstage, rfl⟩, by simp⟩

/-! ### The one match of a text -/

/-- The text is read by the groups of the expression, with an at sign before the last one. -/
structure IsMatch (text provider types version : List Char) : Prop where
  text_eq : text = provider ++ (types ++ '@' :: version)
  provider : provider ∈ providerPart.ignoringCase.language
  types : types ∈ typesPart.ignoringCase.language
  version : version ∈ versionPart.ignoringCase.language

/-- The expression from the start of the text on. -/
def groups : Regex :=
  .seq (.group "namespace" providerPart.ignoringCase)
    (.seq (.group "types" typesPart.ignoringCase)
      (.seq (.sign '@') (.seq (.group "version" versionPart.ignoringCase) .textEnd)))

theorem pattern_eq : pattern = .seq .textStart groups := by
  have hat : (Regex.sign '@').ignoringCase = .sign '@' := ignoringCase_sign rfl
  rw [groups, ← hat]
  rfl

variable {text provider types version : List Char}

theorem mem_ways_groups_iff {w : Way} {place : ℕ} :
    w ∈ groups.ways place text ↔
      ∃ provider types version, IsMatch text provider types version ∧
        w = ⟨text, [], [("version", version), ("types", types), ("namespace", provider)]⟩ := by
  constructor
  · intro h
    rw [groups, Regex.mem_ways_group_seq_iff rfl] at h
    obtain ⟨provider, _, _, hprovider, h, rfl, rfl⟩ := h
    rw [Regex.mem_ways_group_seq_iff rfl] at h
    obtain ⟨types, _, _, htypes, h, rfl, rfl⟩ := h
    rw [Regex.mem_ways_bare_seq_iff rfl] at h
    obtain ⟨_, _, _, hat, h, rfl, rfl⟩ := h
    obtain rfl := Regex.mem_language_sign.1 hat
    rw [Regex.mem_ways_group_seq_iff rfl] at h
    obtain ⟨version, _, _, hversion, h, rfl, rfl⟩ := h
    obtain ⟨rfl, rfl⟩ := Regex.mem_ways_textEnd_iff.1 h
    rw [List.append_nil]
    exact ⟨provider, types, version, ⟨rfl, hprovider, htypes, hversion⟩, by simp [Way.still]⟩
  · rintro ⟨provider, types, version, h, rfl⟩
    rw [groups, Regex.mem_ways_group_seq_iff rfl]
    refine ⟨provider, types ++ '@' :: version,
      ⟨types ++ '@' :: version, [], [("version", version), ("types", types)]⟩,
      h.provider, ?_, h.text_eq, by rw [h.text_eq]; rfl⟩
    rw [Regex.mem_ways_group_seq_iff rfl]
    refine ⟨types, '@' :: version, ⟨'@' :: version, [], [("version", version)]⟩, h.types, ?_,
      rfl, rfl⟩
    rw [Regex.mem_ways_bare_seq_iff rfl]
    refine ⟨['@'], version, ⟨version, [], [("version", version)]⟩,
      Regex.mem_language_sign.2 rfl, ?_, rfl, rfl⟩
    rw [Regex.mem_ways_group_seq_iff rfl]
    refine ⟨version, [], .still [], h.version, Regex.mem_ways_textEnd_iff.2 ⟨rfl, rfl⟩, ?_, ?_⟩
    · rw [List.append_nil]
    · simp [Way.still]

theorem not_slash_mem_of_providerPart (h : provider ∈ providerPart.ignoringCase.language) :
    '/' ∉ provider := by
  obtain ⟨c, cs, rfl, hc, hcs⟩ := mem_language_providerPart.1 h
  rw [List.mem_cons, not_or]
  refine ⟨?_, fun hmem => absurd (hcs '/' hmem) (by decide)⟩
  rintro rfl
  cases hc

theorem exists_cons_of_typesPart (h : types ∈ typesPart.ignoringCase.language) :
    ∃ rest, types = '/' :: rest := by
  obtain ⟨_ | ⟨type, others⟩, hne, -, rfl⟩ := mem_language_typesPart.1 h
  · exact absurd rfl hne
  · exact ⟨type ++ others.flatMap ('/' :: ·), rfl⟩

theorem not_mem_of_isType {type : List Char} (h : isType type = true) {c : Char}
    (hc : isTypeChar c = false) : c ∉ type := by
  intro hmem
  rw [List.all_eq_true.1 (Bool.and_eq_true_iff.1 h).2 c hmem] at hc
  cases hc

theorem not_at_mem_of_typesPart (h : types ∈ typesPart.ignoringCase.language) : '@' ∉ types := by
  obtain ⟨types, -, htypes, rfl⟩ := mem_language_typesPart.1 h
  simp only [List.mem_flatMap, List.mem_cons, not_exists, not_and, not_or]
  exact fun type htype => ⟨by decide, not_mem_of_isType (htypes type htype) rfl⟩

/-- There is no slash in the provider, and one at the beginning of the types, which hold no at sign.
So the groups end where these signs stand. -/
theorem IsMatch.unique {provider' types' version' : List Char}
    (h : IsMatch text provider types version) (h' : IsMatch text provider' types' version') :
    provider = provider' ∧ types = types' ∧ version = version' := by
  have hne : ∀ {sign : Char} {cs : List Char}, sign ∉ cs → ∀ c ∈ cs, (c != sign) = true := by
    intro sign cs hsign c hc
    exact bne_iff_ne.2 fun heq => hsign (heq ▸ hc)
  have hhead : ∀ {types rest : List Char}, types ∈ typesPart.ignoringCase.language →
      ∀ c ∈ (types ++ rest).head?, (c != '/') = false := by
    rintro types rest htypes c hc
    obtain ⟨_, rfl⟩ := exists_cons_of_typesPart htypes
    cases hc
    rfl
  obtain ⟨rfl, hrest⟩ := Text.append_inj_of_class
    (hne (not_slash_mem_of_providerPart h.provider))
    (hne (not_slash_mem_of_providerPart h'.provider))
    (hhead h.types) (hhead h'.types) (h.text_eq.symm.trans h'.text_eq)
  obtain ⟨rfl, hversion⟩ := Text.append_inj_of_class (hne (not_at_mem_of_typesPart h.types))
    (hne (not_at_mem_of_typesPart h'.types)) (by simp) (by simp) hrest
  exact ⟨rfl, rfl, (List.cons.inj hversion).2⟩

/-- The search comes upon the one match that there is. -/
theorem find?_eq_some_iff {w : Way} :
    pattern.find? text = some w ↔
      ∃ provider types version, IsMatch text provider types version ∧
        w = ⟨text, [], [("version", version), ("types", types), ("namespace", provider)]⟩ := by
  rw [pattern_eq, Regex.find?_textStart, ← mem_ways_groups_iff]
  constructor
  · exact List.mem_of_mem_head?
  · intro hw
    obtain ⟨first, others, hways⟩ := List.exists_cons_of_ne_nil (List.ne_nil_of_mem hw)
    have hfirst : first ∈ groups.ways 0 text := hways ▸ List.mem_cons_self
    obtain ⟨provider, types, version, h, rfl⟩ := mem_ways_groups_iff.1 hfirst
    obtain ⟨provider', types', version', h', rfl⟩ := mem_ways_groups_iff.1 hw
    obtain ⟨rfl, rfl, rfl⟩ := h.unique h'
    rw [hways, List.head?_cons]

/-! ### Reading -/

theorem parse?_of_isMatch {text : String} (h : IsMatch text.toList provider types version) :
    parse? text =
      if (fields '.' provider).any (·.isEmpty) then none
      else some ⟨.ofList provider, ((fields '/' types).filter (!·.isEmpty)).map .ofList,
        .ofList version⟩ := by
  rw [parse?, find?_eq_some_iff.2 ⟨_, _, _, h, rfl⟩]
  rfl

theorem exists_isMatch_of_parse? {text : String} {r : Reference} (h : parse? text = some r) :
    ∃ provider types version, IsMatch text.toList provider types version := by
  obtain ⟨w, hw, -⟩ := Option.bind_eq_some_iff.1 h
  obtain ⟨provider, types, version, hmatch, -⟩ := find?_eq_some_iff.1 hw
  exact ⟨provider, types, version, hmatch⟩

theorem labelChar_or_dot_of_isProvider (h : isProvider provider = true) :
    ∀ c ∈ provider, (isLabelChar c || c == '.') = true := by
  rw [← String.toList_ofList (l := provider), isProvider_iff] at h
  intro c hc
  by_contra hnot
  rw [Bool.not_eq_true, Bool.or_eq_false_iff, beq_eq_false_iff_ne] at hnot
  exact not_mem_of_provider h hnot.1 hnot.2 (by rwa [String.toList_ofList])

/-- The expression and what is looked into afterwards make sure of labels with dots between. -/
theorem isProvider_iff_mem_language :
    isProvider provider = true ↔
      provider ∈ providerPart.ignoringCase.language ∧
        (fields '.' provider).any (·.isEmpty) = false := by
  rw [mem_language_providerPart, List.any_eq_false]
  constructor
  · intro h
    have hlabels : ∀ label ∈ fields '.' provider, ¬ label.isEmpty = true := by
      intro label hlabel
      simpa using (Bool.and_eq_true_iff.1 (List.all_eq_true.1 h label hlabel)).1
    refine ⟨?_, hlabels⟩
    cases provider with
    | nil => exact absurd rfl (hlabels [] List.mem_cons_self)
    | cons c cs =>
      obtain ⟨hc, hcs⟩ := List.forall_mem_cons.1 (labelChar_or_dot_of_isProvider h)
      refine ⟨c, cs, rfl, ?_, hcs⟩
      rcases Bool.or_eq_true_iff.1 hc with hlabel | hdot
      · exact hlabel
      · -- nothing stands before a dot at the beginning
        obtain rfl := beq_iff_eq.1 hdot
        exact absurd rfl (hlabels [] List.mem_cons_self)
  · rintro ⟨⟨c, cs, rfl, hc, hcs⟩, hlabels⟩
    rw [isProvider, List.all_eq_true]
    intro label hlabel
    simp only [Bool.and_eq_true, Bool.not_eq_true', List.all_eq_true]
    refine ⟨Bool.eq_false_of_not_eq_true (hlabels label hlabel), fun d hd => ?_⟩
    have hdot : (d == '.') = false := by
      rw [beq_eq_false_iff_ne]
      rintro rfl
      exact Text.not_mem_of_mem_fields hlabel hd
    rcases List.mem_cons.1 (Text.subset_of_mem_fields hlabel hd) with rfl | hmem
    · exact hc
    · rw [← hcs d hmem, hdot, Bool.or_false]

/-- The text of the types begins with a slash, so that an empty piece goes before them. -/
theorem filter_fields_slash {types : List (List Char)}
    (h : ∀ type ∈ types, isType type = true) :
    (fields '/' (types.flatMap ('/' :: ·))).filter (!·.isEmpty) = types := by
  have hfields : fields '/' (types.flatMap ('/' :: ·)) = [] :: types := by
    refine fields_eq_iff.2 ⟨by simp, ?_, (Text.join_cons '/' [] types).symm⟩
    rw [List.forall_mem_cons]
    exact ⟨List.not_mem_nil, fun type htype => not_mem_of_isType (h type htype) rfl⟩
  rw [hfields, List.filter_cons_of_neg (by simp), List.filter_eq_self]
  exact fun type htype => (Bool.and_eq_true_iff.1 (h type htype)).1

theorem isMatch_of_spells {text : String} {r : Reference} (h : Spells text r) :
    IsMatch text.toList r.provider.toList ((r.types.map String.toList).flatMap ('/' :: ·))
      r.version.toList where
  text_eq := by simp [h.text_eq, List.flatMap_map]
  provider := (isProvider_iff_mem_language.1 (isProvider_iff.2 h.provider)).1
  types := mem_language_typesPart.2 ⟨_, by simpa using h.types_ne_nil,
    List.forall_mem_map.2 fun type htype => isType_iff.2 (h.type type htype), rfl⟩
  version := mem_language_versionPart.2 h.version

theorem parse?_of_spells {text : String} {r : Reference} (h : Spells text r) :
    parse? text = some r := by
  have htypes : ∀ type ∈ r.types.map String.toList, isType type = true :=
    List.forall_mem_map.2 fun type htype => isType_iff.2 (h.type type htype)
  have hdots := (isProvider_iff_mem_language.1 (isProvider_iff.2 h.provider)).2
  rw [parse?_of_isMatch (isMatch_of_spells h), hdots, filter_fields_slash htypes]
  simp [Function.comp_def]

theorem spells_of_parse? {text : String} {r : Reference} (h : parse? text = some r) :
    Spells text r := by
  obtain ⟨provider, _, version, hmatch⟩ := exists_isMatch_of_parse? h
  obtain ⟨types, hne, htypes, rfl⟩ := mem_language_typesPart.1 hmatch.types
  rw [parse?_of_isMatch hmatch, filter_fields_slash htypes] at h
  split_ifs at h with hdots
  obtain rfl := Option.some.inj h
  have hprovider : isProvider provider = true :=
    isProvider_iff_mem_language.2 ⟨hmatch.provider, Bool.eq_false_of_not_eq_true hdots⟩
  have hversion := hmatch.version
  rw [← String.toList_ofList (l := provider), isProvider_iff] at hprovider
  rw [← String.toList_ofList (l := version), mem_language_versionPart] at hversion
  refine ⟨?_, hprovider, by simpa using hne, List.forall_mem_map.2 fun type htype => ?_, hversion⟩
  · simp [← String.toList_inj, hmatch.text_eq, List.flatMap_map]
  · rw [← isType_iff, String.toList_ofList]
    exact htypes type htype

theorem parse?_eq_some_iff {text : String} {r : Reference} :
    parse? text = some r ↔ Spells text r :=
  ⟨spells_of_parse?, parse?_of_spells⟩

/-- Reading by the expression and reading by cutting are the same. -/
theorem parse?_eq_cut? (text : String) : parse? text = cut? text :=
  Option.ext fun _ => parse?_eq_some_iff.trans cut?_eq_some_iff.symm

theorem parse_eq_ok_iff {text : String} {r : Reference} : parse text = .ok r ↔ Spells text r := by
  rw [← parse?_eq_some_iff, parse]
  cases parse? text <;> simp

theorem parse_eq_error_iff {text : String} {cause : Refusal} :
    parse text = .error cause ↔ (∀ r, ¬ Spells text r) ∧ cause = .malformedReference text := by
  simp only [← parse?_eq_some_iff, parse]
  cases parse? text <;> simp [eq_comm]

/-- A text is read if and only if it is spelled by the grammar, and then as what it spells, which is
one reference only. Any other text is refused and goes unchanged into the refusal. -/
theorem reading_follows_grammar (text : String) :
    (∀ reference, parse text = .ok reference ↔ Spells text reference) ∧
      (∀ r₁ r₂, Spells text r₁ → Spells text r₂ → r₁ = r₂) ∧
      ∀ cause, parse text = .error cause ↔
        (∀ reference, ¬ Spells text reference) ∧ cause = .malformedReference text := by
  refine ⟨fun _ => parse_eq_ok_iff, fun r₁ r₂ h₁ h₂ => ?_, fun _ => parse_eq_error_iff⟩
  rw [← parse?_eq_some_iff] at h₁ h₂
  exact Option.some.inj (h₁.symm.trans h₂)

/-- Letters and digits from outside of ASCII are read where the grammar has them. -/
theorem reading_follows_grammar_outside_ascii :
    let text := "\u212a8.\u017f/a-b/-@\u0662\u0660\u0662\u0660-01-02-Rc"
    let reference : Reference :=
      ⟨"\u212a8.\u017f", ["a-b", "-"], "\u0662\u0660\u0662\u0660-01-02-Rc"⟩
    Spells text reference ∧ parse text = .ok reference := by
  intro text reference
  have htypes : ∀ type ∈ reference.types, isType type.toList = true := by decide
  have h : Spells text reference :=
    ⟨by decide, isProvider_iff.1 (by decide), by decide,
      fun type htype => isType_iff.1 (htypes type htype), isVersion_iff.1 (by decide)⟩
  exact ⟨h, ((reading_follows_grammar text).1 reference).2 h⟩

example : parse "a/b@2020-01-01\n" = .error (.malformedReference "a/b@2020-01-01\n") := by decide

/-! ### Reading and writing -/

/-- References that were read are equal if they are written in the same way. -/
theorem eq_of_text_eq {text text' : String} {r r' : Reference} (h : parse text = .ok r)
    (h' : parse text' = .ok r') (htext : r.text = r'.text) : r = r' := by
  rw [text_eq_of_spells (parse_eq_ok_iff.1 h), text_eq_of_spells (parse_eq_ok_iff.1 h')] at htext
  subst htext
  exact Except.ok.inj (h.symm.trans h')

/-- A reference that was read is written as it was read, and read as itself again. Its text has one
at sign, between the types and the version, and no other reference has this text. -/
theorem writing_inverts_reading {text : String} {r : Reference} (h : parse text = .ok r) :
    r.text = text ∧ parse r.text = .ok r ∧
      text = r.fullType ++ "@" ++ r.version ∧ '@' ∉ r.fullType.toList ∧ '@' ∉ r.version.toList ∧
      ∀ text' r', parse text' = .ok r' → (r = r' ↔ text = text') := by
  have hspells := parse_eq_ok_iff.1 h
  have htext := text_eq_of_spells hspells
  refine ⟨htext, htext ▸ h, htext.symm, not_at_mem_fullType hspells,
    not_at_mem_of_version hspells.version, fun text' r' h' => ?_⟩
  constructor
  · rintro rfl
    rw [← htext, text_eq_of_spells (parse_eq_ok_iff.1 h')]
  · rintro rfl
    exact Except.ok.inj (h.symm.trans h')

/-- Capitals are kept, so that texts that differ in them give references that differ. -/
theorem writing_inverts_reading_with_capitals :
    let r : Reference := ⟨"microsoft.web", ["SITES", "a-1"], "2020-01-01-BETA"⟩
    let r' : Reference := ⟨"microsoft.web", ["sites", "a-1"], "2020-01-01-beta"⟩
    parse "microsoft.web/SITES/a-1@2020-01-01-BETA" = .ok r ∧
      parse "microsoft.web/sites/a-1@2020-01-01-beta" = .ok r' ∧
      r.text = "microsoft.web/SITES/a-1@2020-01-01-BETA" ∧ r ≠ r' := by
  intro r r'
  have h : parse "microsoft.web/SITES/a-1@2020-01-01-BETA" = .ok r := by decide
  have h' : parse "microsoft.web/sites/a-1@2020-01-01-beta" = .ok r' := by decide
  obtain ⟨htext, -, -, -, -, heq⟩ := writing_inverts_reading h
  refine ⟨h, h', htext, fun hr => ?_⟩
  have htexts := (heq _ r' h').1 hr
  revert htexts
  decide

end Resource.Reference

end TypeGraph
