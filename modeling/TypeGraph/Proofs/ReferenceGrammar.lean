import TypeGraph.Proofs.Matching
import TypeGraph.Resource.Reference

/-!
# The grammar of references

The grammar puts texts together: `Grammar.Spells text reference` holds if the text is made of the
parts of the reference, and each part is made of the characters that it may hold. No part holds the
signs that stand around it. So what a text spells can be told by cutting it at its signs and looking
at the pieces (`Reference.cut?`), and a text spells one reference at most
(`Reference.cut?_eq_some_iff`).
-/

namespace TypeGraph

namespace Text

/-- The pieces of a text as texts. -/
theorem fields_toList_eq_iff {sep : Char} {text : String} {pieces : List String} :
    fields sep text.toList = pieces.map String.toList ↔
      pieces ≠ [] ∧ (∀ piece ∈ pieces, sep ∉ piece.toList) ∧
        text = (String.singleton sep).intercalate pieces := by
  rw [fields_eq_iff, join_eq_intercalate, ← String.toList_inj, String.toList_intercalate]
  simp

theorem exists_fields_toList (sep : Char) (text : String) :
    ∃ pieces : List String, fields sep text.toList = pieces.map String.toList :=
  ⟨(fields sep text.toList).map String.ofList, by simp [Function.comp_def]⟩

/-- A text of characters of one class holds no others. -/
theorem not_mem_of_forall {p : Char → Bool} {s : String} (h : ∀ c ∈ s.toList, p c = true) {c : Char}
    (hc : p c = false) : c ∉ s.toList := by
  intro hmem
  rw [h c hmem] at hc
  cases hc

end Text

namespace Resource

open Text (fields fields_toList_eq_iff exists_fields_toList isDecimalDigit toLower_eq_iff)

/-! ### The grammar -/

namespace Grammar

/-- A letter of the English alphabet, the long s or the Kelvin sign. -/
def Letter (c : Char) : Prop :=
  ('a' ≤ c ∧ c ≤ 'z') ∨ ('A' ≤ c ∧ c ≤ 'Z') ∨ c = '\u017f' ∨ c = '\u212a'

/-- A digit from 0 to 9. -/
def Digit (c : Char) : Prop := '0' ≤ c ∧ c ≤ '9'

/-- One or more letters and digits. -/
def Label (s : String) : Prop := s ≠ "" ∧ ∀ c ∈ s.toList, Letter c ∨ Digit c

/-- One or more labels with single dots between them. -/
def Provider (s : String) : Prop :=
  ∃ labels : List String, labels ≠ [] ∧ (∀ label ∈ labels, Label label) ∧ s = ".".intercalate labels

/-- One or more letters, digits and hyphens. -/
def Segment (s : String) : Prop := s ≠ "" ∧ ∀ c ∈ s.toList, Letter c ∨ Digit c ∨ c = '-'

/-- The code points of the digit zero in all scripts. -/
def zeros : List ℕ :=
  [0x30, 0x660, 0x6F0, 0x7C0, 0x966, 0x9E6, 0xA66, 0xAE6, 0xB66, 0xBE6, 0xC66, 0xCE6, 0xD66, 0xDE6,
   0xE50, 0xED0, 0xF20, 0x1040, 0x1090, 0x17E0, 0x1810, 0x1946, 0x19D0, 0x1A80, 0x1A90, 0x1B50,
   0x1BB0, 0x1C40, 0x1C50, 0xA620, 0xA8D0, 0xA900, 0xA9D0, 0xA9F0, 0xAA50, 0xABF0, 0xFF10, 0x104A0,
   0x10D30, 0x10D40, 0x11066, 0x110F0, 0x11136, 0x111D0, 0x112F0, 0x11450, 0x114D0, 0x11650,
   0x116C0, 0x116D0, 0x116DA, 0x11730, 0x118E0, 0x11950, 0x11BF0, 0x11C50, 0x11D50, 0x11DA0,
   0x11F50, 0x16130, 0x16A60, 0x16AC0, 0x16B50, 0x16D70, 0x1CCF0, 0x1D7CE, 0x1D7D8, 0x1D7E2,
   0x1D7EC, 0x1D7F6, 0x1E140, 0x1E2F0, 0x1E4F0, 0x1E5F1, 0x1E950, 0x1FBF0]

/-- A decimal digit of any script. The digits from one to nine follow their zero. -/
def DecimalDigit (c : Char) : Prop := ∃ start ∈ zeros, start ≤ c.toNat ∧ c.toNat ≤ start + 9

/-- `n` decimal digits, each of any script. -/
def Number (n : ℕ) (s : String) : Prop := s.length = n ∧ ∀ c ∈ s.toList, DecimalDigit c

/-- Four digits, two digits and two digits, with hyphens between them. -/
def Date (s : String) : Prop :=
  ∃ year month day, Number 4 year ∧ Number 2 month ∧ Number 2 day ∧
    s = year ++ "-" ++ month ++ "-" ++ day

/-- The word, in which any letters may be capitals. -/
def AnyCase (word s : String) : Prop :=
  List.Forall₂ (fun c d => d = c ∨ d = c.toUpper) word.toList s.toList

/-- One of five words. -/
def Stage (s : String) : Prop :=
  ∃ word ∈ ["preview", "alpha", "beta", "rc", "privatepreview"], AnyCase word s

/-- A date, or a date and a stage with a hyphen between them. -/
def Version (s : String) : Prop :=
  Date s ∨ ∃ date stage, Date date ∧ Stage stage ∧ s = date ++ "-" ++ stage

/-- The text is the provider, the types with a slash before each of them, and the version behind an
at sign. -/
structure Spells (text : String) (reference : Reference) : Prop where
  text_eq : text =
    reference.provider ++ String.join (reference.types.map ("/" ++ ·)) ++ "@" ++ reference.version
  provider : Provider reference.provider
  types_ne_nil : reference.types ≠ []
  type : ∀ type ∈ reference.types, Segment type
  version : Version reference.version

end Grammar

namespace Reference

open Grammar

/-! ### Cutting a text at its signs -/

/-- A letter, in either case. -/
def isLetter (c : Char) : Bool := c.isAlpha || c == '\u017f' || c == '\u212a'

/-- A character of a label. -/
def isLabelChar (c : Char) : Bool := isLetter c || c.isDigit

/-- A character of a type. -/
def isTypeChar (c : Char) : Bool := isLabelChar c || c == '-'

/-- Labels with dots between them. -/
def isProvider (cs : List Char) : Bool :=
  (fields '.' cs).all fun label => !label.isEmpty && label.all isLabelChar

/-- The name of a type. -/
def isType (cs : List Char) : Bool := !cs.isEmpty && cs.all isTypeChar

/-- A number of `n` decimal digits. -/
def isNumber (n : ℕ) (cs : List Char) : Bool := cs.length == n && cs.all isDecimalDigit

/-- A stage of release, in letters of either case. -/
def isStage (cs : List Char) : Bool := stages.any fun stage => cs.map Char.toLower == stage.toList

/-- A date, with or without a stage. -/
def isVersion (cs : List Char) : Bool :=
  match fields '-' cs with
  | [year, month, day] => isNumber 4 year && isNumber 2 month && isNumber 2 day
  | [year, month, day, stage] =>
    isNumber 4 year && isNumber 2 month && isNumber 2 day && isStage stage
  | _ => false

/-- Cut a text at its at sign and at its slashes, and look at the pieces. -/
def cut? (text : String) : Option Reference :=
  match fields '@' text.toList with
  | [path, version] =>
    match fields '/' path with
    | provider :: type :: types =>
      if isProvider provider && (type :: types).all isType && isVersion version then
        some ⟨.ofList provider, (type :: types).map .ofList, .ofList version⟩
      else none
    | _ => none
  | _ => none

/-! ### Labels and types -/

theorem isLower_iff {c : Char} : c.isLower = true ↔ 'a' ≤ c ∧ c ≤ 'z' := by
  rw [Char.le_def, Char.le_def, ← decide_eq_true_iff (p := 'a'.val ≤ c.val),
    ← decide_eq_true_iff (p := c.val ≤ 'z'.val), ← Bool.and_eq_true]
  rfl

theorem isLetter_iff {c : Char} : isLetter c = true ↔ Letter c := by
  have halpha : c.isAlpha = (c.isUpper || c.isLower) := rfl
  have hupper : c.isUpper = true ↔ 'A' ≤ c ∧ c ≤ 'Z' := decide_eq_true_iff
  simp only [isLetter, halpha, Letter, Bool.or_eq_true, hupper, isLower_iff, beq_iff_eq]
  tauto

theorem isLabelChar_iff {c : Char} : isLabelChar c = true ↔ Letter c ∨ Digit c := by
  simp [isLabelChar, isLetter_iff, Digit, Char.isDigit, Char.le_def]

theorem isTypeChar_iff {c : Char} : isTypeChar c = true ↔ Letter c ∨ Digit c ∨ c = '-' := by
  simp [isTypeChar, isLabelChar_iff, or_assoc]

theorem isLabel_iff {s : String} :
    (!s.toList.isEmpty && s.toList.all isLabelChar) = true ↔ Label s := by
  simp [Label, isLabelChar_iff]

theorem isType_iff {s : String} : isType s.toList = true ↔ Segment s := by
  simp [isType, Segment, isTypeChar_iff]

theorem not_mem_of_label {s : String} (h : Label s) {c : Char} (hc : isLabelChar c = false) :
    c ∉ s.toList :=
  Text.not_mem_of_forall (fun c hc => isLabelChar_iff.2 (h.2 c hc)) hc

theorem not_mem_of_segment {s : String} (h : Segment s) {c : Char} (hc : isTypeChar c = false) :
    c ∉ s.toList :=
  Text.not_mem_of_forall (fun c hc => isTypeChar_iff.2 (h.2 c hc)) hc

theorem isProvider_iff {s : String} : isProvider s.toList = true ↔ Provider s := by
  constructor
  · intro h
    obtain ⟨labels, hlabels⟩ := exists_fields_toList '.' s
    obtain ⟨hne, -, hs⟩ := fields_toList_eq_iff.1 hlabels
    rw [isProvider, hlabels, List.all_map, List.all_eq_true] at h
    exact ⟨labels, hne, fun label hlabel => isLabel_iff.1 (h label hlabel), hs⟩
  · rintro ⟨labels, hne, hlabels, hs⟩
    have hfields : fields '.' s.toList = labels.map String.toList := by
      refine fields_toList_eq_iff.2 ⟨hne, fun label hlabel => ?_, hs⟩
      exact not_mem_of_label (hlabels label hlabel) rfl
    rw [isProvider, hfields, List.all_map, List.all_eq_true]
    exact fun label hlabel => isLabel_iff.2 (hlabels label hlabel)

/-- A provider holds no signs but dots. -/
theorem not_mem_of_provider {s : String} (h : Provider s) {c : Char} (hc : isLabelChar c = false)
    (hdot : c ≠ '.') : c ∉ s.toList := by
  obtain ⟨labels, -, hlabels, rfl⟩ := h
  refine Text.not_mem_intercalate (by simpa using hdot) fun label hlabel => ?_
  exact not_mem_of_label (hlabels label hlabel) hc

/-! ### Versions -/

/-- The first code points of the runs of ten digits that make up a range. -/
def runs (range : ℕ × ℕ) : List ℕ :=
  (List.range ((range.2 + 1 - range.1) / 10)).map (range.1 + 10 * ·)

theorem mem_range_iff_exists_run {range : ℕ × ℕ} (hwidth : 10 ∣ range.2 + 1 - range.1) (n : ℕ) :
    (range.1 ≤ n ∧ n ≤ range.2) ↔ ∃ start ∈ runs range, start ≤ n ∧ n ≤ start + 9 := by
  obtain ⟨k, hk⟩ := hwidth
  simp only [runs, List.mem_map, List.mem_range, exists_exists_and_eq_and]
  constructor
  · rintro ⟨hfirst, hlast⟩
    exact ⟨(n - range.1) / 10, by omega, by omega, by omega⟩
  · rintro ⟨i, hi, hfirst, hlast⟩
    exact ⟨by omega, by omega⟩

/-- The ranges of decimal digits are made of runs that begin with a zero each. -/
theorem isDecimalDigit_iff {c : Char} : isDecimalDigit c = true ↔ DecimalDigit c := by
  have hwidths : ∀ range ∈ Text.decimalDigitRanges, 10 ∣ range.2 + 1 - range.1 := by decide
  have hzeros : Text.decimalDigitRanges.flatMap runs = zeros := by decide
  rw [isDecimalDigit, Text.inRanges_eq_true_iff, DecimalDigit, ← hzeros]
  simp only [List.mem_flatMap]
  constructor
  · rintro ⟨range, hrange, hmem⟩
    obtain ⟨start, hstart, hrun⟩ := (mem_range_iff_exists_run (hwidths range hrange) _).1 hmem
    exact ⟨start, ⟨range, hrange, hstart⟩, hrun⟩
  · rintro ⟨start, ⟨range, hrange, hstart⟩, hrun⟩
    refine ⟨range, hrange, ?_⟩
    exact (mem_range_iff_exists_run (hwidths range hrange) _).2 ⟨start, hstart, hrun⟩

theorem isNumber_iff {n : ℕ} {s : String} : isNumber n s.toList = true ↔ Number n s := by
  simp [isNumber, Number, String.length_toList, isDecimalDigit_iff]

theorem not_mem_of_number {n : ℕ} {s : String} (h : Number n s) {c : Char}
    (hc : isDecimalDigit c = false) : c ∉ s.toList :=
  Text.not_mem_of_forall (fun d hd => isDecimalDigit_iff.2 (h.2 d hd)) hc

theorem map_toLower_eq_iff {cs word : List Char} (hword : ∀ c ∈ word, 'a' ≤ c ∧ c ≤ 'z') :
    cs.map Char.toLower = word ↔ List.Forall₂ (fun c d => d = c ∨ d = c.toUpper) word cs := by
  induction word generalizing cs with
  | nil => simp
  | cons c word ih =>
    obtain ⟨hc, hword⟩ := List.forall_mem_cons.1 hword
    cases cs with
    | nil => simp
    | cons d cs =>
      rw [List.map_cons, List.cons.injEq, List.forall₂_cons, toLower_eq_iff hc, ih hword]

theorem small_of_mem_stages {word : String} (h : word ∈ stages) :
    ∀ c ∈ word.toList, 'a' ≤ c ∧ c ≤ 'z' := by
  have hstages : stages.all (fun word => word.toList.all Char.isLower) = true := rfl
  intro c hc
  exact isLower_iff.1 (List.all_eq_true.1 (List.all_eq_true.1 hstages word h) c hc)

theorem isStage_iff {s : String} : isStage s.toList = true ↔ Stage s := by
  simp only [isStage, List.any_eq_true, beq_iff_eq]
  refine exists_congr fun word => and_congr_right fun hword => ?_
  exact map_toLower_eq_iff (small_of_mem_stages hword)

/-- A stage holds letters only. -/
theorem not_mem_of_stage {s : String} (h : Stage s) {c : Char}
    (hc : ¬ ('a' ≤ c.toLower ∧ c.toLower ≤ 'z')) : c ∉ s.toList := by
  intro hmem
  obtain ⟨word, hword, hs⟩ := h
  have hsmall := small_of_mem_stages hword
  have hlower := (map_toLower_eq_iff hsmall).2 hs
  exact hc (hsmall _ (hlower ▸ List.mem_map_of_mem hmem))

theorem version_of_isVersion {s : String} (h : isVersion s.toList = true) : Version s := by
  obtain ⟨pieces, hpieces⟩ := exists_fields_toList '-' s
  obtain ⟨-, -, hs⟩ := fields_toList_eq_iff.1 hpieces
  rw [isVersion, hpieces] at h
  -- there are three pieces, or four of which the last is a stage
  rcases pieces with _ | ⟨year, _ | ⟨month, _ | ⟨day, _ | ⟨stage, _ | ⟨_, _⟩⟩⟩⟩⟩
  · cases h
  · cases h
  · cases h
  · simp only [List.map_cons, List.map_nil, Bool.and_eq_true, isNumber_iff] at h
    obtain ⟨⟨hyear, hmonth⟩, hday⟩ := h
    refine .inl ⟨year, month, day, hyear, hmonth, hday, hs.trans ?_⟩
    simp [String.intercalate_cons_cons, String.append_assoc]
  · simp only [List.map_cons, List.map_nil, Bool.and_eq_true, isNumber_iff, isStage_iff] at h
    obtain ⟨⟨⟨hyear, hmonth⟩, hday⟩, hstage⟩ := h
    refine .inr ⟨_, stage, ⟨year, month, day, hyear, hmonth, hday, rfl⟩, hstage, hs.trans ?_⟩
    simp [String.intercalate_cons_cons, String.append_assoc]
  · cases h

theorem isVersion_of_version {s : String} (h : Version s) : isVersion s.toList = true := by
  -- hyphens are neither digits nor letters, so that they stand between the parts only
  have hhyphen : isDecimalDigit '-' = false := rfl
  rcases h with ⟨year, month, day, hyear, hmonth, hday, rfl⟩ |
    ⟨_, stage, ⟨year, month, day, hyear, hmonth, hday, rfl⟩, hstage, rfl⟩
  · have hfields : fields '-' (year ++ "-" ++ month ++ "-" ++ day).toList =
        [year, month, day].map String.toList := by
      refine fields_toList_eq_iff.2 ⟨by simp, ?_, ?_⟩
      · simp [not_mem_of_number hyear hhyphen, not_mem_of_number hmonth hhyphen,
          not_mem_of_number hday hhyphen]
      · simp [String.intercalate_cons_cons, String.append_assoc]
    rw [isVersion, hfields]
    simp [isNumber_iff, hyear, hmonth, hday]
  · have hfields : fields '-' (year ++ "-" ++ month ++ "-" ++ day ++ "-" ++ stage).toList =
        [year, month, day, stage].map String.toList := by
      refine fields_toList_eq_iff.2 ⟨by simp, ?_, ?_⟩
      · simp [not_mem_of_number hyear hhyphen, not_mem_of_number hmonth hhyphen,
          not_mem_of_number hday hhyphen, not_mem_of_stage hstage]
      · simp [String.intercalate_cons_cons, String.append_assoc]
    rw [isVersion, hfields]
    simp [isNumber_iff, isStage_iff, hyear, hmonth, hday, hstage]

theorem isVersion_iff {s : String} : isVersion s.toList = true ↔ Version s :=
  ⟨version_of_isVersion, isVersion_of_version⟩

/-! ### Texts -/

theorem fullType_eq (r : Reference) :
    r.fullType = r.provider ++ String.join (r.types.map ("/" ++ ·)) :=
  Text.intercalate_cons "/" r.provider r.types

/-- A version holds no signs but hyphens. -/
theorem not_mem_of_version {s : String} (h : Version s) {c : Char}
    (hdigit : isDecimalDigit c = false) (hletter : ¬ ('a' ≤ c.toLower ∧ c.toLower ≤ 'z'))
    (hhyphen : c ≠ '-') : c ∉ s.toList := by
  rcases h with ⟨year, month, day, hyear, hmonth, hday, rfl⟩ |
    ⟨_, stage, ⟨year, month, day, hyear, hmonth, hday, rfl⟩, hstage, rfl⟩
  · simp [not_mem_of_number hyear hdigit, not_mem_of_number hmonth hdigit,
      not_mem_of_number hday hdigit, hhyphen]
  · simp [not_mem_of_number hyear hdigit, not_mem_of_number hmonth hdigit,
      not_mem_of_number hday hdigit, not_mem_of_stage hstage hletter, hhyphen]

/-- The provider and the types hold no signs but dots, hyphens and slashes. -/
theorem not_mem_fullType {text : String} {r : Reference} (h : Spells text r) {c : Char}
    (hc : isTypeChar c = false) (hdot : c ≠ '.') (hslash : c ≠ '/') : c ∉ r.fullType.toList := by
  refine Text.not_mem_intercalate (by simpa using hslash) (List.forall_mem_cons.2 ⟨?_, ?_⟩)
  · exact not_mem_of_provider h.provider (Bool.or_eq_false_iff.1 hc).1 hdot
  · exact fun type htype => not_mem_of_segment (h.type type htype) hc

theorem not_at_mem_of_version {s : String} (h : Version s) : '@' ∉ s.toList :=
  not_mem_of_version h rfl (by decide) (by decide)

/-- The at sign stands between the types and the version only. -/
theorem not_at_mem_fullType {text : String} {r : Reference} (h : Spells text r) :
    '@' ∉ r.fullType.toList :=
  not_mem_fullType h rfl (by decide) (by decide)

theorem fields_at_of_spells {text : String} {r : Reference} (h : Spells text r) :
    fields '@' text.toList = [r.fullType, r.version].map String.toList := by
  refine fields_toList_eq_iff.2 ⟨by simp, ?_, ?_⟩
  · simpa using ⟨not_at_mem_fullType h, not_at_mem_of_version h.version⟩
  · rw [h.text_eq, ← fullType_eq]
    simp [String.intercalate_cons_cons]

theorem fields_slash_of_spells {text : String} {r : Reference} (h : Spells text r) :
    fields '/' r.fullType.toList = (r.provider :: r.types).map String.toList := by
  refine fields_toList_eq_iff.2 ⟨by simp, ?_, rfl⟩
  rw [List.forall_mem_cons]
  exact ⟨not_mem_of_provider h.provider rfl (by decide),
    fun type htype => not_mem_of_segment (h.type type htype) rfl⟩

/-- What is cut is spelled. -/
theorem spells_of_cut? {text : String} {r : Reference} (h : cut? text = some r) :
    Spells text r := by
  obtain ⟨halves, hhalves⟩ := exists_fields_toList '@' text
  obtain ⟨-, -, htext⟩ := fields_toList_eq_iff.1 hhalves
  rw [cut?, hhalves] at h
  rcases halves with _ | ⟨path, _ | ⟨version, _ | ⟨_, _⟩⟩⟩
  · cases h
  · cases h
  · obtain ⟨parts, hparts⟩ := exists_fields_toList '/' path
    obtain ⟨-, -, hpath⟩ := fields_toList_eq_iff.1 hparts
    simp only [List.map_cons, List.map_nil, hparts] at h
    rcases parts with _ | ⟨provider, _ | ⟨type, types⟩⟩
    · cases h
    · cases h
    · simp only [List.map_cons] at h
      split_ifs at h with hvalid
      obtain rfl : ⟨provider, type :: types, version⟩ = r := by simpa [Function.comp_def] using h
      simp only [List.all_cons, List.all_map, Bool.and_eq_true, isProvider_iff, isType_iff,
        isVersion_iff, List.all_eq_true, Function.comp_apply] at hvalid
      obtain ⟨⟨hprovider, htype, htypes⟩, hversion⟩ := hvalid
      refine ⟨?_, hprovider, by simp, by simpa using ⟨htype, htypes⟩, hversion⟩
      rw [htext, hpath, ← fullType_eq, String.intercalate_cons_cons, String.intercalate_singleton]
      rfl
  · cases h

/-- What is spelled can be cut. -/
theorem cut?_of_spells {text : String} {r : Reference} (h : Spells text r) :
    cut? text = some r := by
  rw [cut?, fields_at_of_spells h]
  simp only [List.map_cons, List.map_nil, fields_slash_of_spells h]
  obtain ⟨provider, _ | ⟨type, types⟩, version⟩ := r
  · exact absurd rfl h.types_ne_nil
  · have htypes : (type.toList :: types.map String.toList).all isType = true := by
      rw [← List.map_cons, List.all_map, List.all_eq_true]
      exact fun t ht => isType_iff.2 (h.type t ht)
    simp only [List.map_cons, isProvider_iff.2 h.provider, htypes, isVersion_iff.2 h.version]
    simp [Function.comp_def]

theorem cut?_eq_some_iff {text : String} {r : Reference} :
    cut? text = some r ↔ Spells text r :=
  ⟨spells_of_cut?, cut?_of_spells⟩

theorem text_eq_of_spells {text : String} {r : Reference} (h : Spells text r) : r.text = text := by
  rw [Reference.text, fullType_eq, h.text_eq]

end Reference

end Resource

end TypeGraph
