import Mathlib.Computability.Language
import Mathlib.Data.List.Forall2
import Mathlib.Data.String.Basic
import TypeGraph.Text.Regex

/-!
# What regular expressions match

The ways to match are listed by a search. What can be read at all is a matter of languages: a
sequence reads the product of two languages, and a repetition the star of one. For expressions
without anchors and groups nothing else is asked of a way (`Regex.mem_ways_iff`), so that the search
misses nothing and invents nothing.

* `Regex.mem_repeated_iff`: the limit on repetitions costs nothing.
* `Regex.mem_ways_group_seq_iff`, `Regex.find?_textStart`: groups and the start of the text.
* `Regex.mem_language_ignoringCase_word`: words in which any letters may be capitals.
-/

namespace TypeGraph.Text

open Computability

/-! ### Letters in all cases -/

/-- A letter of the English alphabet, small or capital. -/
def IsEnglish (c : Char) : Prop := ('a' ≤ c ∧ c ≤ 'z') ∨ ('A' ≤ c ∧ c ≤ 'Z')

/-- A letter with more than one case. -/
def HasCases (c : Char) : Prop := IsEnglish c ∨ c = '\u017f' ∨ c = '\u212a'

/-- Only capitals have another small letter than themselves. -/
theorem toLower_cases (c : Char) :
    c.toLower = c ∨ (('A' ≤ c ∧ c ≤ 'Z') ∧ 'a' ≤ c.toLower ∧ c.toLower ≤ 'z') := by
  delta Char.toLower
  split_ifs with h
  · right
    simp only [Char.le_def]
    grind
  · exact .inl rfl

/-- Only small letters have another capital than themselves. -/
theorem toUpper_cases (c : Char) :
    c.toUpper = c ∨ (('a' ≤ c ∧ c ≤ 'z') ∧ 'A' ≤ c.toUpper ∧ c.toUpper ≤ 'Z') := by
  delta Char.toUpper
  split_ifs with h
  · right
    simp only [Char.le_def]
    grind
  · exact .inl rfl

theorem toLower_of_small {c : Char} (h : 'a' ≤ c ∧ c ≤ 'z') : c.toLower = c := by
  rcases toLower_cases c with hsame | ⟨hcapital, -⟩
  · exact hsame
  · exact absurd (h.1.trans hcapital.2) (by decide)

theorem small_toLower {c : Char} (h : IsEnglish c) : 'a' ≤ c.toLower ∧ c.toLower ≤ 'z' := by
  rcases h with hsmall | hcapital
  · rwa [toLower_of_small hsmall]
  · delta Char.toLower
    rw [dif_pos (show 'A'.val ≤ c.val ∧ c.val ≤ 'Z'.val from hcapital)]
    simp only [Char.le_def] at hcapital ⊢
    grind

/-- The characters whose small letter is a given one are the letter itself and its capital. -/
theorem toLower_eq_iff {c d : Char} (hc : 'a' ≤ c ∧ c ≤ 'z') :
    d.toLower = c ↔ d = c ∨ d = c.toUpper := by
  have hsmall : 'a'.val ≤ c.val ∧ c.val ≤ 'z'.val := hc
  delta Char.toUpper Char.toLower
  rw [dif_pos hsmall]
  split_ifs with hcapital
  · have hne : d.val ≠ c.val := by grind
    simp only [Char.ext_iff]
    grind
  · have hne : d.val ≠ c.val + ('A'.val - 'a'.val) := by grind
    simp only [Char.ext_iff]
    grind

theorem hasCases_of_mem {c : Char} (h : c ∈ ['s', 'S', '\u017f'] ∨ c ∈ ['k', 'K', '\u212a']) :
    HasCases c := by
  simp only [List.mem_cons, List.not_mem_nil, or_false] at h
  rcases h with (rfl | rfl | rfl) | (rfl | rfl | rfl)
  · exact .inl (.inl (by decide))
  · exact .inl (.inr (by decide))
  · exact .inr (.inl rfl)
  · exact .inl (.inl (by decide))
  · exact .inl (.inr (by decide))
  · exact .inr (.inr rfl)

theorem caseVariants_of_not_hasCases {c : Char} (h : ¬ HasCases c) : caseVariants c = [c, c] := by
  have hlower : c.toLower = c := by
    rcases toLower_cases c with hsame | ⟨hcapital, -⟩
    · exact hsame
    · exact absurd (.inl (.inr hcapital)) h
  have hupper : c.toUpper = c := by
    rcases toUpper_cases c with hsame | ⟨hsmall, -⟩
    · exact hsame
    · exact absurd (.inl (.inl hsmall)) h
  rw [caseVariants, if_neg fun hs => h (hasCases_of_mem (.inl hs)),
    if_neg fun hk => h (hasCases_of_mem (.inr hk)), hlower, hupper]

theorem isEnglish_of_not_mem {c : Char} (h : HasCases c) (hs : c ∉ ['s', 'S', '\u017f'])
    (hk : c ∉ ['k', 'K', '\u212a']) : IsEnglish c := by
  rcases h with henglish | rfl | rfl
  · exact henglish
  · exact absurd (by simp) hs
  · exact absurd (by simp) hk

theorem hasCases_of_mem_caseVariants {c d : Char} (h : HasCases c) (hd : d ∈ caseVariants c) :
    HasCases d := by
  rw [caseVariants] at hd
  split_ifs at hd with hs hk
  · exact hasCases_of_mem (.inl hd)
  · exact hasCases_of_mem (.inr hd)
  · have henglish := isEnglish_of_not_mem h hs hk
    simp only [List.mem_cons, List.not_mem_nil, or_false] at hd
    rcases hd with rfl | rfl
    · exact .inl (.inl (small_toLower henglish))
    · rcases toUpper_cases c with hsame | ⟨-, hcapital⟩
      · rwa [hsame]
      · exact .inl (.inr hcapital)

theorem exists_small_mem_caseVariants {c : Char} (h : HasCases c) :
    ∃ d ∈ caseVariants c, 'a' ≤ d ∧ d ≤ 'z' := by
  rw [caseVariants]
  split_ifs with hs hk
  · exact ⟨'s', by simp, by decide⟩
  · exact ⟨'k', by simp, by decide⟩
  · exact ⟨c.toLower, by simp, small_toLower (isEnglish_of_not_mem h hs hk)⟩

/-- All small letters but two have one capital and no other form. -/
theorem mem_caseVariants_iff {c d : Char} (hd : 'a' ≤ d ∧ d ≤ 'z') (hs : d ≠ 's') (hk : d ≠ 'k') :
    d ∈ caseVariants c ↔ c = d ∨ c = d.toUpper := by
  have hnot : ∀ e, ¬ ('a' ≤ e ∧ e ≤ 'z') → d ≠ e := fun e he hde => he (hde ▸ hd)
  rw [← toLower_eq_iff hd, caseVariants]
  split_ifs with hcs hck
  · refine iff_of_false (by simp [hs, hnot 'S' (by decide), hnot '\u017f' (by decide)]) fun h => ?_
    simp only [List.mem_cons, List.not_mem_nil, or_false] at hcs
    rcases hcs with rfl | rfl | rfl
    · exact hs h.symm
    · exact hs h.symm
    · exact hnot '\u017f' (by decide) h.symm
  · refine iff_of_false (by simp [hk, hnot 'K' (by decide), hnot '\u212a' (by decide)]) fun h => ?_
    simp only [List.mem_cons, List.not_mem_nil, or_false] at hck
    rcases hck with rfl | rfl | rfl
    · exact hk h.symm
    · exact hk h.symm
    · exact hnot '\u212a' (by decide) h.symm
  · simp only [List.mem_cons, List.not_mem_nil, or_false]
    constructor
    · rintro (rfl | hupper)
      · rfl
      · rcases toUpper_cases c with hsame | ⟨-, hcapital⟩
        · rw [hupper, hsame] at hd
          rw [hupper, hsame, toLower_of_small hd]
        · rw [← hupper] at hcapital
          exact absurd (hd.1.trans hcapital.2) (by decide)
    · rintro rfl
      exact .inl rfl

/-- A class that holds the small letters holds the letters in all cases, if cases are ignored. -/
theorem any_caseVariants_iff {isMember : Char → Bool}
    (h : ∀ d, 'a' ≤ d ∧ d ≤ 'z' → isMember d = true) {c : Char} :
    (caseVariants c).any isMember = true ↔ HasCases c ∨ isMember c = true := by
  by_cases hc : HasCases c
  · obtain ⟨d, hmem, hd⟩ := exists_small_mem_caseVariants hc
    simp only [hc, true_or, iff_true, List.any_eq_true]
    exact ⟨d, hmem, h d hd⟩
  · rw [caseVariants_of_not_hasCases hc]
    simp [hc]

/-- A class without letters stays as it is, if cases are ignored. -/
theorem any_caseVariants_eq {isMember : Char → Bool} (h : ∀ d, HasCases d → isMember d = false)
    (c : Char) : (caseVariants c).any isMember = isMember c := by
  by_cases hc : HasCases c
  · rw [h c hc, List.any_eq_false]
    exact fun d hd => by simp [h d (hasCases_of_mem_caseVariants hc hd)]
  · rw [caseVariants_of_not_hasCases hc]
    simp

/-! ### Ways and languages -/

/-- The way reads a text of the language off the front, and keeps nothing in groups. -/
def Way.Reads (w : Way) (L : Language Char) (text : List Char) : Prop :=
  w.read ++ w.rest = text ∧ w.read ∈ L ∧ w.groups = []

namespace Way

variable {w : Way} {L M : Language Char} {text : List Char}

theorem reads_one_iff : w.Reads 1 text ↔ w = still text := by
  obtain ⟨read, rest, groups⟩ := w
  simp only [Reads, Language.mem_one, still, Way.mk.injEq]
  constructor
  · rintro ⟨rfl, rfl, rfl⟩
    exact ⟨rfl, rfl, rfl⟩
  · rintro ⟨rfl, rfl, rfl⟩
    exact ⟨rfl, rfl, rfl⟩

theorem reads_add_iff : w.Reads (L + M) text ↔ w.Reads L text ∨ w.Reads M text := by
  simp only [Reads, Language.mem_add]
  tauto

/-- Reading a product is reading one factor after the other. -/
theorem reads_mul_iff :
    w.Reads (L * M) text ↔
      ∃ first second : Way, first.Reads L text ∧ second.Reads M first.rest ∧
        first.andThen second = w := by
  constructor
  · obtain ⟨read, rest, groups⟩ := w
    rintro ⟨htext, hread, hgroups⟩
    obtain ⟨x, hx, y, hy, hxy⟩ := Language.mem_mul.1 hread
    refine ⟨⟨x, y ++ rest, []⟩, ⟨y, rest, []⟩, ⟨?_, hx, rfl⟩, ⟨rfl, hy, rfl⟩, ?_⟩
    · rw [← htext, ← hxy, List.append_assoc]
    · simp_all [andThen]
  · rintro ⟨first, second, ⟨htext, hfirst, hgroups⟩, ⟨hrest, hsecond, hgroups'⟩, rfl⟩
    refine ⟨?_, Language.append_mem_mul hfirst hsecond, ?_⟩
    · rw [andThen, List.append_assoc, hrest, htext]
    · rw [andThen, hgroups, hgroups', List.append_nil]

end Way

namespace Regex

/-! ### Languages -/

/-- What an expression reads, if anchors are left aside. -/
def language : Regex → Language Char
  | empty => 1
  | textStart => 1
  | textEnd => 1
  | one isMember => {x | ∃ c, isMember c = true ∧ x = [c]}
  | seq r s => r.language * s.language
  | alt r s => r.language + s.language
  | many r => r.language∗
  | group _ r => r.language

/-- There are no anchors and no groups in the expression. -/
def isBare : Regex → Bool
  | empty => true
  | textStart => false
  | textEnd => false
  | one _ => true
  | seq r s => r.isBare && s.isBare
  | alt r s => r.isBare && s.isBare
  | many r => r.isBare
  | group _ _ => false

variable {r s : Regex} {w : Way} {place : ℕ} {text : List Char}

/-- A time reads something, so the text gets shorter, and its length is limit enough. -/
theorem mem_repeated_iff {once : ℕ → List Char → List Way} {L : Language Char}
    (honce : ∀ {place text w}, w ∈ once place text ↔ w.Reads L text) {limit : ℕ}
    (hlimit : text.length ≤ limit) : w ∈ repeated once limit place text ↔ w.Reads L∗ text := by
  induction limit generalizing place text w with
  | zero =>
    obtain rfl := List.length_eq_zero_iff.1 (Nat.le_zero.1 hlimit)
    rw [repeated, List.mem_singleton, ← Way.reads_one_iff]
    constructor
    · rintro ⟨htext, hread, hgroups⟩
      exact ⟨htext, hread ▸ Language.nil_mem_kstar L, hgroups⟩
    · rintro ⟨htext, -, hgroups⟩
      exact ⟨htext, (List.append_eq_nil_iff.1 htext).1, hgroups⟩
  | succ limit ih =>
    have hshorter : ∀ {first : Way}, first.Reads L text → first.read ≠ [] →
        first.rest.length ≤ limit := by
      rintro first ⟨rfl, -, -⟩ hne
      have hpos := List.length_pos_iff.2 hne
      rw [List.length_append] at hlimit
      omega
    simp only [repeated, List.mem_append, List.mem_flatMap, List.mem_filter, List.mem_map,
      List.mem_singleton, honce, Bool.not_eq_true', List.isEmpty_eq_false_iff]
    constructor
    · rintro (⟨first, ⟨hfirst, hne⟩, second, hsecond, rfl⟩ | rfl)
      · have hreads := Way.reads_mul_iff.2
          ⟨first, second, hfirst, (ih (hshorter hfirst hne)).1 hsecond, rfl⟩
        have hstar : L * L∗ ≤ L∗ := mul_kstar_le_kstar
        exact ⟨hreads.1, hstar hreads.2.1, hreads.2.2⟩
      · exact ⟨rfl, Language.nil_mem_kstar L, rfl⟩
    · obtain ⟨read, rest, groups⟩ := w
      rintro ⟨htext, hread, hgroups⟩
      obtain ⟨pieces, hpieces, hmem⟩ := Language.mem_kstar_iff_exists_nonempty.1 hread
      simp only at htext hgroups hpieces
      subst hpieces hgroups htext
      cases pieces with
      | nil => exact .inr rfl
      | cons piece pieces =>
        obtain ⟨⟨hpiece, hne⟩, hothers⟩ := List.forall_mem_cons.1 hmem
        have hfirst : Way.Reads ⟨piece, pieces.flatten ++ rest, []⟩ L
            ((piece :: pieces).flatten ++ rest) := by
          refine ⟨?_, hpiece, rfl⟩
          rw [List.flatten_cons, List.append_assoc]
        refine .inl ⟨_, ⟨hfirst, hne⟩, ⟨pieces.flatten, rest, []⟩, ?_, rfl⟩
        refine (ih (hshorter hfirst hne)).2 ⟨rfl, ?_, rfl⟩
        exact Language.join_mem_kstar fun y hy => (hothers y hy).1

/-- The search finds every way to read a text of the language, and no other way. -/
theorem mem_ways_iff (hr : r.isBare = true) : w ∈ r.ways place text ↔ w.Reads r.language text := by
  induction r generalizing w place text with
  | empty => rw [ways, List.mem_singleton, language, Way.reads_one_iff]
  | textStart => cases hr
  | textEnd => cases hr
  | one isMember =>
    obtain ⟨read, rest, groups⟩ := w
    cases text with
    | nil =>
      simp only [ways, List.not_mem_nil, false_iff]
      rintro ⟨htext, ⟨c, -, hread⟩, -⟩
      rw [hread] at htext
      cases htext
    | cons c text =>
      rw [ways]
      split_ifs with hc
      · rw [List.mem_singleton, Way.mk.injEq]
        constructor
        · rintro ⟨rfl, rfl, rfl⟩
          exact ⟨rfl, ⟨c, hc, rfl⟩, rfl⟩
        · rintro ⟨htext, ⟨d, -, hread⟩, hgroups⟩
          simp only at htext hread hgroups
          subst hread hgroups
          obtain ⟨rfl, rfl⟩ := List.cons.inj htext
          exact ⟨rfl, rfl, rfl⟩
      · simp only [List.not_mem_nil, false_iff]
        rintro ⟨htext, ⟨d, hd, hread⟩, -⟩
        simp only at htext hread
        subst hread
        obtain ⟨rfl, -⟩ := List.cons.inj htext
        exact hc hd
  | seq r s ihr ihs =>
    obtain ⟨hr, hs⟩ := Bool.and_eq_true_iff.1 hr
    simp only [ways, List.mem_flatMap, List.mem_map, ihr hr, ihs hs, language, Way.reads_mul_iff]
    tauto
  | alt r s ihr ihs =>
    obtain ⟨hr, hs⟩ := Bool.and_eq_true_iff.1 hr
    rw [ways, List.mem_append, ihr hr, ihs hs, language, Way.reads_add_iff]
  | many r ih => exact mem_repeated_iff (ih hr) le_rfl
  | group name r => cases hr

/-! ### Groups and anchors -/

/-- A group keeps what is read in it. -/
theorem mem_ways_group_iff (hr : r.isBare = true) {name : String} :
    w ∈ (group name r).ways place text ↔
      w.read ++ w.rest = text ∧ w.read ∈ r.language ∧ w.groups = [(name, w.read)] := by
  rw [ways, List.mem_map]
  constructor
  · rintro ⟨inner, hinner, rfl⟩
    obtain ⟨htext, hread, hgroups⟩ := (mem_ways_iff hr).1 hinner
    exact ⟨htext, hread, by rw [hgroups]⟩
  · rintro ⟨htext, hread, hgroups⟩
    refine ⟨⟨w.read, w.rest, []⟩, (mem_ways_iff hr).2 ⟨htext, hread, rfl⟩, ?_⟩
    rw [← hgroups]

theorem mem_ways_seq_iff :
    w ∈ (seq r s).ways place text ↔ ∃ first ∈ r.ways place text,
      ∃ second ∈ s.ways (place + first.read.length) first.rest, first.andThen second = w := by
  simp only [ways, List.mem_flatMap, List.mem_map]

/-- What an expression reads, followed by what another one reads. -/
theorem mem_ways_bare_seq_iff (hr : r.isBare = true) :
    w ∈ (seq r s).ways place text ↔
      ∃ x rest second, x ∈ r.language ∧ second ∈ s.ways (place + x.length) rest ∧
        text = x ++ rest ∧ w = ⟨x ++ second.read, second.rest, second.groups⟩ := by
  rw [mem_ways_seq_iff]
  constructor
  · rintro ⟨first, hfirst, second, hsecond, rfl⟩
    obtain ⟨htext, hread, hgroups⟩ := (mem_ways_iff hr).1 hfirst
    refine ⟨first.read, first.rest, second, hread, hsecond, htext.symm, ?_⟩
    rw [Way.andThen, hgroups, List.append_nil]
  · rintro ⟨x, rest, second, hx, hsecond, rfl, rfl⟩
    refine ⟨⟨x, rest, []⟩, (mem_ways_iff hr).2 ⟨rfl, hx, rfl⟩, second, hsecond, ?_⟩
    rw [Way.andThen, List.append_nil]

/-- What a group reads and keeps, followed by what another expression reads. -/
theorem mem_ways_group_seq_iff (hr : r.isBare = true) {name : String} :
    w ∈ (seq (group name r) s).ways place text ↔
      ∃ x rest second, x ∈ r.language ∧ second ∈ s.ways (place + x.length) rest ∧
        text = x ++ rest ∧ w = ⟨x ++ second.read, second.rest, second.groups ++ [(name, x)]⟩ := by
  rw [mem_ways_seq_iff]
  constructor
  · rintro ⟨first, hfirst, second, hsecond, rfl⟩
    obtain ⟨htext, hread, hgroups⟩ := (mem_ways_group_iff hr).1 hfirst
    refine ⟨first.read, first.rest, second, hread, hsecond, htext.symm, ?_⟩
    rw [Way.andThen, hgroups]
  · rintro ⟨x, rest, second, hx, hsecond, rfl, rfl⟩
    exact ⟨⟨x, rest, [(name, x)]⟩, (mem_ways_group_iff hr).2 ⟨rfl, hx, rfl⟩, second, hsecond, rfl⟩

theorem mem_ways_textEnd_iff : w ∈ textEnd.ways place text ↔ text = [] ∧ w = .still [] := by
  rw [ways]
  split_ifs with h
  · obtain rfl := List.isEmpty_iff.1 h
    simp
  · simp_all

/-- An expression that begins at the start of the text is looked for there only. -/
theorem find?_textStart : (seq textStart r).find? text = (r.ways 0 text).head? := by
  have hthere : (seq textStart r).ways 0 text = r.ways 0 text := by
    have hstill : (Way.still text).andThen = id := by
      funext w
      simp [Way.andThen, Way.still]
    rw [ways, ways, if_pos rfl, List.flatMap_singleton, hstill, List.map_id]
    rfl
  have helsewhere : ∀ n, (seq textStart r).ways (n + 1) (text.drop (n + 1)) = [] := by
    intro n
    simp [ways]
  rw [find?, List.range_succ_eq_map, List.findSome?_cons, List.drop_zero, hthere,
    List.findSome?_map]
  have hnone : (List.range text.length).findSome?
      ((fun place => ((seq textStart r).ways place (text.drop place)).head?) ∘ Nat.succ) =
        none := by
    rw [List.findSome?_eq_none_iff]
    intro n _
    rw [Function.comp_apply, helsewhere, List.head?_nil]
  rw [hnone]
  cases (r.ways 0 text).head? <;> rfl

/-! ### Classes and repetitions -/

variable {x : List Char}

theorem mem_language_sign {c : Char} : x ∈ (sign c).language ↔ x = [c] := by
  constructor
  · rintro ⟨d, hd, rfl⟩
    rw [beq_iff_eq.1 hd]
  · rintro rfl
    exact ⟨c, beq_self_eq_true c, rfl⟩

theorem mem_language_sign_mul {c : Char} {L : Language Char} :
    x ∈ (sign c).language * L ↔ ∃ y ∈ L, x = c :: y := by
  rw [Language.mem_mul]
  constructor
  · rintro ⟨_, hc, y, hy, rfl⟩
    rw [mem_language_sign.1 hc]
    exact ⟨y, hy, rfl⟩
  · rintro ⟨y, hy, rfl⟩
    exact ⟨[c], mem_language_sign.2 rfl, y, hy, rfl⟩

theorem mem_language_many_one {isMember : Char → Bool} :
    x ∈ (many (one isMember)).language ↔ ∀ c ∈ x, isMember c = true := by
  constructor
  · rintro ⟨pieces, rfl, hpieces⟩ c hc
    obtain ⟨piece, hpiece, hmem⟩ := List.mem_flatten.1 hc
    obtain ⟨d, hd, rfl⟩ := hpieces piece hpiece
    rwa [List.mem_singleton.1 hmem]
  · intro h
    refine ⟨x.map ([·]), by rw [← List.flatMap_def, List.flatMap_singleton'], ?_⟩
    rw [List.forall_mem_map]
    exact fun c hc => ⟨c, h c hc, rfl⟩

theorem mem_language_several :
    x ∈ (several r).language ↔
      ∃ pieces, pieces ≠ [] ∧ x = pieces.flatten ∧ ∀ piece ∈ pieces, piece ∈ r.language := by
  constructor
  · intro h
    obtain ⟨piece, hpiece, _, ⟨pieces, rfl, hpieces⟩, rfl⟩ := Language.mem_mul.1 h
    exact ⟨piece :: pieces, by simp, rfl, List.forall_mem_cons.2 ⟨hpiece, hpieces⟩⟩
  · rintro ⟨_ | ⟨piece, pieces⟩, hne, rfl, hpieces⟩
    · exact absurd rfl hne
    · obtain ⟨hpiece, hothers⟩ := List.forall_mem_cons.1 hpieces
      exact Language.append_mem_mul hpiece (Language.join_mem_kstar hothers)

theorem mem_language_several_one {isMember : Char → Bool} :
    x ∈ (several (one isMember)).language ↔ x ≠ [] ∧ ∀ c ∈ x, isMember c = true := by
  constructor
  · intro h
    obtain ⟨_, ⟨c, hc, rfl⟩, cs, hcs, rfl⟩ := Language.mem_mul.1 h
    exact ⟨by simp, List.forall_mem_cons.2 ⟨hc, mem_language_many_one.1 hcs⟩⟩
  · rintro ⟨hne, h⟩
    obtain ⟨c, cs, rfl⟩ := List.exists_cons_of_ne_nil hne
    obtain ⟨hc, hcs⟩ := List.forall_mem_cons.1 h
    have hfirst : [c] ∈ (one isMember).language := ⟨c, hc, rfl⟩
    exact Language.append_mem_mul hfirst (mem_language_many_one.2 hcs)

/-! ### Sequences and alternatives -/

theorem language_inOrder_cons (r : Regex) (rs : List Regex) :
    (inOrder (r :: rs)).language = r.language * (inOrder rs).language := by
  cases rs with
  | nil => exact (mul_one r.language).symm
  | cons s rs => rfl

theorem mem_language_firstOf {rs : List Regex} :
    x ∈ (firstOf rs).language ↔ ∃ r ∈ rs, x ∈ r.language := by
  induction rs with
  | nil =>
    simp only [List.not_mem_nil, false_and, exists_false, iff_false]
    rintro ⟨c, hc, -⟩
    cases hc
  | cons r rs ih =>
    cases rs with
    | nil => simp [firstOf]
    | cons s rs =>
      have hcons : (firstOf (r :: s :: rs)).language =
          r.language + (firstOf (s :: rs)).language := rfl
      rw [hcons, Language.mem_add, ih]
      simp

theorem mem_language_times_one {isMember : Char → Bool} {n : ℕ} :
    x ∈ (times n (one isMember)).language ↔ x.length = n ∧ ∀ c ∈ x, isMember c = true := by
  induction n generalizing x with
  | zero =>
    rw [List.length_eq_zero_iff]
    constructor
    · rintro rfl
      simp
    · rintro ⟨rfl, -⟩
      rfl
  | succ n ih =>
    rw [times, List.replicate_succ, language_inOrder_cons, ← times, Language.mem_mul]
    constructor
    · rintro ⟨_, ⟨c, hc, rfl⟩, cs, hcs, rfl⟩
      obtain ⟨hlength, hcs⟩ := ih.1 hcs
      exact ⟨congrArg Nat.succ hlength, List.forall_mem_cons.2 ⟨hc, hcs⟩⟩
    · rintro ⟨hlength, h⟩
      obtain ⟨c, cs, rfl⟩ := List.exists_cons_of_length_eq_add_one hlength
      obtain ⟨hc, hcs⟩ := List.forall_mem_cons.1 h
      exact ⟨[c], ⟨c, hc, rfl⟩, cs, ih.2 ⟨Nat.succ.inj hlength, hcs⟩, rfl⟩

/-! ### Ignoring case -/

theorem ignoringCase_inOrder (rs : List Regex) :
    (inOrder rs).ignoringCase = inOrder (rs.map ignoringCase) := by
  induction rs with
  | nil => rfl
  | cons r rs ih =>
    cases rs with
    | nil => rfl
    | cons s rs => exact congrArg (seq r.ignoringCase) ih

theorem ignoringCase_firstOf (rs : List Regex) :
    (firstOf rs).ignoringCase = firstOf (rs.map ignoringCase) := by
  induction rs with
  | nil =>
    have hnone : (fun c => (caseVariants c).any fun _ => false) = fun _ => false := by
      funext c
      simp
    exact congrArg one hnone
  | cons r rs ih =>
    cases rs with
    | nil => rfl
    | cons s rs => exact congrArg (alt r.ignoringCase) ih

theorem ignoringCase_times (n : ℕ) (r : Regex) :
    (times n r).ignoringCase = times n r.ignoringCase := by
  rw [times, ignoringCase_inOrder, List.map_replicate, times]

/-- A word of small letters is read with any of them as capitals. -/
theorem mem_language_ignoringCase_word {word : List Char}
    (hword : ∀ c ∈ word, ('a' ≤ c ∧ c ≤ 'z') ∧ c ≠ 's' ∧ c ≠ 'k') :
    x ∈ (inOrder (word.map sign)).ignoringCase.language ↔
      List.Forall₂ (fun c d => d = c ∨ d = c.toUpper) word x := by
  induction word generalizing x with
  | nil => exact List.forall₂_nil_left_iff.symm
  | cons c word ih =>
    obtain ⟨⟨hsmall, hs, hk⟩, hword⟩ := List.forall_mem_cons.1 hword
    have hclass : ∀ d, (caseVariants d).any (· == c) = true ↔ d = c ∨ d = c.toUpper := by
      intro d
      rw [← mem_caseVariants_iff hsmall hs hk, List.any_beq']
      exact List.contains_iff_mem
    rw [ignoringCase_inOrder, List.map_cons, List.map_cons, language_inOrder_cons,
      ← ignoringCase_inOrder, Language.mem_mul]
    constructor
    · rintro ⟨_, ⟨d, hd, rfl⟩, cs, hcs, rfl⟩
      exact .cons ((hclass d).1 hd) ((ih hword).1 hcs)
    · rintro (_ | ⟨hd, hcs⟩)
      exact ⟨[_], ⟨_, (hclass _).2 hd, rfl⟩, _, (ih hword).2 hcs, rfl⟩

end Regex

end TypeGraph.Text
