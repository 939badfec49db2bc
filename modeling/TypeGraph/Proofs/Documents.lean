import Mathlib.Algebra.GroupWithZero.Nat
import Mathlib.Data.List.Basic
import TypeGraph.Report
import TypeGraph.Text.Fields

/-!
# What a document tells

A document is laid out over lines for the eye, and still nothing is lost in it: a value is read off
the front of a text together with the place where it ends, so that its layout is known by the value
and the value by its layout (`Json.pretty_injective`). The first character tells of which kind the
value is, and behind an item or a field comes a comma or the line of the closing bracket.

* `Json.quote_append_inj`, `Json.delimitedBy_layout`: strings and values are told apart from what
  follows.
* `ObjectReport.height`: the lines that an object takes. A line ends only where the layout calls for
  it (`ObjectReport.lineCount_json`). Strings hold no line ends, and no other characters below the
  blank either (`Json.le_of_mem_quote`).
-/

namespace TypeGraph

namespace Json

/-! ### Strings -/

/-- The characters that are not written as they are: those below the blank, the quote and the
backslash. -/
def specials : List Char := '"' :: '\\' :: (List.range 0x20).map Char.ofNat

theorem mem_specials_of_lt {c : Char} (h : c.toNat < 0x20) : c ∈ specials := by
  refine List.mem_cons_of_mem _ (List.mem_cons_of_mem _ (List.mem_map.2 ⟨c.toNat, ?_, ?_⟩))
  · exact List.mem_range.2 h
  · exact Char.ofNat_toNat c

theorem escapeChar_of_not_mem {c : Char} (h : c ∉ specials) : escapeChar c = [c] := by
  have hne : ∀ d ∈ specials, c ≠ d := fun d hd hcd => h (hcd ▸ hd)
  have hle : ¬ c.toNat < 0x20 := fun hlt => h (mem_specials_of_lt hlt)
  unfold escapeChar
  rw [if_neg (hne _ (by decide)), if_neg (hne _ (by decide)), if_neg (hne _ (by decide)),
    if_neg (hne _ (by decide)), if_neg (hne _ (by decide)), if_neg (hne _ (by decide)),
    if_neg (hne _ (by decide)), if_neg hle]

/-- The string has no special characters. -/
def IsVerbatim (s : String) : Prop := ∀ c ∈ s.toList, c ∉ specials

/-- A string without special characters is written as it is. -/
theorem quote_of_isVerbatim {s : String} (h : IsVerbatim s) :
    quote s = '"' :: (s.toList ++ ['"']) := by
  have hsame : s.toList.flatMap escapeChar = s.toList.flatMap fun c => [c] :=
    List.flatMap_congr fun c hc => escapeChar_of_not_mem (h c hc)
  rw [quote, hsame, List.flatMap_singleton']

/-- A special character is written behind a backslash, in characters that are not below the
blank. -/
theorem escapeChar_of_mem {c : Char} (h : c ∈ specials) :
    (escapeChar c).head? = some '\\' ∧ ∀ d ∈ escapeChar c, 0x20 ≤ d.toNat := by
  have hall : (specials.all fun c => (escapeChar c).head? == some '\\' &&
      (escapeChar c).all fun d => decide (0x20 ≤ d.toNat)) = true := by decide +kernel
  simpa using List.all_eq_true.1 hall c h

/-- No written form of a special character begins that of another. -/
theorem eq_of_escapeChar_begins {c d : Char} (hc : c ∈ specials) (hd : d ∈ specials)
    (h : escapeChar c <+: escapeChar d) : c = d := by
  have hall : (specials.all fun c => specials.all fun d =>
      decide (escapeChar c <+: escapeChar d → c = d)) = true := by decide +kernel
  exact of_decide_eq_true (List.all_eq_true.1 (List.all_eq_true.1 hall c hc) d hd) h

theorem head?_escapeChar (c : Char) :
    (escapeChar c).head? = some (if c ∈ specials then '\\' else c) := by
  split_ifs with hc
  · exact (escapeChar_of_mem hc).1
  · rw [escapeChar_of_not_mem hc, List.head?_cons]

theorem head?_escapeChar_append (c : Char) (rest : List Char) :
    (escapeChar c ++ rest).head? = some (if c ∈ specials then '\\' else c) := by
  rw [List.head?_append, head?_escapeChar, Option.some_or]

/-- The written form of a character is told apart from what follows. -/
theorem escapeChar_append_inj {c d : Char} {rest rest' : List Char}
    (h : escapeChar c ++ rest = escapeChar d ++ rest') : c = d ∧ rest = rest' := by
  have hbackslash : '\\' ∈ specials := by decide
  have hsame : c = d := by
    have hhead := congrArg List.head? h
    rw [head?_escapeChar_append, head?_escapeChar_append, Option.some_inj] at hhead
    split_ifs at hhead with hc hd hd
    · have hbegins : escapeChar c <+: escapeChar d ∨ escapeChar d <+: escapeChar c :=
        List.prefix_or_prefix_of_prefix (List.prefix_append _ rest) (h ▸ List.prefix_append _ rest')
      rcases hbegins with hbegins | hbegins
      · exact eq_of_escapeChar_begins hc hd hbegins
      · exact (eq_of_escapeChar_begins hd hc hbegins).symm
    · exact absurd (hhead ▸ hbackslash) hd
    · exact absurd (hhead ▸ hbackslash) hc
    · exact hhead
  subst hsame
  exact ⟨rfl, List.append_cancel_left h⟩

theorem escaped_append_inj {cs ds rest rest' : List Char}
    (h : cs.flatMap escapeChar ++ '"' :: rest = ds.flatMap escapeChar ++ '"' :: rest') :
    cs = ds ∧ rest = rest' := by
  -- no written form of a character begins with the closing quote
  have hquote : ∀ (c : Char) (front behind behind' : List Char),
      '"' :: behind ≠ escapeChar c ++ front ++ behind' := by
    intro c front behind behind' h
    have hhead := congrArg List.head? h
    rw [List.append_assoc, head?_escapeChar_append, List.head?_cons, Option.some_inj] at hhead
    split_ifs at hhead with hc
    · revert hhead
      decide
    · exact hc (hhead ▸ by decide)
  induction cs generalizing ds with
  | nil =>
    cases ds with
    | nil => exact ⟨rfl, (List.cons.inj h).2⟩
    | cons d ds => exact absurd h (hquote d _ _ _)
  | cons c cs ih =>
    cases ds with
    | nil => exact absurd h.symm (hquote c _ _ _)
    | cons d ds =>
      rw [List.flatMap_cons, List.flatMap_cons, List.append_assoc, List.append_assoc] at h
      obtain ⟨rfl, htail⟩ := escapeChar_append_inj h
      obtain ⟨rfl, hrest⟩ := ih htail
      exact ⟨rfl, hrest⟩

/-- A string is told apart from what follows, whatever it holds. -/
theorem quote_append_inj {s t : String} {rest rest' : List Char}
    (h : quote s ++ rest = quote t ++ rest') : s = t ∧ rest = rest' := by
  have hinner : s.toList.flatMap escapeChar ++ '"' :: rest =
      t.toList.flatMap escapeChar ++ '"' :: rest' := by
    simpa [quote] using h
  obtain ⟨hst, hrest⟩ := escaped_append_inj hinner
  exact ⟨String.toList_injective hst, hrest⟩

/-- No character below the blank is written in a string. -/
theorem le_of_mem_quote {s : String} {c : Char} (h : c ∈ quote s) : 0x20 ≤ c.toNat := by
  rw [quote, List.mem_cons, List.mem_append, List.mem_singleton, List.mem_flatMap] at h
  rcases h with rfl | ⟨d, -, hc⟩ | rfl
  · decide
  · by_cases hd : d ∈ specials
    · exact (escapeChar_of_mem hd).2 c hc
    · rw [escapeChar_of_not_mem hd, List.mem_singleton] at hc
      subst hc
      exact Nat.not_lt.1 fun hlt => hd (mem_specials_of_lt hlt)
  · decide

/-! ### Brackets -/

section Brackets

variable {α : Type}

/-- The entries behind the first, each on a line of its own, and the end. -/
def entries (level : ℕ) (closing : Char) (write : α → List Char) : List α → List Char
  | [] => newLine level ++ [closing]
  | a :: as => ',' :: (newLine (level + 1) ++ write a ++ entries level closing write as)

/-- Entries between brackets. -/
def bracketed (level : ℕ) (opening closing : Char) (write : α → List Char) : List α → List Char
  | [] => [opening, closing]
  | a :: as => opening :: (newLine (level + 1) ++ write a ++ entries level closing write as)

/-- A number would not go on with the text. -/
def EndsNumber (text : List Char) : Prop := ∀ c ∈ text.head?, c.isDigit = false

/-- The written form of `a` is told apart from what follows. -/
def DelimitedBy (write : α → List Char) (a : α) : Prop :=
  ∀ {b : α} {rest rest' : List Char}, EndsNumber rest → EndsNumber rest' →
    write a ++ rest = write b ++ rest' → a = b ∧ rest = rest'

variable {write : α → List Char} {level : ℕ} {opening closing : Char}

theorem endsNumber_entries (as : List α) (rest : List Char) :
    EndsNumber (entries level closing write as ++ rest) := by
  intro c hc
  cases as with
  | nil =>
    obtain rfl : '\n' = c := by simpa [entries, newLine] using hc
    rfl
  | cons a as =>
    obtain rfl : ',' = c := by simpa [entries] using hc
    rfl

theorem entries_append_inj {as bs : List α} (has : ∀ a ∈ as, DelimitedBy write a)
    {rest rest' : List Char}
    (h : entries level closing write as ++ rest = entries level closing write bs ++ rest') :
    as = bs ∧ rest = rest' := by
  induction as generalizing bs with
  | nil =>
    cases bs with
    | nil => exact ⟨rfl, List.append_cancel_left h⟩
    | cons b bs => simp [entries, newLine] at h
  | cons a as ih =>
    obtain ⟨ha, has⟩ := List.forall_mem_cons.1 has
    cases bs with
    | nil => simp [entries, newLine] at h
    | cons b bs =>
      have hfirst : write a ++ (entries level closing write as ++ rest) =
          write b ++ (entries level closing write bs ++ rest') := by
        simpa [entries] using h
      obtain ⟨rfl, hothers⟩ := ha (endsNumber_entries as rest) (endsNumber_entries bs rest') hfirst
      obtain ⟨rfl, hrest⟩ := ih has hothers
      exact ⟨rfl, hrest⟩

/-- What stands between brackets is told apart from what follows if each entry is. -/
theorem bracketed_append_inj (hclosing : closing ≠ '\n') {as bs : List α}
    (has : ∀ a ∈ as, DelimitedBy write a) {rest rest' : List Char}
    (h : bracketed level opening closing write as ++ rest =
      bracketed level opening closing write bs ++ rest') : as = bs ∧ rest = rest' := by
  cases as with
  | nil =>
    cases bs with
    | nil => exact ⟨rfl, List.append_cancel_left h⟩
    | cons b bs => simp [bracketed, newLine, hclosing] at h
  | cons a as =>
    cases bs with
    | nil => simp [bracketed, newLine, hclosing.symm] at h
    | cons b bs =>
      -- apart from the bracket in front, these are entries behind a first one
      have hentries : entries level closing write (a :: as) ++ rest =
          entries level closing write (b :: bs) ++ rest' := by
        simpa [bracketed, entries] using h
      exact entries_append_inj has hentries

theorem entries_eq (as : List α) :
    entries level closing write as =
      as.flatMap (fun a => ',' :: (newLine (level + 1) ++ write a)) ++
        (newLine level ++ [closing]) := by
  induction as with
  | nil => rfl
  | cons a as ih => simp [entries, ih]

/-- Entries that are known as texts are joined by commas and line ends. -/
theorem bracketed_eq {as : List α} {texts : List String} (hne : texts ≠ [])
    (h : as.map write = texts.map String.toList) (indent : String)
    (hindent : newLine (level + 1) = ("\n" ++ indent).toList) :
    bracketed level opening closing write as =
      opening :: '\n' ::
        ((",\n".intercalate (texts.map (indent ++ ·))).toList ++ (newLine level ++ [closing])) := by
  obtain ⟨text, texts, rfl⟩ := List.exists_cons_of_ne_nil hne
  obtain ⟨a, as, rfl, ha, has⟩ := List.map_eq_cons_iff.1 h
  have hothers : as.flatMap (fun a => ',' :: (newLine (level + 1) ++ write a)) =
      texts.flatMap (fun text => (",\n" ++ (indent ++ text)).toList) := by
    have hflat := congrArg (List.flatMap fun cs => ',' :: (newLine (level + 1) ++ cs)) has
    simpa [List.flatMap_map, hindent] using hflat
  rw [bracketed, entries_eq, hothers, ha, hindent, List.map_cons, Text.intercalate_cons]
  simp [String.toList_join, List.flatMap_map]

/-- The number of lines of a text. -/
def lineCount (text : List Char) : ℕ := text.count '\n' + 1

theorem count_newLine (level : ℕ) : (newLine level).count '\n' = 1 := by
  simp [newLine, List.count_replicate]

theorem lineCount_entries (hclosing : closing ≠ '\n') (as : List α) :
    lineCount (entries level closing write as) = 2 + (as.map fun a => lineCount (write a)).sum := by
  induction as with
  | nil => simp [lineCount, entries, count_newLine, hclosing]
  | cons a as ih =>
    have hcount : (entries level closing write (a :: as)).count '\n' =
        1 + (write a).count '\n' + (entries level closing write as).count '\n' := by
      simp [entries, count_newLine, Nat.add_assoc]
    rw [lineCount] at ih
    rw [lineCount, hcount, List.map_cons, List.sum_cons, lineCount]
    omega

/-- The lines of brackets and of entries between them that take the given numbers of lines. Each
bracket has a line of its own, unless there is nothing between them. -/
def blockHeight (heights : List ℕ) : ℕ := if heights = [] then 1 else 2 + heights.sum

theorem blockHeight_cons (n : ℕ) (heights : List ℕ) :
    blockHeight (n :: heights) = 2 + (n + heights.sum) := by
  simp [blockHeight]

theorem lineCount_bracketed (hopening : opening ≠ '\n') (hclosing : closing ≠ '\n') (as : List α) :
    lineCount (bracketed level opening closing write as) =
      blockHeight (as.map fun a => lineCount (write a)) := by
  cases as with
  | nil => simp [lineCount, bracketed, blockHeight, hopening, hclosing]
  | cons a as =>
    have hcount : (bracketed level opening closing write (a :: as)).count '\n' =
        (entries level closing write (a :: as)).count '\n' := by
      simp [bracketed, entries, hopening]
    rw [lineCount, hcount, ← lineCount, lineCount_entries hclosing, blockHeight, if_neg (by simp)]

/-- The text holds no characters below the blank, apart from line ends. -/
def Printable (text : List Char) : Prop := ∀ c ∈ text, c = '\n' ∨ 0x20 ≤ c.toNat

theorem Printable.append {s t : List Char} (hs : Printable s) (ht : Printable t) :
    Printable (s ++ t) :=
  List.forall_mem_append.2 ⟨hs, ht⟩

theorem Printable.cons {c : Char} {text : List Char} (hc : 0x20 ≤ c.toNat) (h : Printable text) :
    Printable (c :: text) :=
  List.forall_mem_cons.2 ⟨.inr hc, h⟩

theorem printable_newLine (level : ℕ) : Printable (newLine level) := by
  intro c hc
  rcases List.mem_cons.1 hc with rfl | hc
  · exact .inl rfl
  · obtain rfl := List.eq_of_mem_replicate hc
    exact .inr (by decide)

theorem printable_entries (hclosing : 0x20 ≤ closing.toNat) {as : List α}
    (h : ∀ a ∈ as, Printable (write a)) : Printable (entries level closing write as) := by
  induction as with
  | nil => exact (printable_newLine level).append (.cons hclosing (by simp [Printable]))
  | cons a as ih =>
    obtain ⟨ha, has⟩ := List.forall_mem_cons.1 h
    exact .cons (by decide) (((printable_newLine _).append ha).append (ih has))

theorem printable_bracketed (hopening : 0x20 ≤ opening.toNat) (hclosing : 0x20 ≤ closing.toNat)
    {as : List α} (h : ∀ a ∈ as, Printable (write a)) :
    Printable (bracketed level opening closing write as) := by
  cases as with
  | nil => exact .cons hopening (.cons hclosing (by simp [Printable]))
  | cons a as =>
    obtain ⟨ha, has⟩ := List.forall_mem_cons.1 h
    exact .cons hopening (((printable_newLine _).append ha).append (printable_entries hclosing has))

end Brackets

/-! ### Values -/

/-- The layout of a field. -/
def layoutField (level : ℕ) (field : String × Json) : List Char :=
  quote field.1 ++ [':', ' '] ++ layout level field.2

theorem layoutItems_eq (level : ℕ) (items : List Json) :
    layoutItems level items = entries level ']' (layout (level + 1)) items := by
  induction items with
  | nil => rfl
  | cons item items ih => rw [layoutItems, entries, ih]

theorem layoutFields_eq (level : ℕ) (fields : List (String × Json)) :
    layoutFields level fields = entries level '}' (layoutField (level + 1)) fields := by
  induction fields with
  | nil => rfl
  | cons field fields ih => simp [layoutFields, entries, layoutField, ih]

theorem layout_list (level : ℕ) (items : List Json) :
    layout level (.list items) = bracketed level '[' ']' (layout (level + 1)) items := by
  cases items with
  | nil => rw [layout, bracketed]
  | cons item items => rw [layout, bracketed, layoutItems_eq]

theorem layout_object (level : ℕ) (fields : List (String × Json)) :
    layout level (.object fields) = bracketed level '{' '}' (layoutField (level + 1)) fields := by
  cases fields with
  | nil => rw [layout, bracketed]
  | cons field fields => simp [layout, bracketed, layoutFields_eq, layoutField]

/-- What holds of strings and numbers, of lists whose items it holds of and of objects whose values
it holds of, holds of all values. -/
theorem ind {motive : Json → Prop} (text : ∀ s, motive (.text s)) (number : ∀ n, motive (.number n))
    (list : ∀ items, (∀ v ∈ items, motive v) → motive (.list items))
    (object : ∀ fields, (∀ field ∈ fields, motive field.2) → motive (.object fields)) (v : Json) :
    motive v := by
  refine @Json.rec motive (fun items => ∀ v ∈ items, motive v)
    (fun fields => ∀ field ∈ fields, motive field.2) (fun field => motive field.2) text number list
    object ?_ ?_ ?_ ?_ ?_ v
  · simp
  · intro item items hitem hitems
    exact List.forall_mem_cons.2 ⟨hitem, hitems⟩
  · simp
  · intro field fields hfield hfields
    exact List.forall_mem_cons.2 ⟨hfield, hfields⟩
  · exact fun _ _ hvalue => hvalue

theorem toList_toString (n : ℕ) : (toString n).toList = Nat.toDigits 10 n := by
  rw [Nat.toString_eq_ofList_toDigits, String.toList_ofList]

theorem isDigit_of_mem {n : ℕ} {c : Char} (h : c ∈ (toString n).toList) : c.isDigit = true := by
  rw [toList_toString] at h
  exact Nat.isDigit_of_mem_toDigits (by decide) (by decide) h

/-- The kinds of values. -/
inductive Form where
  | text
  | number
  | list
  | object

/-- The kind of a value. -/
def form : Json → Form
  | .text _ => .text
  | .number _ => .number
  | .list _ => .list
  | .object _ => .object

/-- The kind of a value that begins with the given character. -/
def Form.ofFirst (c : Char) : Form :=
  if c = '"' then .text else if c = '[' then .list else if c = '{' then .object else .number

theorem ofFirst_of_isDigit {c : Char} (h : c.isDigit = true) : Form.ofFirst c = .number := by
  have hne : ∀ d : Char, d.isDigit = false → c ≠ d := by
    rintro d hd rfl
    rw [h] at hd
    cases hd
  rw [Form.ofFirst, if_neg (hne _ rfl), if_neg (hne _ rfl), if_neg (hne _ rfl)]

/-- The first character of a value tells of which kind it is. -/
theorem layout_eq_cons (level : ℕ) (v : Json) :
    ∃ c cs, layout level v = c :: cs ∧ Form.ofFirst c = v.form := by
  cases v with
  | text s => exact ⟨'"', _, by rw [layout, quote], rfl⟩
  | number n =>
    obtain ⟨c, cs, hcs⟩ := List.exists_cons_of_ne_nil (Nat.toDigits_ne_nil (n := n) (b := 10))
    rw [← toList_toString] at hcs
    refine ⟨c, cs, by rw [layout, hcs], ofFirst_of_isDigit (isDigit_of_mem (n := n) ?_)⟩
    rw [hcs]
    exact List.mem_cons_self
  | list items =>
    cases items with
    | nil => exact ⟨'[', _, by rw [layout], rfl⟩
    | cons item items => exact ⟨'[', _, by rw [layout], rfl⟩
  | object fields =>
    cases fields with
    | nil => exact ⟨'{', _, by rw [layout], rfl⟩
    | cons field fields => exact ⟨'{', _, by rw [layout], rfl⟩

theorem form_eq_of_layout_append_eq {v w : Json} {level : ℕ} {rest rest' : List Char}
    (h : layout level v ++ rest = layout level w ++ rest') : v.form = w.form := by
  obtain ⟨c, cs, hv, hc⟩ := layout_eq_cons level v
  obtain ⟨d, ds, hw, hd⟩ := layout_eq_cons level w
  rw [hv, hw, List.cons_append, List.cons_append] at h
  rw [← hc, ← hd, (List.cons.inj h).1]

theorem number_append_inj {n m : ℕ} {rest rest' : List Char} (hrest : EndsNumber rest)
    (hrest' : EndsNumber rest')
    (h : (toString n).toList ++ rest = (toString m).toList ++ rest') : n = m ∧ rest = rest' := by
  obtain ⟨hdigits, hrest⟩ := Text.append_inj_of_class (fun _ => isDigit_of_mem)
    (fun _ => isDigit_of_mem) hrest hrest' h
  have hvalue := congrArg (Nat.ofDigitChars 10 · 0) hdigits
  simp only [toList_toString, Nat.ofDigitChars_ten_toDigits] at hvalue
  exact ⟨hvalue, hrest⟩

theorem delimitedBy_layoutField {level : ℕ} {field : String × Json}
    (h : DelimitedBy (layout level) field.2) : DelimitedBy (layoutField level) field := by
  rintro ⟨name, value⟩ rest rest' hrest hrest' heq
  simp only [layoutField, List.append_assoc] at heq
  obtain ⟨hname, hvalue⟩ := quote_append_inj heq
  obtain ⟨hvalue, hrest⟩ := h hrest hrest' (List.append_cancel_left hvalue)
  exact ⟨Prod.ext hname hvalue, hrest⟩

/-- Every value is told apart from what follows, at every level. -/
theorem delimitedBy_layout (v : Json) (level : ℕ) : DelimitedBy (layout level) v := by
  induction v using ind generalizing level with
  | text s =>
    intro w rest rest' _ _ h
    have hform := form_eq_of_layout_append_eq h
    cases w with
    | text t => exact (quote_append_inj h).imp_left (congrArg Json.text)
    | _ => cases hform
  | number n =>
    intro w rest rest' hrest hrest' h
    have hform := form_eq_of_layout_append_eq h
    cases w with
    | number m => exact (number_append_inj hrest hrest' h).imp_left (congrArg Json.number)
    | _ => cases hform
  | list items ih =>
    intro w rest rest' _ _ h
    have hform := form_eq_of_layout_append_eq h
    cases w with
    | list items' =>
      rw [layout_list, layout_list] at h
      have hitems := bracketed_append_inj (by decide) (fun v hv => ih v hv (level + 1)) h
      exact hitems.imp_left (congrArg Json.list)
    | _ => cases hform
  | object fields ih =>
    intro w rest rest' _ _ h
    have hform := form_eq_of_layout_append_eq h
    cases w with
    | object fields' =>
      rw [layout_object, layout_object] at h
      have hfields := bracketed_append_inj (by decide)
        (fun field hfield => delimitedBy_layoutField (ih field hfield (level + 1))) h
      exact hfields.imp_left (congrArg Json.object)
    | _ => cases hform

/-- Different values have different documents. -/
theorem pretty_injective : Function.Injective pretty := by
  intro v w h
  have hlayout : layout 0 v ++ [] = layout 0 w ++ [] := by
    simpa [pretty] using congrArg String.toList h
  have hend : EndsNumber [] := by simp [EndsNumber]
  exact (delimitedBy_layout v 0 hend hend hlayout).1

/-- No document holds characters below the blank, apart from line ends. -/
theorem printable_layout (v : Json) (level : ℕ) : Printable (layout level v) := by
  induction v using ind generalizing level with
  | text s => exact fun c hc => .inr (le_of_mem_quote hc)
  | number n =>
    intro c hc
    have hzero : '0'.toNat = 48 := rfl
    have hdigit := Char.isDigit_iff_toNat.1 (isDigit_of_mem hc)
    right
    omega
  | list items ih =>
    rw [layout_list]
    exact printable_bracketed (by decide) (by decide) fun v hv => ih v hv (level + 1)
  | object fields ih =>
    rw [layout_object]
    refine printable_bracketed (by decide) (by decide) fun field hfield => ?_
    have hsigns : Printable [':', ' '] := by
      exact .cons (by decide) (.cons (by decide) (by simp [Printable]))
    have hname : Printable (quote field.1) := fun c hc => .inr (le_of_mem_quote hc)
    exact (hname.append hsigns).append (ih field hfield (level + 1))

theorem lineCount_quote (s : String) : lineCount (quote s) = 1 := by
  have hnone : '\n' ∉ quote s := fun h => absurd (le_of_mem_quote h) (by decide)
  rw [lineCount, List.count_eq_zero_of_not_mem hnone]

theorem lineCount_text (level : ℕ) (s : String) : lineCount (layout level (.text s)) = 1 := by
  rw [layout, lineCount_quote]

theorem lineCount_list (level : ℕ) (items : List Json) :
    lineCount (layout level (.list items)) =
      blockHeight (items.map fun v => lineCount (layout (level + 1) v)) := by
  rw [layout_list, lineCount_bracketed (by decide) (by decide)]

theorem lineCount_layoutField (level : ℕ) (field : String × Json) :
    lineCount (layoutField level field) = lineCount (layout level field.2) := by
  have hname : (quote field.1).count '\n' = 0 := Nat.succ.inj (lineCount_quote field.1)
  simp [lineCount, layoutField, hname]

theorem lineCount_object (level : ℕ) (fields : List (String × Json)) :
    lineCount (layout level (.object fields)) =
      blockHeight (fields.map fun field => lineCount (layout (level + 1) field.2)) := by
  rw [layout_object, lineCount_bracketed (by decide) (by decide)]
  simp only [lineCount_layoutField]

end Json

/-! ### Reports -/

open Json (blockHeight blockHeight_cons lineCount lineCount_text lineCount_list lineCount_object)

namespace PropertyRow

/-- The lines that a property takes in a document: its brackets, its name, its type, and its flags,
one on a line. -/
def height (p : PropertyRow) : ℕ := 4 + blockHeight (p.flags.map fun _ => 1)

theorem json_injective : Function.Injective json := by
  rintro ⟨name, typeName, flags⟩ ⟨name', typeName', flags'⟩ h
  have htext : Function.Injective Json.text := fun _ _ => Json.text.inj
  simpa [json, htext.list_map.eq_iff] using h

theorem lineCount_json (p : PropertyRow) (level : ℕ) :
    lineCount (p.json.layout level) = p.height := by
  have hflags : lineCount ((Json.list (p.flags.map .text)).layout (level + 1)) =
      blockHeight (p.flags.map fun _ => 1) := by
    rw [lineCount_list, List.map_map]
    simp only [Function.comp_def, lineCount_text]
  simp only [json, height, lineCount_object, List.map_cons, List.map_nil, lineCount_text, hflags,
    blockHeight_cons, List.sum_cons, List.sum_nil]
  omega

end PropertyRow

namespace ObjectReport

/-- The lines that an object takes in a document: its brackets, its name, its properties, and the
type of additional properties if there is one. -/
def height (v : ObjectReport) : ℕ :=
  3 + blockHeight (v.properties.map (·.height)) + v.additional.toList.length

theorem json_injective : Function.Injective json := by
  rintro ⟨name, properties, additional⟩ ⟨name', properties', additional'⟩ h
  have hrows : Function.Injective (List.map PropertyRow.json) :=
    PropertyRow.json_injective.list_map
  cases additional with
  | none =>
    cases additional' with
    | none => simpa [json, hrows.eq_iff] using h
    | some typeName' => simp [json] at h
  | some typeName =>
    cases additional' with
    | none => simp [json] at h
    | some typeName' => simpa [json, hrows.eq_iff] using h

theorem lineCount_json (v : ObjectReport) (level : ℕ) :
    lineCount (v.json.layout level) = v.height := by
  have hrows : lineCount ((Json.list (v.properties.map (·.json))).layout (level + 1)) =
      blockHeight (v.properties.map (·.height)) := by
    rw [lineCount_list, List.map_map]
    simp only [Function.comp_def, PropertyRow.lineCount_json]
  cases hadditional : v.additional with
  | none =>
    simp only [json, height, hadditional, Option.map_none, Option.toList_none, List.append_nil,
      lineCount_object, List.map_cons, List.map_nil, lineCount_text, hrows, blockHeight_cons,
      List.sum_cons, List.sum_nil, List.length_nil]
    omega
  | some typeName =>
    simp only [json, height, hadditional, Option.map_some, Option.toList_some, List.cons_append,
      List.nil_append, lineCount_object, List.map_cons, List.map_nil, lineCount_text, hrows,
      blockHeight_cons, List.sum_cons, List.sum_nil, List.length_singleton]
    omega

theorem toList_render_json (v : ObjectReport) : (v.render .json).toList = v.json.layout 0 :=
  String.toList_ofList

/-- A document tells everything about the object that it shows: different objects have different
documents, whatever texts their names, types and flags hold. Nothing in a document is below the
blank but the line ends, and these are where the layout has them: there are as many as the numbers
of properties and of flags call for, so that no text breaks a line. -/
theorem document_loses_nothing :
    (∀ v w : ObjectReport, v.render .json = w.render .json ↔ v = w) ∧
    ∀ v : ObjectReport, (∀ c ∈ (v.render .json).toList, c = '\n' ∨ 0x20 ≤ c.toNat) ∧
      (v.render .json).toList.count '\n' + 1 = v.height := by
  refine ⟨fun v w => (Json.pretty_injective.comp json_injective).eq_iff, fun v => ⟨?_, ?_⟩⟩
  · rw [toList_render_json]
    exact v.json.printable_layout 0
  · rw [toList_render_json]
    exact v.lineCount_json 0

/-- A flag that is made to look like two flags on two lines is told apart from these. It takes one
line. -/
theorem document_loses_nothing_of_lookalikes :
    let v : ObjectReport := ⟨"a", [⟨"b", "c", ["D\",\n        \"E"]⟩], none⟩
    let w : ObjectReport := ⟨"a", [⟨"b", "c", ["D", "E"]⟩], none⟩
    v.render .json ≠ w.render .json ∧ (v.render .json).toList.count '\n' + 1 = 12 ∧
      (w.render .json).toList.count '\n' + 1 = 13 ∧ '\\' ∈ (v.render .json).toList ∧
      ∀ c ∈ (v.render .json).toList, c = '\n' ∨ 0x20 ≤ c.toNat := by
  intro v w
  obtain ⟨hinj, hlayout⟩ := document_loses_nothing
  have hescaped : '\\' ∈ (v.render .json).toList := by
    rw [toList_render_json]
    decide
  refine ⟨fun h => ?_, (hlayout v).2, (hlayout w).2, hescaped, (hlayout v).1⟩
  exact absurd ((hinj v w).1 h) (by decide)

end ObjectReport

end TypeGraph
