import Mathlib.Data.List.Basic
import TypeGraph.Text.Quoted

/-!
# Reading quoted text back

`unquote` reads a value from the front of a text: an opening quote, then signs up to the first quote
that is not part of an escape. A sign is a plain character or a backslash with one character behind
it. `Written` says sign by sign how a value is written, and what is proved about quoted text follows
it.

* `unquote_quoted_append`: a quoted value is read back from the front of every text, and the rest of
  the text is left as it is. So quoting is injective and no quoted value begins another.
* `Written.exists_backslash`: the opening `${` of an interpolation occurs only behind a backslash
  that begins a sign.
-/

namespace TypeGraph.Text

/-! ### Reading -/

/-- The character that a backslash and the given character stand for. -/
def meaning? : Char → Option Char
  | '\\' => some '\\'
  | '\x27' => some '\x27'
  | 'n' => some '\n'
  | 'r' => some '\r'
  | 't' => some '\t'
  | '$' => some '$'
  | _ => none

/-- Read signs up to the first quote that is not escaped. Gives the value that they stand for and
what is behind the quote. -/
def readSigns : List Char → Option (List Char × List Char)
  | [] => none
  | '\x27' :: rest => some ([], rest)
  | ['\\'] => none
  | '\\' :: d :: rest =>
    match meaning? d with
    | some c => (readSigns rest).map (Prod.map (c :: ·) id)
    | none => none
  | c :: rest => (readSigns rest).map (Prod.map (c :: ·) id)

/-- Read a quoted value from the front of a text. Gives the value and the rest of the text. -/
def unquote (text : String) : Option (String × String) :=
  match text.toList with
  | '\x27' :: rest => (readSigns rest).map (Prod.map String.ofList String.ofList)
  | _ => none

theorem readSigns_quote (rest : List Char) : readSigns ('\x27' :: rest) = some ([], rest) := by
  simp [readSigns]

theorem readSigns_escaped {c d : Char} (h : meaning? d = some c) (rest : List Char) :
    readSigns ('\\' :: d :: rest) = (readSigns rest).map (Prod.map (c :: ·) id) := by
  simp [readSigns, h]

theorem readSigns_plain {c : Char} (hquote : c ≠ '\x27') (hbackslash : c ≠ '\\')
    (rest : List Char) : readSigns (c :: rest) = (readSigns rest).map (Prod.map (c :: ·) id) := by
  conv_lhs => unfold readSigns
  split <;> simp_all

/-- No line break and no tab is written behind a backslash. -/
theorem ne_of_meaning? {c d x : Char} (h : meaning? d = some c) (hx : x ∈ ['\n', '\r', '\t']) :
    x ≠ d := by
  rintro rfl
  simp only [List.mem_cons, List.not_mem_nil, or_false] at hx
  rcases hx with rfl | rfl | rfl <;> cases h

/-! ### Writing -/

/-- The value is written as the text, sign by sign. -/
inductive Written : List Char → List Char → Prop
  | nil : Written [] []
  /-- A character that has a sign of its own. -/
  | escaped {c d : Char} {cs text : List Char} (means : meaning? d = some c) (ne : d ≠ '$')
      (rest : Written cs text) : Written (c :: cs) ('\\' :: d :: text)
  /-- The opening of an interpolation. -/
  | hole {cs text : List Char} (rest : Written cs text) :
      Written ('$' :: '{' :: cs) ('\\' :: '$' :: '{' :: text)
  /-- Any other character, and a dollar sign with no brace behind it. -/
  | plain {c : Char} {cs text : List Char} (special : c ∉ ['\\', '\x27', '\n', '\r', '\t'])
      (noHole : c = '$' → cs.head? ≠ some '{') (rest : Written cs text) :
      Written (c :: cs) (c :: text)

theorem written_escape (cs : List Char) : Written cs (escape cs) := by
  fun_induction escape cs with
  | case1 => exact .nil
  | case2 cs ih => exact .escaped rfl (by decide) ih
  | case3 cs ih => exact .escaped rfl (by decide) ih
  | case4 cs ih => exact .escaped rfl (by decide) ih
  | case5 cs ih => exact .escaped rfl (by decide) ih
  | case6 cs ih => exact .escaped rfl (by decide) ih
  | case7 cs ih => exact .hole ih
  | case8 c cs h₁ h₂ h₃ h₄ h₅ noHole ih =>
    refine .plain ?_ (fun hc hhead => ?_) ih
    · simp only [List.mem_cons, List.not_mem_nil, or_false, not_or]
      exact ⟨h₁, h₂, h₃, h₄, h₅⟩
    · obtain ⟨tail, rfl⟩ := List.head?_eq_some_iff.1 hhead
      exact noHole tail hc rfl

namespace Written

variable {cs text : List Char}

/-- What is written is read back, and reading goes on behind it. -/
theorem readSigns_append (h : Written cs text) (behind : List Char) :
    readSigns (text ++ behind) = (readSigns behind).map (Prod.map (cs ++ ·) id) := by
  induction h with
  | nil => exact Option.map_id_apply.symm
  | escaped means _ _ ih =>
    rw [List.cons_append, List.cons_append, readSigns_escaped means, ih, Option.map_map]
    rfl
  | hole _ ih =>
    have hdollar : meaning? '$' = some '$' := rfl
    rw [List.cons_append, List.cons_append, readSigns_escaped hdollar, List.cons_append,
      readSigns_plain (by decide) (by decide), ih, Option.map_map, Option.map_map]
    rfl
  | plain special _ _ ih =>
    simp only [List.mem_cons, List.not_mem_nil, or_false, not_or] at special
    rw [List.cons_append, readSigns_plain special.2.1 special.1, ih, Option.map_map]
    rfl

/-- No line break and no tab is written as it is. -/
theorem not_mem (h : Written cs text) {x : Char} (hx : x ∈ ['\n', '\r', '\t']) : x ∉ text := by
  have hbackslash : x ≠ '\\' := by
    rintro rfl
    revert hx
    decide
  induction h with
  | nil => simp
  | escaped means _ _ ih =>
    simp only [List.mem_cons, not_or]
    exact ⟨hbackslash, ne_of_meaning? means hx, ih⟩
  | hole _ ih =>
    have hhole : x ≠ '$' ∧ x ≠ '{' := by
      constructor <;> (rintro rfl; revert hx; decide)
    simp only [List.mem_cons, not_or]
    exact ⟨hbackslash, hhole.1, hhole.2, ih⟩
  | plain special _ _ ih =>
    simp only [List.mem_cons, not_or]
    refine ⟨?_, ih⟩
    rintro rfl
    exact special (List.mem_cons_of_mem _ (List.mem_cons_of_mem _ hx))

/-- A text that begins with a brace is the text of a value that does. -/
theorem head?_eq_brace (h : Written cs text) {after : List Char} (htext : text = '{' :: after) :
    cs.head? = some '{' := by
  cases h with
  | nil => cases htext
  | escaped _ _ _ => simp at htext
  | hole _ => simp at htext
  | plain _ _ _ =>
    obtain ⟨rfl, -⟩ := List.cons.inj htext
    rfl

/-- The opening of an interpolation occurs only behind a backslash, and what is before the backslash
is written in whole signs. -/
theorem exists_backslash (h : Written cs text) {before after : List Char}
    (htext : text = before ++ '$' :: '{' :: after) :
    ∃ value rest start, Written value start ∧ before = start ++ ['\\'] ∧
      cs = value ++ '$' :: '{' :: rest := by
  induction h generalizing before with
  | nil => simp at htext
  | @escaped c d cs text means ne _ ih =>
    -- two characters belong to the first sign, and neither begins an interpolation
    rcases before with _ | ⟨b, _ | ⟨b', before⟩⟩
    · simp at htext
    · simp [ne] at htext
    · obtain ⟨rfl, rfl, htail⟩ : b = '\\' ∧ b' = d ∧ text = before ++ '$' :: '{' :: after := by
        simpa [eq_comm] using htext
      obtain ⟨value, rest, start, hstart, rfl, rfl⟩ := ih htail
      exact ⟨c :: value, rest, '\\' :: b' :: start, .escaped means ne hstart, rfl, rfl⟩
  | @hole cs text _ ih =>
    rcases before with _ | ⟨b, _ | ⟨b', _ | ⟨b'', before⟩⟩⟩
    · simp at htext
    · obtain rfl : b = '\\' := by simpa [eq_comm] using (List.cons.inj htext).1
      exact ⟨[], cs, [], .nil, rfl, rfl⟩
    · simp at htext
    · obtain ⟨rfl, rfl, rfl, htail⟩ : b = '\\' ∧ b' = '$' ∧ b'' = '{' ∧
          text = before ++ '$' :: '{' :: after := by
        simpa [eq_comm] using htext
      obtain ⟨value, rest, start, hstart, rfl, rfl⟩ := ih htail
      exact ⟨'$' :: '{' :: value, rest, '\\' :: '$' :: '{' :: start, .hole hstart, rfl, rfl⟩
  | @plain c cs text special noHole hrest ih =>
    rcases before with _ | ⟨b, before⟩
    · obtain ⟨rfl, htail⟩ := List.cons.inj htext
      exact absurd (hrest.head?_eq_brace htail) (noHole rfl)
    · obtain ⟨rfl, htail⟩ : b = c ∧ text = before ++ '$' :: '{' :: after := by
        simpa [eq_comm] using htext
      obtain ⟨value, rest, start, hstart, rfl, rfl⟩ := ih htail
      refine ⟨b :: value, rest, b :: start, .plain special (fun hb hhead => ?_) hstart, rfl, rfl⟩
      obtain ⟨tail, rfl⟩ := List.head?_eq_some_iff.1 hhead
      exact noHole hb rfl

/-- What is written between two quotes is read as a whole. -/
theorem unquote_eq (h : Written cs text) (rest : String) :
    unquote ("'" ++ String.ofList text ++ "'" ++ rest) = some (String.ofList cs, rest) := by
  have hread : readSigns (text ++ '\x27' :: rest.toList) = some (cs, rest.toList) := by
    rw [h.readSigns_append, readSigns_quote]
    simp
  simp [unquote, hread]

end Written

/-! ### Quoted values -/

theorem quoted_eq (value : String) :
    quoted value = "'" ++ String.ofList (escape value.toList) ++ "'" := rfl

theorem escape_of_plain {cs : List Char}
    (h : ∀ c ∈ cs, c ∉ ['\\', '\x27', '\n', '\r', '\t', '$']) : escape cs = cs := by
  fun_induction escape cs with
  | case1 => rfl
  | case8 c cs _ _ _ _ _ _ ih => rw [ih fun d hd => h d (List.mem_cons_of_mem c hd)]
  | _ => exact absurd (h _ List.mem_cons_self) (by decide)

/-- A value of plain characters is written as it is. -/
theorem quoted_of_plain {value : String}
    (h : ∀ c ∈ value.toList, c ∉ ['\\', '\x27', '\n', '\r', '\t', '$']) :
    quoted value = "'" ++ value ++ "'" := by
  rw [quoted_eq, escape_of_plain h, String.ofList_toList]

/-- A quoted value is read back from the front of a text, and the rest of the text is left. -/
theorem unquote_quoted_append (value rest : String) :
    unquote (quoted value ++ rest) = some (value, rest) := by
  rw [quoted_eq, (written_escape value.toList).unquote_eq, String.ofList_toList]

/-- Quoted values are told apart even if other text follows them. -/
theorem eq_of_quoted_append_eq {value value' rest rest' : String}
    (h : quoted value ++ rest = quoted value' ++ rest') : value = value' ∧ rest = rest' := by
  have hread := congrArg unquote h
  simpa only [unquote_quoted_append, Option.some.injEq, Prod.mk.injEq] using hread

theorem quoted_injective : Function.Injective quoted := by
  intro value value' h
  exact (eq_of_quoted_append_eq (congrArg (· ++ "") h)).1

@[simp] theorem quoted_inj {value value' : String} :
    quoted value = quoted value' ↔ value = value' :=
  quoted_injective.eq_iff

/-- Quoting delimits itself and can be undone. A quoted value is read back from the front of every
text, and nothing else is consumed. Between its two quotes there is no line break and no tab, and
the opening of an interpolation comes right behind a backslash that is not the second half of an
escape: what is before the backslash would be complete with a quote in its place. So different
values have different quoted forms, and none of these is the beginning of another. -/
theorem quoted_self_delimiting :
    (∀ value rest : String, unquote (quoted value ++ rest) = some (value, rest)) ∧
    (∀ value : String, ∃ inner : String, quoted value = "'" ++ inner ++ "'" ∧
      (∀ c ∈ inner.toList, c ≠ '\n' ∧ c ≠ '\r' ∧ c ≠ '\t') ∧
      ∀ before after : String, inner = before ++ "$\x7b" ++ after →
        ∃ start, before = start ++ "\\" ∧
          ∃ read, unquote ("'" ++ start ++ "'") = some (read, "")) ∧
    Function.Injective quoted ∧
    ∀ value value' rest : String, quoted value' = quoted value ++ rest →
      value' = value ∧ rest = "" := by
  refine ⟨unquote_quoted_append, fun value => ?_, quoted_injective, ?_⟩
  · have hwritten := written_escape value.toList
    refine ⟨String.ofList (escape value.toList), quoted_eq value, fun c hc => ?_, ?_⟩
    · rw [String.toList_ofList] at hc
      refine ⟨?_, ?_, ?_⟩ <;> (rintro rfl; exact hwritten.not_mem (by decide) hc)
    · intro before after hinner
      have htext : escape value.toList = before.toList ++ '$' :: '{' :: after.toList := by
        simpa using congrArg String.toList hinner
      obtain ⟨read, -, start, hstart, hbefore, -⟩ := hwritten.exists_backslash htext
      refine ⟨String.ofList start, ?_, String.ofList read, ?_⟩
      · apply String.toList_injective
        simpa using hbefore
      · rw [← hstart.unquote_eq, String.append_empty]
  · intro value value' rest h
    have happend : quoted value' ++ "" = quoted value ++ rest := by rw [String.append_empty, h]
    obtain ⟨rfl, rfl⟩ := eq_of_quoted_append_eq happend
    exact ⟨rfl, rfl⟩

/-- A backslash before the opening of an interpolation is escaped, and so is the opening: the third
of the three backslashes belongs to the opening, and the two before it are complete. -/
theorem quoted_self_delimiting_behind_backslash :
    quoted "\\$\x7b" = "'\\\\\\$\x7b'" ∧
      ∃ start, "\\\\\\" = start ++ "\\" ∧
        ∃ read, unquote ("'" ++ start ++ "'") = some (read, "") := by
  have hquoted : quoted "\\$\x7b" = "'" ++ "\\\\\\$\x7b" ++ "'" := by decide
  obtain ⟨-, hinner, -⟩ := quoted_self_delimiting
  obtain ⟨inner, hparts, -, hbehind⟩ := hinner "\\$\x7b"
  have hsame : inner = "\\\\\\$\x7b" := by
    rw [hquoted, String.append_left_inj, String.append_right_inj] at hparts
    exact hparts.symm
  exact ⟨hquoted, hbehind "\\\\\\" "" (by rw [hsame]; rfl)⟩

end TypeGraph.Text
