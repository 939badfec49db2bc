import TypeGraph.Proofs.ReferencePattern

/-!
# Capitals in references

Reading takes no notice of capitals, and keeps them in what it gives. Neither the signs at which a
text can be cut nor the classes of characters tell a capital from its small letter, so reading
commutes with writing everything in small letters (`Reference.parse?_lowered`). Texts that differ in
capitals only are therefore cut at the same places.

* `Text.recase`: a text in which the letters at some places have changed their case.
* `Text.places`: where the parts of a text stand that has one sign between neighbours.
-/

namespace TypeGraph

namespace Text

/-! ### Small letters and capitals -/

/-- An English letter in its other case. Any other character is left as it is. -/
def swapCase (c : Char) : Char := if c.isUpper then c.toLower else c.toUpper

/-- The text in which the letters at the marked places have changed their case. -/
def recase (marked : ℕ → Bool) (s : String) : String :=
  String.ofList (s.toList.mapIdx fun i c => if marked i then swapCase c else c)

/-- The text in small letters. -/
def lowered (s : String) : String := String.ofList (s.toList.map Char.toLower)

theorem toLower_toLower (c : Char) : c.toLower.toLower = c.toLower := by
  rcases toLower_cases c with hsame | ⟨-, hsmall⟩
  · rw [hsame, hsame]
  · exact toLower_of_small hsmall

theorem toLower_swapCase (c : Char) : (swapCase c).toLower = c.toLower := by
  unfold swapCase
  split_ifs with h
  · exact toLower_toLower c
  · rcases toUpper_cases c with hsame | ⟨hsmall, -⟩
    · rw [hsame]
    · rw [(toLower_eq_iff hsmall).2 (.inr rfl), toLower_of_small hsmall]

theorem lowered_recase (marked : ℕ → Bool) (s : String) :
    lowered (recase marked s) = lowered s := by
  have hchar : ∀ i c, (if marked i then swapCase c else c).toLower = c.toLower := by
    intro i c
    split_ifs
    · exact toLower_swapCase c
    · rfl
  simp only [lowered, recase, String.toList_ofList]
  congr 1
  apply List.ext_getElem?
  intro i
  simp only [List.getElem?_map, List.getElem?_mapIdx, Option.map_map, Function.comp_def, hchar]

theorem length_lowered (s : String) : (lowered s).length = s.length := by
  simp [lowered, String.length_toList]

/-- A class that holds all English letters or none of them is not changed by small letters. -/
theorem class_toLower {p : Char → Bool} {b : Bool} (h : ∀ c, IsEnglish c → p c = b) (c : Char) :
    p c.toLower = p c := by
  rcases toLower_cases c with hsame | ⟨hcapital, hsmall⟩
  · rw [hsame]
  · rw [h _ (.inl hsmall), h _ (.inr hcapital)]

/-- A sign that is not a letter is the small letter of itself only. -/
theorem toLower_eq_iff_of_not_english {sign : Char} (hsign : ¬ IsEnglish sign) (c : Char) :
    c.toLower = sign ↔ c = sign := by
  rcases toLower_cases c with hsame | ⟨hcapital, hsmall⟩
  · rw [hsame]
  · constructor
    · rintro rfl
      exact absurd (.inl hsmall) hsign
    · rintro rfl
      exact absurd (.inr hcapital) hsign

/-- Cutting commutes with a change of characters that leaves the separator alone. -/
theorem fields_map {f : Char → Char} {sep : Char} (hf : ∀ c, f c = sep ↔ c = sep)
    (cs : List Char) : fields sep (cs.map f) = (fields sep cs).map (List.map f) := by
  induction cs with
  | nil => rfl
  | cons c cs ih =>
    by_cases hc : c = sep
    · simp [fields, hc, (hf sep).2 rfl, ih]
    · have hfc : f c ≠ sep := fun h => hc ((hf c).1 h)
      simp only [List.map_cons, fields, hc, hfc, ↓reduceIte, ih]
      cases hfields : fields sep cs with
      | nil => exact absurd hfields (fields_ne_nil sep cs)
      | cons piece pieces => rfl

/-! ### Places -/

/-- A place in a text: where it starts and how many characters it takes. -/
structure Place where
  start : ℕ
  length : ℕ

/-- The piece of a text at a place. -/
def Place.piece (place : Place) (s : String) : String :=
  String.ofList ((s.toList.drop place.start).take place.length)

/-- The places of pieces that follow one another from `start` on, with one sign between
neighbours. -/
def places (start : ℕ) : List String → List Place
  | [] => []
  | piece :: pieces => ⟨start, piece.length⟩ :: places (start + piece.length + 1) pieces

/-- Places depend on the lengths of the pieces alone. -/
theorem places_congr {pieces pieces' : List String}
    (h : pieces.map String.length = pieces'.map String.length) (start : ℕ) :
    places start pieces = places start pieces' := by
  induction pieces generalizing pieces' start with
  | nil =>
    obtain rfl := List.map_eq_nil_iff.1 h.symm
    rfl
  | cons piece pieces ih =>
    obtain ⟨piece', pieces', rfl, hpiece, hpieces⟩ := List.map_eq_cons_iff.1 h.symm
    rw [places, places, hpiece, ih hpieces.symm]

theorem Place.piece_of_append {s piece : String} {before after : List Char}
    (h : s.toList = before ++ (piece.toList ++ after)) :
    Place.piece ⟨before.length, piece.length⟩ s = piece := by
  rw [Place.piece, h, List.drop_left, ← String.length_toList, List.take_left, String.ofList_toList]

/-- Pieces with one sign between neighbours are found again at their places. -/
theorem map_piece_places {s first : String} {before : List Char} {rest : List (Char × String)}
    (h : s.toList = before ++ (first.toList ++ rest.flatMap fun p => p.1 :: p.2.toList)) :
    (places before.length (first :: rest.map Prod.snd)).map (·.piece s) =
      first :: rest.map Prod.snd := by
  induction rest generalizing before first with
  | nil => rw [places, List.map_cons, Place.piece_of_append h, List.map_nil, places, List.map_nil]
  | cons next rest ih =>
    rw [places, List.map_cons, Place.piece_of_append h]
    -- the next piece stands behind the first and one sign
    have hnext : s.toList = (before ++ first.toList ++ [next.1]) ++
        (next.2.toList ++ rest.flatMap fun p => p.1 :: p.2.toList) := by
      rw [h]
      simp
    have hlength :
        (before ++ first.toList ++ [next.1]).length = before.length + first.length + 1 := by
      simp [String.length_toList, Nat.add_assoc]
    rw [List.map_cons, ← hlength, ih hnext]

/-- The letters of a piece have changed their case where those of the text have. -/
theorem Place.piece_recase (place : Place) (marked : ℕ → Bool) (s : String) :
    place.piece (recase marked s) =
      recase (fun i => marked (place.start + i)) (place.piece s) := by
  simp only [piece, recase, String.toList_ofList]
  congr 1
  apply List.ext_getElem?
  intro i
  simp only [List.getElem?_take, List.getElem?_drop, List.getElem?_mapIdx]
  split_ifs <;> rfl

end Text

namespace Resource

open Text (fields places recase IsEnglish isDecimalDigit)

namespace Reference

/-! ### Reading in small letters -/

theorem letter_of_isEnglish {c : Char} (h : IsEnglish c) : Grammar.Letter c :=
  h.imp_right .inl

theorem isLabelChar_toLower (c : Char) : isLabelChar c.toLower = isLabelChar c :=
  Text.class_toLower (fun _ h => isLabelChar_iff.2 (.inl (letter_of_isEnglish h))) c

theorem isTypeChar_toLower (c : Char) : isTypeChar c.toLower = isTypeChar c :=
  Text.class_toLower (fun _ h => isTypeChar_iff.2 (.inl (letter_of_isEnglish h))) c

theorem isDecimalDigit_toLower (c : Char) : isDecimalDigit c.toLower = isDecimalDigit c :=
  Text.class_toLower (fun _ h => isDecimalDigit_of_letter (letter_of_isEnglish h)) c

theorem not_isEnglish_of_mem_signs {sign : Char} (h : sign ∈ ['@', '/', '.', '-']) :
    ¬ IsEnglish sign := by
  simp only [List.mem_cons, List.not_mem_nil, or_false] at h
  unfold IsEnglish
  rcases h with rfl | rfl | rfl | rfl <;> decide

theorem fields_map_toLower {sign : Char} (h : sign ∈ ['@', '/', '.', '-']) (cs : List Char) :
    fields sign (cs.map Char.toLower) = (fields sign cs).map (List.map Char.toLower) :=
  Text.fields_map (Text.toLower_eq_iff_of_not_english (not_isEnglish_of_mem_signs h)) cs

theorem isProvider_map_toLower (cs : List Char) :
    isProvider (cs.map Char.toLower) = isProvider cs := by
  have hdot : fields '.' (cs.map Char.toLower) = (fields '.' cs).map (List.map Char.toLower) :=
    fields_map_toLower (by decide) cs
  simp [isProvider, hdot, List.all_map, Function.comp_def, isLabelChar_toLower]

theorem isType_map_toLower (cs : List Char) : isType (cs.map Char.toLower) = isType cs := by
  simp [isType, List.all_map, Function.comp_def, isTypeChar_toLower]

theorem all_isType_map_toLower (types : List (List Char)) :
    (types.map (List.map Char.toLower)).all isType = types.all isType := by
  rw [List.all_map]
  exact congrArg types.all (funext isType_map_toLower)

theorem isNumber_map_toLower (n : ℕ) (cs : List Char) :
    isNumber n (cs.map Char.toLower) = isNumber n cs := by
  simp [isNumber, List.all_map, Function.comp_def, isDecimalDigit_toLower]

theorem isStage_map_toLower (cs : List Char) : isStage (cs.map Char.toLower) = isStage cs := by
  simp only [isStage, List.map_map, Function.comp_def, Text.toLower_toLower]

theorem isVersion_map_toLower (cs : List Char) :
    isVersion (cs.map Char.toLower) = isVersion cs := by
  rw [isVersion, isVersion, fields_map_toLower (by decide)]
  rcases fields '-' cs with _ | ⟨year, _ | ⟨month, _ | ⟨day, _ | ⟨stage, _ | ⟨_, _⟩⟩⟩⟩⟩ <;>
    simp [isNumber_map_toLower, isStage_map_toLower]

/-- The reference in small letters. -/
def lowered (r : Reference) : Reference :=
  ⟨Text.lowered r.provider, r.types.map Text.lowered, Text.lowered r.version⟩

/-- Reading a text in small letters gives what the text gives, in small letters. -/
theorem parse?_lowered (text : String) :
    parse? (Text.lowered text) = (parse? text).map lowered := by
  rw [parse?_eq_cut?, parse?_eq_cut?, cut?, cut?, Text.lowered, String.toList_ofList,
    fields_map_toLower (by decide)]
  rcases fields '@' text.toList with _ | ⟨path, _ | ⟨version, _ | ⟨_, _⟩⟩⟩
  · rfl
  · rfl
  · simp only [List.map_cons, List.map_nil]
    rw [fields_map_toLower (by decide)]
    rcases fields '/' path with _ | ⟨provider, _ | ⟨type, types⟩⟩
    · rfl
    · rfl
    · have htypes := all_isType_map_toLower (type :: types)
      rw [List.map_cons] at htypes
      simp only [List.map_cons, isProvider_map_toLower, htypes, isVersion_map_toLower]
      split_ifs
      · simp [lowered, Text.lowered, Function.comp_def]
      · rfl
  · rfl

/-- The parts of a reference in the order in which they are written. -/
def parts (r : Reference) : List String := r.provider :: (r.types ++ [r.version])

theorem parts_lowered (r : Reference) : r.lowered.parts = r.parts.map Text.lowered := by
  simp [parts, lowered]

/-- The parts stand in the text with one sign between neighbours. -/
theorem map_piece_parts (r : Reference) : (places 0 r.parts).map (·.piece r.text) = r.parts := by
  have htext : r.text.toList = [] ++ (r.provider.toList ++
      (r.types.map (Prod.mk '/') ++ [('@', r.version)]).flatMap fun p => p.1 :: p.2.toList) := by
    simp [Reference.text, fullType_eq, String.toList_join, List.flatMap_map]
  have hparts : r.parts =
      r.provider :: (r.types.map (Prod.mk '/') ++ [('@', r.version)]).map Prod.snd := by
    simp [parts, Function.comp_def]
  rw [hparts]
  exact Text.map_piece_places htext

theorem length_parts_of_lowered_eq {r r' : Reference} (h : r'.lowered = r.lowered) :
    r'.parts.map String.length = r.parts.map String.length := by
  have hlength : String.length ∘ Text.lowered = String.length := funext Text.length_lowered
  have hparts := congrArg (fun r => r.parts.map String.length) h
  simpa only [parts_lowered, List.map_map, hlength] using hparts

theorem parse_eq_ok_iff_parse? {text : String} {r : Reference} :
    parse text = .ok r ↔ parse? text = some r := by
  rw [parse_eq_ok_iff, parse?_eq_some_iff]

/-- Changing the case of any letters of a text changes nothing about whether it is read. If it is
read, then there are as many types as before, and the parts are what stands in the changed text at
the places where they stood in the text: the same letters have changed their case, and nothing
else. -/
theorem reading_ignores_case (text : String) (marked : ℕ → Bool) :
    ((∃ r, parse text = .ok r) ↔ ∃ r', parse (recase marked text) = .ok r') ∧
    ∀ r r', parse text = .ok r → parse (recase marked text) = .ok r' →
      r'.types.length = r.types.length ∧
      r.parts = (places 0 r.parts).map (·.piece text) ∧
      r'.parts = (places 0 r.parts).map (·.piece (recase marked text)) ∧
      r'.parts = (places 0 r.parts).map fun place =>
        recase (fun i => marked (place.start + i)) (place.piece text) := by
  have hlowered : (parse? text).map lowered = (parse? (recase marked text)).map lowered := by
    rw [← parse?_lowered, ← parse?_lowered, Text.lowered_recase]
  simp only [parse_eq_ok_iff_parse?]
  constructor
  · have hsome := congrArg Option.isSome hlowered
    rw [Option.isSome_map, Option.isSome_map] at hsome
    rw [← Option.isSome_iff_exists, ← Option.isSome_iff_exists, hsome]
  · intro r r' h h'
    rw [h, h'] at hlowered
    have hsame : r'.lowered = r.lowered := (Option.some.inj hlowered).symm
    have htext := text_eq_of_spells (parse?_eq_some_iff.1 h)
    have htext' := text_eq_of_spells (parse?_eq_some_iff.1 h')
    have hplaces : places 0 r'.parts = places 0 r.parts :=
      Text.places_congr (length_parts_of_lowered_eq hsame) 0
    have hparts' : r'.parts = (places 0 r.parts).map (·.piece (recase marked text)) := by
      rw [← hplaces, ← htext', map_piece_parts]
    refine ⟨?_, ?_, hparts', ?_⟩
    · have htypes := congrArg (fun r => r.types.length) hsame
      simpa [lowered] using htypes
    · rw [← htext, map_piece_parts]
    · rw [hparts']
      exact List.map_congr_left fun place _ => place.piece_recase marked text

/-- One letter of each part has changed its case, and so the parts differ. The Kelvin sign is marked
too, but is not an English letter. -/
theorem reading_ignores_case_in_every_part :
    let text := "\u212aa.B/cD-e@2020-01-01-Rc"
    let marked : ℕ → Bool := fun i => i ∈ [0, 1, 6, 22]
    let r : Reference := ⟨"\u212aa.B", ["cD-e"], "2020-01-01-Rc"⟩
    let r' : Reference := ⟨"\u212aA.B", ["cd-e"], "2020-01-01-RC"⟩
    parse text = .ok r ∧ parse (recase marked text) = .ok r' ∧
      r'.parts = (places 0 r.parts).map fun place =>
        recase (fun i => marked (place.start + i)) (place.piece text) := by
  intro text marked r r'
  have h : parse text = .ok r := by decide
  have h' : parse (recase marked text) = .ok r' := by decide
  obtain ⟨-, -, -, hparts⟩ := (reading_ignores_case text marked).2 r r' h h'
  exact ⟨h, h', hparts⟩

end Reference

end Resource

end TypeGraph
