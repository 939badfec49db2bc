/-!
# Splitting and joining text at a separator

`fields sep` cuts a text at every occurrence of `sep`; `join sep` puts the pieces together again.
The two are inverse: `join_fields` holds for every text, and the pieces never hold the separator
(`not_mem_of_mem_fields`). So the pieces are known by what they give when they are joined
(`fields_eq_iff`). A text of characters of one class needs no separator behind it
(`append_inj_of_class`).
-/

namespace TypeGraph.Text

/-- The pieces of a text between the occurrences of `sep`; there is always at least one. -/
def fields (sep : Char) : List Char → List (List Char)
  | [] => [[]]
  | c :: cs =>
    if c = sep then [] :: fields sep cs
    else
      match fields sep cs with
      | [] => [[c]]
      | piece :: pieces => (c :: piece) :: pieces

/-- The pieces in order with `sep` between neighbours. -/
def join (sep : Char) : List (List Char) → List Char
  | [] => []
  | [piece] => piece
  | piece :: pieces => piece ++ sep :: join sep pieces

theorem fields_ne_nil (sep : Char) (cs : List Char) : fields sep cs ≠ [] := by
  cases cs with
  | nil => simp [fields]
  | cons c cs =>
    by_cases h : c = sep
    · simp [fields, h]
    · simp only [fields, h, ↓reduceIte]
      split <;> simp

theorem join_cons_cons (sep : Char) (p q : List Char) (ps : List (List Char)) :
    join sep (p :: q :: ps) = p ++ sep :: join sep (q :: ps) := rfl

theorem join_cons (sep : Char) (first : List Char) (pieces : List (List Char)) :
    join sep (first :: pieces) = first ++ pieces.flatMap (sep :: ·) := by
  induction pieces generalizing first with
  | nil => exact (List.append_nil first).symm
  | cons piece pieces ih => rw [join_cons_cons, ih, List.flatMap_cons, List.cons_append]

/-- Joining the pieces of a text gives the text back. -/
theorem join_fields (sep : Char) (cs : List Char) : join sep (fields sep cs) = cs := by
  induction cs with
  | nil => rfl
  | cons c cs ih =>
    cases hf : fields sep cs with
    | nil => exact absurd hf (fields_ne_nil sep cs)
    | cons p ps =>
      rw [hf] at ih
      by_cases h : c = sep
      · simp [fields, h, hf, join_cons_cons, ih]
      · simp only [fields, h, ↓reduceIte, hf]
        cases ps with
        | nil => simpa [join] using ih
        | cons q qs => simpa [join_cons_cons] using ih

/-- No piece of a text holds the separator. -/
theorem not_mem_of_mem_fields {sep : Char} {cs piece : List Char} (h : piece ∈ fields sep cs) :
    sep ∉ piece := by
  induction cs generalizing piece with
  | nil => simp_all [fields]
  | cons c cs ih =>
    by_cases hc : c = sep
    · simp only [fields, hc, ↓reduceIte, List.mem_cons] at h
      rcases h with rfl | h
      · simp
      · exact ih h
    · simp only [fields, hc, ↓reduceIte] at h
      split at h
      next hf => exact absurd hf (fields_ne_nil sep cs)
      next p ps hf =>
        rw [hf] at ih
        rcases List.mem_cons.1 h with rfl | h
        · have := ih (List.mem_cons_self)
          simp [this, Ne.symm hc]
        · exact ih (List.mem_cons_of_mem _ h)

theorem subset_of_mem_fields {sep : Char} {cs piece : List Char} (h : piece ∈ fields sep cs) :
    piece ⊆ cs := by
  obtain ⟨first, others, hfields⟩ := List.exists_cons_of_ne_nil (fields_ne_nil sep cs)
  rw [← join_fields sep cs, hfields, join_cons]
  rw [hfields] at h
  rcases List.mem_cons.1 h with rfl | hother
  · exact List.subset_append_left piece _
  · intro c hc
    exact List.mem_append_right _ (List.mem_flatMap.2 ⟨piece, hother, List.mem_cons_of_mem _ hc⟩)

theorem fields_eq_splitOn (sep : Char) (cs : List Char) : fields sep cs = cs.splitOn sep := by
  induction cs with
  | nil => rfl
  | cons c cs ih =>
    rw [fields, ih, List.splitOn_cons_eq_if_modifyHead]
    by_cases h : c = sep
    · simp [h]
    · simp only [h, ↓reduceIte, beq_iff_eq]
      cases hs : cs.splitOn sep with
      | nil => exact absurd hs (List.splitOn_ne_nil sep cs)
      | cons piece pieces => rfl

theorem join_eq_intercalate (sep : Char) (pieces : List (List Char)) :
    join sep pieces = [sep].intercalate pieces := by
  induction pieces with
  | nil => rfl
  | cons p ps ih =>
    cases ps with
    | nil => simp [join]
    | cons q qs => rw [join_cons_cons, ih, List.intercalate_cons_cons, List.append_cons]

/-- Pieces without the separator are the pieces of the text that they give when they are joined. -/
theorem fields_eq_iff {sep : Char} {cs : List Char} {pieces : List (List Char)} :
    fields sep cs = pieces ↔
      pieces ≠ [] ∧ (∀ piece ∈ pieces, sep ∉ piece) ∧ cs = join sep pieces := by
  constructor
  · rintro rfl
    exact ⟨fields_ne_nil sep cs, fun _ => not_mem_of_mem_fields, (join_fields sep cs).symm⟩
  · rintro ⟨hne, hsep, rfl⟩
    rw [fields_eq_splitOn, join_eq_intercalate]
    exact List.splitOn_intercalate sep hsep hne

/-- A joined text, with the separator before every piece but the first. -/
theorem intercalate_cons (sep first : String) (pieces : List String) :
    sep.intercalate (first :: pieces) = first ++ String.join (pieces.map (sep ++ ·)) := by
  induction pieces generalizing first with
  | nil => simp
  | cons piece pieces ih =>
    rw [String.intercalate_cons_cons, ih, List.map_cons, String.join_cons]
    simp only [String.append_assoc]

/-- The characters of a joined text are those of the pieces and of the separator. -/
theorem not_mem_intercalate {sep : String} {pieces : List String} {c : Char}
    (hsep : c ∉ sep.toList) (hpieces : ∀ piece ∈ pieces, c ∉ piece.toList) :
    c ∉ (sep.intercalate pieces).toList := by
  cases pieces with
  | nil => simp
  | cons first pieces =>
    obtain ⟨hfirst, hothers⟩ := List.forall_mem_cons.1 hpieces
    rw [intercalate_cons, String.toList_append, String.toList_join, List.mem_append,
      List.mem_flatMap]
    rintro (hc | ⟨piece, hpiece, hc⟩)
    · exact hfirst hc
    · obtain ⟨other, hother, rfl⟩ := List.mem_map.1 hpiece
      rw [String.toList_append, List.mem_append] at hc
      exact hc.elim hsep (hothers other hother)

/-- A text of characters of one class is told apart from what follows, if this does not begin with a
character of the class. -/
theorem append_inj_of_class {p : Char → Bool} {s s' rest rest' : List Char}
    (hs : ∀ c ∈ s, p c = true) (hs' : ∀ c ∈ s', p c = true)
    (hrest : ∀ c ∈ rest.head?, p c = false) (hrest' : ∀ c ∈ rest'.head?, p c = false)
    (h : s ++ rest = s' ++ rest') : s = s' ∧ rest = rest' := by
  have front : ∀ {s rest : List Char}, (∀ c ∈ s, p c = true) → (∀ c ∈ rest.head?, p c = false) →
      (s ++ rest).takeWhile p = s := by
    intro s rest hs hrest
    have hnone : rest.takeWhile p = [] := by
      cases rest with
      | nil => rfl
      | cons c cs =>
        have hc := hrest c rfl
        simp [hc]
    rw [List.takeWhile_append_of_pos hs, hnone, List.append_nil]
  obtain rfl : s = s' := by rw [← front hs hrest, h, front hs' hrest']
  exact ⟨rfl, List.append_cancel_left h⟩

end TypeGraph.Text
