import TypeGraph.Command
import TypeGraph.Proofs.Documents
import TypeGraph.Proofs.LetterCase
import TypeGraph.Proofs.Quoting
import TypeGraph.Proofs.ResourceBodies

/-!
# What is shown of a resource

A reference is read, its body is made in the fresh graph, and the body is shown. What comes out does
not mention the graph any more: it is one table for all references (`Resource.shownProperties`), in
which two rows spell the reference out.

* `Text.IsPlain`: the characters that references may hold, letters and digits of other scripts
  included. They are written as they are between quotes of either kind, and they end no line.
* `Graph.Regular.objectReport?_body`: the report on a body, in every graph that holds one.
* `ObjectReport.render_text`: the lines of a report.
-/

namespace TypeGraph

open Resource (Reference)
open Resource.Grammar (Letter Digit Spells)
open Text (isDecimalDigit)
open Json (IsVerbatim)

variable {δ : Type}

/-! ### The characters of a reference -/

namespace Text

/-- The hyphen and the characters behind it, apart from the backslash. -/
def IsPlain (c : Char) : Prop := '-' ≤ c ∧ c ≠ '\\'

instance : DecidablePred IsPlain := fun c => inferInstanceAs (Decidable ('-' ≤ c ∧ c ≠ '\\'))

/-- A range that the backslash does not lie in holds plain characters only. -/
theorem isPlain_of_range {first last c : Char} (hfirst : first ≤ c) (hlast : c ≤ last)
    (hplain : '-' ≤ first) (hbackslash : last < '\\' ∨ '\\' < first) : IsPlain c := by
  refine ⟨hplain.trans hfirst, ?_⟩
  rintro rfl
  rcases hbackslash with hbelow | habove
  · exact absurd hlast (not_le.2 hbelow)
  · exact absurd hfirst (not_le.2 habove)

theorem isPlain_of_letter {c : Char} (h : Letter c) : IsPlain c := by
  rcases h with hsmall | hcapital | rfl | rfl
  · exact isPlain_of_range hsmall.1 hsmall.2 (by decide) (by decide)
  · exact isPlain_of_range hcapital.1 hcapital.2 (by decide) (by decide)
  · decide
  · decide

theorem isPlain_of_isTypeChar {c : Char} (h : Reference.isTypeChar c = true) : IsPlain c := by
  rcases Reference.isTypeChar_iff.1 h with hletter | hdigit | rfl
  · exact isPlain_of_letter hletter
  · exact isPlain_of_range hdigit.1 hdigit.2 (by decide) (by decide)
  · decide

theorem isPlain_of_isDecimalDigit {c : Char} (h : isDecimalDigit c = true) : IsPlain c := by
  have hranges : ∀ range ∈ decimalDigitRanges, 45 ≤ range.1 ∧ (range.2 < 92 ∨ 92 < range.1) := by
    decide
  obtain ⟨range, hrange, hfirst, hlast⟩ := inRanges_eq_true_iff.1 h
  obtain ⟨hplain, hbackslash⟩ := hranges range hrange
  constructor
  · show 45 ≤ c.toNat
    omega
  · rintro rfl
    have hcode : '\\'.toNat = 92 := rfl
    omega

namespace IsPlain

variable {c : Char}

theorem not_mem_escaped (h : IsPlain c) : c ∉ ['\\', '\x27', '\n', '\r', '\t', '$'] := by
  simp only [List.mem_cons, List.not_mem_nil, or_false]
  rintro (rfl | rfl | rfl | rfl | rfl | rfl) <;> revert h <;> decide

theorem not_mem_specials (h : IsPlain c) : c ∉ Json.specials := by
  have hall : (Json.specials.all fun d => !decide (IsPlain d)) = true := by decide +kernel
  intro hmem
  have hc := List.all_eq_true.1 hall c hmem
  simp [h] at hc

end IsPlain

/-- Plain text takes no escapes in a document, and neither do the quotes around it. -/
theorem isVerbatim_of_quotes {s : String} (h : ∀ c ∈ s.toList, IsPlain c) :
    Json.IsVerbatim ("'" ++ s ++ "'") := by
  have hquote : '\x27' ∉ Json.specials := by decide
  intro c hc
  rw [String.toList_append, String.toList_append, List.mem_append, List.mem_append] at hc
  rcases hc with (hopening | hmem) | hclosing
  · obtain rfl : c = '\x27' := by simpa using hopening
    exact hquote
  · exact (h c hmem).not_mem_specials
  · obtain rfl : c = '\x27' := by simpa using hclosing
    exact hquote

end Text

open Text (IsPlain)

namespace Resource.Reference

variable {text : String} {r : Reference}

theorem isPlain_of_mem_fullType (h : Spells text r) {c : Char} (hc : c ∈ r.fullType.toList) :
    IsPlain c := by
  by_contra hplain
  refine not_mem_fullType h ?_ ?_ ?_ hc
  · rw [← Bool.not_eq_true]
    exact fun htype => hplain (Text.isPlain_of_isTypeChar htype)
  · rintro rfl
    exact hplain (by decide)
  · rintro rfl
    exact hplain (by decide)

theorem isPlain_of_mem_version (h : Spells text r) {c : Char} (hc : c ∈ r.version.toList) :
    IsPlain c := by
  by_contra hplain
  refine not_mem_of_version h.version ?_ ?_ ?_ hc
  · rw [← Bool.not_eq_true]
    exact fun hdigit => hplain (Text.isPlain_of_isDecimalDigit hdigit)
  · intro hsmall
    apply hplain
    apply Text.isPlain_of_letter
    rcases Text.toLower_cases c with hsame | ⟨hcapital, -⟩
    · exact .inl (hsame ▸ hsmall)
    · exact .inr (.inl hcapital)
  · rintro rfl
    exact hplain (by decide)

theorem isPlain_of_mem_text (h : Spells text r) {c : Char} (hc : c ∈ text.toList) : IsPlain c := by
  rw [← text_eq_of_spells h, Reference.text, String.toList_append, String.toList_append,
    List.mem_append, List.mem_append] at hc
  rcases hc with (htype | hat) | hversion
  · exact isPlain_of_mem_fullType h htype
  · obtain rfl : c = '@' := by simpa using hat
    decide
  · exact isPlain_of_mem_version h hversion

end Resource.Reference

/-! ### The body of a resource -/

/-- What is shown of the properties of a resource, given what is shown of the two literals. -/
def Resource.shownProperties (type version : String) : List PropertyRow :=
  [⟨"id", "string", ["ReadOnly", "SkipInlining"]⟩,
   ⟨"name", "string", ["Required", "SkipInlining"]⟩,
   ⟨"type", type, ["ReadOnly", "SkipInlining"]⟩,
   ⟨"apiVersion", version, ["ReadOnly", "SkipInlining"]⟩,
   ⟨"sku", "object", []⟩,
   ⟨"kind", "string", []⟩,
   ⟨"managedBy", "string", []⟩,
   ⟨"managedByExtended", "string[]", []⟩,
   ⟨"location", "string", []⟩,
   ⟨"extendedLocation", "object", []⟩,
   ⟨"zones", "string[]", []⟩,
   ⟨"plan", "object", []⟩,
   ⟨"eTag", "string", []⟩,
   ⟨"tags", "Tags", []⟩,
   ⟨"scale", "object", []⟩,
   ⟨"identity", "object", []⟩,
   ⟨"properties", "object", []⟩,
   ⟨"dependsOn", "resource[]", ["WriteOnly"]⟩]

/-- The names of the flags that properties of a body have. -/
theorem Resource.names_flags :
    (Flags.readOnly ||| Flags.skipInlining).names = ["ReadOnly", "SkipInlining"] ∧
      (Flags.required ||| Flags.skipInlining).names = ["Required", "SkipInlining"] ∧
      Flags.writeOnly.names = ["WriteOnly"] ∧ Flags.none.names = [] := by
  decide

/-- The report on a body is the same in every graph that holds it. -/
theorem Graph.Regular.objectReport?_body [Deferral δ] {declared : List TypeId} {g : Graph δ}
    (h : g.Regular declared) {strings resources id : TypeId} {r : Reference}
    (hbody : g.HoldsBody strings resources r id) :
    g.objectReport? id = some ⟨r.text,
      Resource.shownProperties (Text.quoted r.fullType) (Text.quoted r.version), none⟩ := by
  obtain ⟨hstrings, hresources, type, version, htype, hversion, hid⟩ := hbody
  have hstring : g.display .string = "string" := h.display_builtin (by decide)
  have hobject : g.display .object = "object" := h.display_builtin (by decide)
  have htags : g.display .tags = "Tags" :=
    display_of_slot? (h.slot?_named (h.sound.foundation List.mem_cons_self))
  have hrows : (Resource.propertyKeys type version strings resources).map
      (fun p => g.propertyRow (p.map .direct)) =
        Resource.shownProperties (Text.quoted r.fullType) (Text.quoted r.version) := by
    simp [Resource.propertyKeys, Resource.propertyNames, Resource.propertyType,
      Resource.propertyFlags, Resource.shownProperties, propertyRow, Property.map, resolve, hstring,
      hobject, htags, Resource.names_flags, display_of_slot? htype, display_of_slot? hversion,
      display_of_slot? hstrings, display_of_slot? hresources]
  have hnode := node?_eq_some_iff.2 ⟨_, hid, rfl⟩
  simp [objectReport?, objectReport, hnode, display_of_slot? hid, Node.body?, Function.comp_def,
    hrows]

/-! ### Lines -/

namespace PropertyRow

/-- The line for a property, without the line end before it. -/
def shown (p : PropertyRow) : String :=
  "  " ++ p.name ++ ": " ++ p.typeName ++
    if p.flags = [] then "" else " [" ++ ", ".intercalate p.flags ++ "]"

theorem line_eq (p : PropertyRow) : p.line = "\n" ++ p.shown := by
  have hstart : "\n  " = "\n" ++ "  " := rfl
  simp only [line, shown, hstart, String.append_assoc, List.isEmpty_iff]
  rfl

/-- The texts that are shown of a property. -/
def texts (p : PropertyRow) : List String := p.name :: p.typeName :: p.flags

/-- A property takes one line if no text in it holds a line end. -/
theorem newline_not_mem_shown {p : PropertyRow} (h : ∀ text ∈ p.texts, '\n' ∉ text.toList) :
    '\n' ∉ p.shown.toList := by
  rw [texts, List.forall_mem_cons, List.forall_mem_cons] at h
  obtain ⟨hname, htype, hflags⟩ := h
  have hstart : '\n' ∉ ("  " ++ p.name ++ ": " ++ p.typeName).toList := by simp [hname, htype]
  unfold shown
  rw [String.toList_append, List.mem_append, not_or]
  refine ⟨hstart, ?_⟩
  split_ifs
  · simp
  · simp only [String.toList_append, List.mem_append, not_or]
    exact ⟨⟨by decide, Text.not_mem_intercalate (by decide) hflags⟩, by decide⟩

end PropertyRow

/-- The lines of a report on an object without additional properties. -/
theorem ObjectReport.render_text (name : String) (rows : List PropertyRow) :
    (⟨name, rows, none⟩ : ObjectReport).render .text =
      "\n".intercalate (name :: rows.map (·.shown)) := by
  rw [Text.intercalate_cons, List.map_map, render, lines, String.append_empty]
  simp only [Function.comp_def, PropertyRow.line_eq]

/-! ### The document -/

namespace PropertyRow

/-- What the document shows of the flags of a property. -/
def flagBlock (flags : List String) : String :=
  if flags = [] then "[]"
  else
    "[\n" ++ ",\n".intercalate (flags.map fun flag => "        \"" ++ flag ++ "\"") ++ "\n      ]"

/-- What the document shows of a property. The indent of its first line is left out. -/
def block (p : PropertyRow) : String :=
  "\x7b\n      \"name\": \"" ++ p.name ++ "\",\n      \"type\": \"" ++ p.typeName ++
    "\",\n      \"flags\": " ++ flagBlock p.flags ++ "\n    \x7d"

theorem layout_flags {flags : List String} (h : ∀ flag ∈ flags, IsVerbatim flag) :
    (Json.list (flags.map .text)).layout 3 = (flagBlock flags).toList := by
  rw [flagBlock]
  split_ifs with hne
  · subst hne
    rfl
  · have hitems : (flags.map Json.text).map (Json.layout 4) =
        (flags.map fun flag => "\"" ++ flag ++ "\"").map String.toList := by
      simp only [List.map_map, List.map_inj_left, Function.comp_apply]
      intro flag hflag
      rw [Json.layout, Json.quote_of_isVerbatim (h flag hflag)]
      simp
    rw [Json.layout_list, Json.bracketed_eq (by simpa using hne) hitems "        " rfl]
    simp [Function.comp_def, Json.newLine]

theorem layout_json {p : PropertyRow} (h : ∀ text ∈ p.texts, IsVerbatim text) :
    p.json.layout 2 = p.block.toList := by
  rw [texts, List.forall_mem_cons, List.forall_mem_cons] at h
  obtain ⟨hname, htype, hflags⟩ := h
  have hkeys : Json.quote "name" = "\"name\"".toList ∧ Json.quote "type" = "\"type\"".toList ∧
      Json.quote "flags" = "\"flags\"".toList := by decide
  unfold block
  simp only [json, Json.layout, Json.layoutFields, layout_flags hflags,
    Json.quote_of_isVerbatim hname, Json.quote_of_isVerbatim htype, hkeys, String.toList_append]
  simp [Json.newLine]

end PropertyRow

/-- The document that shows an object without additional properties. -/
def ObjectReport.document (name : String) (rows : List PropertyRow) : String :=
  "\x7b\n  \"name\": \"" ++ name ++ "\",\n  \"properties\": [\n" ++
    ",\n".intercalate (rows.map fun p => "    " ++ p.block) ++ "\n  ]\n\x7d"

theorem ObjectReport.layout_rows {rows : List PropertyRow} (hne : rows ≠ [])
    (h : ∀ p ∈ rows, ∀ text ∈ p.texts, IsVerbatim text) :
    (Json.list (rows.map (·.json))).layout 1 =
      ("[\n" ++ ",\n".intercalate (rows.map fun p => "    " ++ p.block) ++ "\n  ]").toList := by
  have hitems : (rows.map (·.json)).map (Json.layout 2) =
      (rows.map (·.block)).map String.toList := by
    simp only [List.map_map, List.map_inj_left, Function.comp_apply]
    exact fun p hp => PropertyRow.layout_json (h p hp)
  rw [Json.layout_list, Json.bracketed_eq (by simpa using hne) hitems "    " rfl]
  simp [Function.comp_def, Json.newLine]

theorem ObjectReport.render_json {name : String} {rows : List PropertyRow} (hne : rows ≠ [])
    (hname : IsVerbatim name) (hrows : ∀ p ∈ rows, ∀ text ∈ p.texts, IsVerbatim text) :
    (⟨name, rows, none⟩ : ObjectReport).render .json = document name rows := by
  have hkeys : Json.quote "name" = "\"name\"".toList ∧
      Json.quote "properties" = "\"properties\"".toList := by decide
  rw [← String.toList_inj, render, Json.pretty, String.toList_ofList]
  unfold document
  simp only [json, Option.map_none, Option.toList_none, List.append_nil, Json.layout,
    Json.layoutFields, layout_rows hne hrows, Json.quote_of_isVerbatim hname, hkeys,
    String.toList_append]
  simp [Json.newLine]

/-- Two of the properties of a resource spell the reference out, and the others are fixed. -/
theorem Resource.isVerbatim_of_mem_texts {type version : String} (htype : IsVerbatim type)
    (hversion : IsVerbatim version) :
    ∀ p ∈ shownProperties type version, ∀ text ∈ p.texts, IsVerbatim text := by
  have hfixed : ∀ p ∈ shownProperties "" "", ∀ text ∈ p.texts, IsVerbatim text := by
    have hall : ((shownProperties "" "").all fun p => p.texts.all fun text =>
        text.toList.all fun c => decide (IsPlain c)) = true := by decide +kernel
    simp only [List.all_eq_true, decide_eq_true_eq] at hall
    exact fun p hp text htext c hc => (hall p hp text htext c hc).not_mem_specials
  have hrow : ∀ {name type : String} {flags : List String},
      ⟨name, "", flags⟩ ∈ shownProperties "" "" → IsVerbatim type →
        ∀ text ∈ PropertyRow.texts ⟨name, type, flags⟩, IsVerbatim text := by
    intro name type flags hmem htype
    obtain ⟨hname, hothers⟩ := List.forall_mem_cons.1 (hfixed _ hmem)
    obtain ⟨-, hflags⟩ := List.forall_mem_cons.1 hothers
    exact List.forall_mem_cons.2 ⟨hname, List.forall_mem_cons.2 ⟨htype, hflags⟩⟩
  have hrows : shownProperties type version =
      ((shownProperties "" "").set 2 ⟨"type", type, ["ReadOnly", "SkipInlining"]⟩).set 3
        ⟨"apiVersion", version, ["ReadOnly", "SkipInlining"]⟩ := rfl
  intro p hp
  rw [hrows] at hp
  rcases List.mem_or_eq_of_mem_set hp with hp | rfl
  · rcases List.mem_or_eq_of_mem_set hp with hp | rfl
    · exact hfixed p hp
    · exact hrow (by decide) htype
  · exact hrow (by decide) hversion

/-! ### The command -/

namespace Command

/-- The body for a reference is made in the fresh graph, and its report is shown. -/
theorem result_resource {s : String} {r : Reference} (h : Spells s r) (format : Format) :
    (run format (.resource s)).result = .ok (ObjectReport.render
      ⟨s, Resource.shownProperties ("'" ++ r.fullType ++ "'") ("'" ++ r.version ++ "'"), none⟩
      format) := by
  have hregular := (Graph.Regular.start (δ := Recipe)).grows (Build.grows_resource r Graph.fresh)
  obtain ⟨id, g, events, hrun, -, -, strings, resources, hbody⟩ :=
    (Graph.Sound.fresh (δ := Recipe)).resource r
  rw [hrun] at hregular
  have hreport := hregular.objectReport?_body (hregular.holdsBody hbody)
  rw [Reference.text_eq_of_spells h, Text.quoted_of_plain, Text.quoted_of_plain] at hreport
  · simp only [run, Reference.parse_eq_ok_iff.2 h, showObject, hrun, hreport]
  · exact fun c hc => (Reference.isPlain_of_mem_version h hc).not_mem_escaped
  · exact fun c hc => (Reference.isPlain_of_mem_fullType h hc).not_mem_escaped

/-- A text that no reference is spelled by is refused, and goes unchanged into the refusal. -/
theorem result_resource_eq_refused_iff (s : String) (format : Format) :
    (run format (.resource s)).result = .error (.refused (.malformedReference s)) ↔
      ∀ r, ¬ Spells s r := by
  constructor
  · intro hrefused r h
    rw [result_resource h] at hrefused
    cases hrefused
  · intro h
    simp only [run, Reference.parse_eq_error_iff.2 ⟨h, rfl⟩]

/-- Asked for a resource, the program refuses what is not spelled by the grammar, and nothing else.
The text of a reference has one at sign, between the types and the version. What is shown of it is
the text itself and the eighteen properties, on a line each; two of these spell the types and the
version out, between quotes and as they are, and the others are the same for every reference. The
document shows the same in the same order, and no additional properties. It takes no escapes
either. -/
theorem resource_shown_as_spelled (s : String) :
    (∀ format, (run format (.resource s)).result = .error (.refused (.malformedReference s)) ↔
      ∀ r, ¬ Spells s r) ∧
    ∀ r, Spells s r →
      let type := "'" ++ r.fullType ++ "'"
      let version := "'" ++ r.version ++ "'"
      let rows := Resource.shownProperties type version
      let lines := s :: rows.map (·.shown)
      let document := ObjectReport.document s rows
      s = r.fullType ++ "@" ++ r.version ∧ s.toList.count '@' = 1 ∧
      (run .text (.resource s)).result = .ok ("\n".intercalate lines) ∧ lines.length = 19 ∧
      (∀ line ∈ lines, '\n' ∉ line.toList) ∧
      (run .json (.resource s)).result = .ok document ∧
      document = Json.pretty (.object
        [("name", .text s), ("properties", .list (rows.map fun p => .object
          [("name", .text p.name), ("type", .text p.typeName),
           ("flags", .list (p.flags.map .text))]))]) ∧
      ∀ text ∈ [s, type, version], Json.quote text = '"' :: (text.toList ++ ['"']) := by
  refine ⟨result_resource_eq_refused_iff s, fun r h => ?_⟩
  intro type version rows lines document
  have hs : s = r.fullType ++ "@" ++ r.version := (Reference.text_eq_of_spells h).symm
  have hname : IsVerbatim s := fun c hc => (Reference.isPlain_of_mem_text h hc).not_mem_specials
  have htype : IsVerbatim type :=
    Text.isVerbatim_of_quotes fun c => Reference.isPlain_of_mem_fullType h
  have hversion : IsVerbatim version :=
    Text.isVerbatim_of_quotes fun c => Reference.isPlain_of_mem_version h
  have hrows := Resource.isVerbatim_of_mem_texts htype hversion
  have hnewline : ∀ {text : String}, IsVerbatim text → '\n' ∉ text.toList :=
    fun htext hmem => htext '\n' hmem (by decide)
  have hdocument : ObjectReport.render ⟨s, rows, none⟩ .json = document :=
    ObjectReport.render_json (by simp [rows, Resource.shownProperties]) hname hrows
  refine ⟨hs, ?_, ?_, rfl, ?_, ?_, hdocument.symm, ?_⟩
  · rw [hs]
    simp [List.count_eq_zero_of_not_mem (Reference.not_at_mem_fullType h),
      List.count_eq_zero_of_not_mem (Reference.not_at_mem_of_version h.version)]
  · rw [result_resource h, ObjectReport.render_text]
  · refine List.forall_mem_cons.2 ⟨hnewline hname, List.forall_mem_map.2 fun p hp => ?_⟩
    exact PropertyRow.newline_not_mem_shown fun text htext => hnewline (hrows p hp text htext)
  · rw [result_resource h, hdocument]
  · simp only [List.forall_mem_cons, List.not_mem_nil, false_implies, implies_true, and_true]
    exact ⟨Json.quote_of_isVerbatim hname, Json.quote_of_isVerbatim htype,
      Json.quote_of_isVerbatim hversion⟩

/-- A reference with letters and digits from outside of ASCII, and a type that is a hyphen. With a
line end behind it, it is refused. -/
theorem resource_shown_as_spelled_outside_ascii :
    let s := "\u212a8.\u017f/a-b/-@\u0662\u0660\u0662\u0660-01-02-Rc"
    let r : Reference := ⟨"\u212a8.\u017f", ["a-b", "-"], "\u0662\u0660\u0662\u0660-01-02-Rc"⟩
    let line := "  type: '\u212a8.\u017f/a-b/-' [ReadOnly, SkipInlining]"
    let opening := "\x7b" ++
      "\n  \"name\": \"\u212a8.\u017f/a-b/-@\u0662\u0660\u0662\u0660-01-02-Rc\"," ++
      "\n  \"properties\": [\n"
    let typeBlock := "    \x7b\n      \"name\": \"type\"," ++
      "\n      \"type\": \"'\u212a8.\u017f/a-b/-'\"," ++
      "\n      \"flags\": [\n        \"ReadOnly\",\n        \"SkipInlining\"\n      ]\n    \x7d"
    let skuBlock := "    \x7b\n      \"name\": \"sku\",\n      \"type\": \"object\"," ++
      "\n      \"flags\": []\n    \x7d"
    Spells s r ∧ (∃ lines, (run .text (.resource s)).result = .ok ("\n".intercalate lines) ∧
      lines.length = 19 ∧ lines[0]? = some s ∧ lines[3]? = some line ∧ '\n' ∉ line.toList) ∧
      (∃ blocks, (run .json (.resource s)).result =
          .ok (opening ++ ",\n".intercalate blocks ++ "\n  ]\n\x7d") ∧
        blocks.length = 18 ∧ blocks[2]? = some typeBlock ∧ blocks[4]? = some skuBlock) ∧
      (run .json (.resource (s ++ "\n"))).result =
        .error (.refused (.malformedReference (s ++ "\n"))) := by
  intro s r line opening typeBlock skuBlock
  have h : Spells s r := Reference.parse_eq_ok_iff.1 (by decide)
  have hparse : Reference.parse (s ++ "\n") = .error (.malformedReference (s ++ "\n")) := by decide
  obtain ⟨hrefused, -⟩ := Reference.parse_eq_error_iff.1 hparse
  obtain ⟨-, hread⟩ := resource_shown_as_spelled s
  obtain ⟨-, -, htext, hlength, hlines, hdocument, -⟩ := hread r h
  have hopening : opening = "\x7b\n  \"name\": \"" ++ s ++ "\",\n  \"properties\": [\n" := by decide
  refine ⟨h, ⟨_, htext, hlength, rfl, rfl, hlines line (by decide)⟩, ?_, ?_⟩
  · rw [hopening]
    exact ⟨_, hdocument, rfl, rfl, rfl⟩
  · exact ((resource_shown_as_spelled (s ++ "\n")).1 .json).2 hrefused

end Command

end TypeGraph
