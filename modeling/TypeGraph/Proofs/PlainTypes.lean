import TypeGraph.Proofs.Display
import TypeGraph.Proofs.Quoting

/-!
# Types that are known by their labels

Objects of different shape may have the same label. Types that are made without objects are told
apart by their labels, though the value of a string literal may hold any text, that of other labels
included. The label of such a type can be read from the front: a word or a quoted value, then pairs
of brackets, and then, if the type is a union, the separator and the next member.

* `Text.IsAtomic.append_inj`: words and quoted values are told apart even if more text follows.
* `Graph.Plain`: the types that are made without objects.
* `Graph.Simple`, `Graph.Plain.cases`: a plain type is an array of arrays, to some depth, of a type
  with an atomic label, or it is the union of several such types.
-/

namespace TypeGraph

variable {δ : Type}

/-! ### Reading a label from the front -/

namespace Text

/-- The text is empty, or it begins with one of the given signs. -/
def OpensWith (signs : List Char) (text : String) : Prop :=
  ∀ c ∈ text.toList.head?, c ∈ signs

theorem OpensWith.mono {signs signs' : List Char} {text : String} (h : OpensWith signs text)
    (hsub : signs ⊆ signs') : OpensWith signs' text :=
  fun c hc => hsub (h c hc)

theorem OpensWith.append {signs : List Char} {s t : String} (hs : OpensWith signs s)
    (ht : OpensWith signs t) : OpensWith signs (s ++ t) := by
  intro c hc
  rw [String.toList_append, List.head?_append] at hc
  rcases Option.or_eq_some_iff.1 hc with hc | ⟨-, hc⟩
  · exact hs c hc
  · exact ht c hc

/-- A text without some signs is told apart from what follows, if this begins with such a sign. -/
theorem append_inj_of_not_mem {signs : List Char} {s s' rest rest' : String}
    (hs : ∀ c ∈ s.toList, c ∉ signs) (hs' : ∀ c ∈ s'.toList, c ∉ signs)
    (hrest : OpensWith signs rest) (hrest' : OpensWith signs rest')
    (h : s ++ rest = s' ++ rest') : s = s' ∧ rest = rest' := by
  have hclass := congrArg String.toList h
  rw [String.toList_append, String.toList_append] at hclass
  obtain ⟨hsame, hrest⟩ := append_inj_of_class (p := fun c => c ∉ signs) (by simpa using hs)
    (by simpa using hs') (by simpa [OpensWith] using hrest) (by simpa [OpensWith] using hrest')
    hclass
  exact ⟨String.toList_injective hsame, String.toList_injective hrest⟩

/-- A text that cannot be mistaken for a quoted value or for what follows a label. -/
def IsWord (s : String) : Prop := s ≠ "" ∧ ∀ c ∈ s.toList, c ∉ ['[', ' ', '\x27']

/-- The label of a type without parts. -/
inductive IsAtomic : String → Prop
  | word {s : String} (h : IsWord s) : IsAtomic s
  | quoted (value : String) : IsAtomic (quoted value)

theorem quoted_append_ne_word_append {value s : String} (hs : IsWord s) (rest rest' : String) :
    quoted value ++ rest ≠ s ++ rest' := by
  obtain ⟨hne, hsigns⟩ := hs
  intro h
  have hlist := congrArg String.toList h
  cases hs : s.toList with
  | nil => exact hne (String.toList_eq_nil_iff.1 hs)
  | cons c cs =>
    have hc := hsigns c (by simp [hs])
    have hquote : "'".toList = ['\x27'] := rfl
    simp only [String.toList_append, quoted_eq, hquote, hs, List.cons_append, List.cons.injEq]
      at hlist
    simp [← hlist.1] at hc

/-- A label without parts is told apart from brackets and separators behind it. -/
theorem IsAtomic.append_inj {s s' rest rest' : String} (hs : IsAtomic s) (hs' : IsAtomic s')
    (hrest : OpensWith ['[', ' '] rest) (hrest' : OpensWith ['[', ' '] rest')
    (h : s ++ rest = s' ++ rest') : s = s' ∧ rest = rest' := by
  have hword : ∀ {s : String}, IsWord s → ∀ c ∈ s.toList, c ∉ ['[', ' '] := by
    intro s hs c hc hmem
    exact hs.2 c hc (List.mem_append_left ['\x27'] hmem)
  cases hs with
  | word hs =>
    cases hs' with
    | word hs' => exact append_inj_of_not_mem (hword hs) (hword hs') hrest hrest' h
    | quoted value => exact absurd h.symm (quoted_append_ne_word_append hs _ _)
  | quoted value =>
    cases hs' with
    | word hs' => exact absurd h (quoted_append_ne_word_append hs' _ _)
    | quoted value' =>
      obtain ⟨rfl, hrest⟩ := eq_of_quoted_append_eq h
      exact ⟨rfl, hrest⟩

/-- Several pairs of brackets. -/
def brackets : ℕ → String
  | 0 => ""
  | n + 1 => brackets n ++ "[]"

theorem length_brackets (n : ℕ) : (brackets n).length = 2 * n := by
  induction n with
  | zero => rfl
  | succ n ih =>
    rw [brackets, String.length_append, ih]
    rfl

theorem mem_brackets {n : ℕ} {c : Char} (h : c ∈ (brackets n).toList) : c = '[' ∨ c = ']' := by
  induction n with
  | zero => simp [brackets] at h
  | succ n ih =>
    rw [brackets, String.toList_append, List.mem_append] at h
    rcases h with h | h
    · exact ih h
    · simpa using h

theorem opensWith_brackets (n : ℕ) : OpensWith ['['] (brackets n) := by
  induction n with
  | zero => simp [OpensWith, brackets]
  | succ n ih => exact ih.append (by simp [OpensWith])

theorem brackets_append_inj {n n' : ℕ} {rest rest' : String} (hrest : OpensWith [' '] rest)
    (hrest' : OpensWith [' '] rest') (h : brackets n ++ rest = brackets n' ++ rest') :
    n = n' ∧ rest = rest' := by
  have hspace : ∀ (n : ℕ), ∀ c ∈ (brackets n).toList, c ∉ [' '] := by
    intro n c hc
    rcases mem_brackets hc with rfl | rfl <;> decide
  obtain ⟨hbrackets, hrest⟩ := append_inj_of_not_mem (hspace n) (hspace n') hrest hrest' h
  refine ⟨?_, hrest⟩
  have hlength := congrArg String.length hbrackets
  rw [length_brackets, length_brackets] at hlength
  omega

end Text

/-! ### Types made without objects -/

namespace Graph

/-- The type is made without objects, apart from the type of all objects. The items of its arrays
are not unions of several types. -/
inductive Plain (g : Graph δ) : TypeId → Prop
  | builtin {id : TypeId} (known : id ∈ plainBuiltins.map Prod.fst) : Plain g id
  | literal {id : TypeId} {value : String} (node : g.node? id = some (.literal value)) : Plain g id
  | array {id item : TypeId} (node : g.node? id = some (.array (some item)))
      (single : g.kind? item ≠ some .union) (plain : Plain g item) : Plain g id
  | union {id : TypeId} {members : List TypeId} (node : g.node? id = some (.union members))
      (plain : ∀ m ∈ members, Plain g m) : Plain g id

/-- The type is one of the nine or a string literal. -/
def Atomic (g : Graph δ) (id : TypeId) : Prop :=
  id ∈ plainBuiltins.map Prod.fst ∨ ∃ value, g.node? id = some (.literal value)

/-- The type is an array of arrays, to the given depth, of a type. -/
inductive ArrayOver (g : Graph δ) (base : TypeId) : ℕ → TypeId → Prop
  | base : ArrayOver g base 0 base
  | array {n : ℕ} {id item : TypeId} (node : g.node? id = some (.array (some item)))
      (nested : ArrayOver g base n item) : ArrayOver g base (n + 1) id

/-- The type is an array of arrays, to some depth, of a type without parts. -/
def Simple (g : Graph δ) (id : TypeId) : Prop := ∃ base n, g.Atomic base ∧ g.ArrayOver base n id

theorem ArrayOver.unique {declared : List TypeId} {g : Graph δ} (hs : g.Sound declared)
    {base id id' : TypeId} {n : ℕ} (h : g.ArrayOver base n id) (h' : g.ArrayOver base n id') :
    id = id' := by
  induction h generalizing id' with
  | base =>
    cases h'
    rfl
  | array node _ ih =>
    cases h' with
    | array node' nested' =>
      obtain rfl := ih nested'
      exact hs.id_unique (hs.mem_shared_of_node? node rfl rfl)
        (hs.mem_shared_of_node? node' rfl rfl)

theorem ArrayOver.display_eq {g : Graph δ} (hitems : g.ItemsLabelled) {base id : TypeId} {n : ℕ}
    (h : g.ArrayOver base n id) : g.display id = g.display base ++ Text.brackets n := by
  induction h with
  | base => simp [Text.brackets]
  | @array n id item node _ ih =>
    obtain ⟨⟨label, _⟩, hslot, rfl⟩ := node?_eq_some_iff.1 node
    rw [display_of_slot? hslot, (hitems id label item hslot).2, ih, Text.brackets,
      String.append_assoc]

theorem Labelled.display_literal {g : Graph δ} (h : g.Labelled) {id : TypeId} {value : String}
    (node : g.node? id = some (.literal value)) : g.display id = Text.quoted value := by
  rw [display_of_slot? (h.slot?_literal node)]

/-! ### Labels of plain types -/

/-- What is shown of the members of a union behind the first one. -/
def labelRest (g : Graph δ) (ids : List TypeId) : String :=
  String.join (ids.map fun m => Vocabulary.unionSeparator ++ g.display m)

theorem labelRest_cons (g : Graph δ) (m : TypeId) (ms : List TypeId) :
    g.labelRest (m :: ms) = Vocabulary.unionSeparator ++ (g.display m ++ g.labelRest ms) := by
  rw [labelRest, List.map_cons, String.join_cons, String.append_assoc, labelRest]

theorem unionLabel_cons (g : Graph δ) (m : TypeId) (ms : List TypeId) :
    g.unionLabel (m :: ms) = g.display m ++ g.labelRest ms := by
  rw [unionLabel, List.map_cons, Text.intercalate_cons, List.map_map, labelRest]
  rfl

theorem opensWith_labelRest (g : Graph δ) (ids : List TypeId) :
    Text.OpensWith [' '] (g.labelRest ids) := by
  cases ids with
  | nil => simp [Text.OpensWith, labelRest]
  | cons m ms =>
    rw [labelRest_cons]
    simp [Text.OpensWith, Vocabulary.unionSeparator]

/-- All that makes labels of plain types what they are. -/
structure Legible (g : Graph δ) (declared : List TypeId) : Prop extends g.Regular declared where
  items : g.ItemsLabelled

namespace Legible

variable {declared : List TypeId} {g : Graph δ}

theorem display_builtin (h : g.Legible declared) {id : TypeId}
    (known : id ∈ plainBuiltins.map Prod.fst) :
    ∃ label, (id, label) ∈ plainBuiltins ∧ g.display id = label ∧ Text.IsWord label := by
  have hwords : ∀ entry ∈ plainBuiltins, Text.IsWord entry.2 := by
    simp [plainBuiltins, Text.IsWord]
  obtain ⟨⟨id, label⟩, hentry, rfl⟩ := List.mem_map.1 known
  exact ⟨label, hentry, h.toRegular.display_builtin hentry, hwords _ hentry⟩

theorem isAtomic (h : g.Legible declared) {id : TypeId} (hid : g.Atomic id) :
    Text.IsAtomic (g.display id) := by
  rcases hid with known | ⟨value, hnode⟩
  · obtain ⟨label, -, hlabel, hword⟩ := h.display_builtin known
    rw [hlabel]
    exact .word hword
  · rw [h.labelled.display_literal hnode]
    exact .quoted value

/-- Types without parts are told apart by their labels. -/
theorem atomic_unique (h : g.Legible declared) {a b : TypeId} (ha : g.Atomic a) (hb : g.Atomic b)
    (hab : g.display a = g.display b) : a = b := by
  have hmixed : ∀ {id id' : TypeId} {value : String}, id ∈ plainBuiltins.map Prod.fst →
      g.node? id' = some (.literal value) → g.display id' ≠ g.display id := by
    intro id id' value known hnode hsame
    obtain ⟨label, -, hlabel, hword⟩ := h.display_builtin known
    rw [hlabel, h.labelled.display_literal hnode] at hsame
    exact Text.quoted_append_ne_word_append hword "" "" (congrArg (· ++ "") hsame)
  rcases ha with hknown | ⟨value, hnode⟩ <;> rcases hb with hknown' | ⟨value', hnode'⟩
  · obtain ⟨label, hentry, hlabel, -⟩ := h.display_builtin hknown
    obtain ⟨label', hentry', hlabel', -⟩ := h.display_builtin hknown'
    rw [hlabel, hlabel'] at hab
    have hnodup : (plainBuiltins.map Prod.snd).Nodup := by decide
    exact congrArg Prod.fst (List.inj_on_of_nodup_map hnodup hentry hentry' hab)
  · exact absurd hab.symm (hmixed hknown hnode')
  · exact absurd hab (hmixed hknown' hnode)
  · rw [h.labelled.display_literal hnode, h.labelled.display_literal hnode', Text.quoted_inj] at hab
    subst hab
    exact h.sound.id_unique (h.sound.mem_shared_of_node? hnode rfl rfl)
      (h.sound.mem_shared_of_node? hnode' rfl rfl)

/-- Simple types are told apart by their labels even if a separator and other text follows. -/
theorem simple_append_inj (h : g.Legible declared) {a b : TypeId} {rest rest' : String}
    (ha : g.Simple a) (hb : g.Simple b) (hrest : Text.OpensWith [' '] rest)
    (hrest' : Text.OpensWith [' '] rest') (hab : g.display a ++ rest = g.display b ++ rest') :
    a = b ∧ rest = rest' := by
  obtain ⟨base, n, hbase, hover⟩ := ha
  obtain ⟨base', n', hbase', hover'⟩ := hb
  have hopens : ∀ {n : ℕ} {rest : String}, Text.OpensWith [' '] rest →
      Text.OpensWith ['[', ' '] (Text.brackets n ++ rest) := fun hrest =>
    ((Text.opensWith_brackets _).mono (by simp)).append (hrest.mono (by simp))
  rw [hover.display_eq h.items, hover'.display_eq h.items, String.append_assoc,
    String.append_assoc] at hab
  obtain ⟨hlabel, hbehind⟩ := (h.isAtomic hbase).append_inj (h.isAtomic hbase') (hopens hrest)
    (hopens hrest') hab
  obtain rfl := h.atomic_unique hbase hbase' hlabel
  obtain ⟨rfl, rfl⟩ := Text.brackets_append_inj hrest hrest' hbehind
  exact ⟨hover.unique h.sound hover', rfl⟩

/-- The simple types behind the first member of a union are told apart by what is shown of them. -/
theorem labelRest_inj (h : g.Legible declared) {ids ids' : List TypeId}
    (hids : ∀ m ∈ ids, g.Simple m) (hids' : ∀ m ∈ ids', g.Simple m)
    (hsame : g.labelRest ids = g.labelRest ids') : ids = ids' := by
  induction ids generalizing ids' with
  | nil =>
    cases ids' with
    | nil => rfl
    | cons m' ms' => simp [labelRest, Vocabulary.unionSeparator] at hsame
  | cons m ms ih =>
    cases ids' with
    | nil => simp [labelRest, Vocabulary.unionSeparator] at hsame
    | cons m' ms' =>
      rw [labelRest_cons, labelRest_cons, String.append_right_inj] at hsame
      obtain ⟨rfl, hrest⟩ := h.simple_append_inj (hids m List.mem_cons_self)
        (hids' m' List.mem_cons_self) (g.opensWith_labelRest ms) (g.opensWith_labelRest ms') hsame
      rw [ih (fun x hx => hids x (List.mem_cons_of_mem _ hx))
        (fun x hx => hids' x (List.mem_cons_of_mem _ hx)) hrest]

end Legible

/-- A plain type is simple, or it is the union of several simple types. -/
theorem Plain.cases {declared : List TypeId} {g : Graph δ} (hs : g.Sound declared) {id : TypeId}
    (h : g.Plain id) :
    g.Simple id ∨ ∃ m ms, ms ≠ [] ∧ g.node? id = some (.union (m :: ms)) ∧
      ∀ x ∈ m :: ms, g.Simple x := by
  induction h with
  | builtin known => exact .inl ⟨_, 0, .inl known, .base⟩
  | literal node => exact .inl ⟨_, 0, .inr ⟨_, node⟩, .base⟩
  | @array id item node single _ ih =>
    rcases ih with ⟨base, n, hbase, hover⟩ | ⟨m, ms, -, hunion, -⟩
    · exact .inl ⟨base, n + 1, hbase, .array node hover⟩
    · exact absurd (by rw [kind?, hunion]; rfl) single
  | @union id members node _ ih =>
    obtain ⟨hlength, -, hleaf⟩ := hs.union node
    rcases members with _ | ⟨m, _ | ⟨m', ms⟩⟩
    · -- the union of no types is one of the nine
      have hnever : (Node.union [], TypeId.never) ∈ g.shared := hs.foundation (by decide)
      obtain rfl := hs.id_unique (hs.mem_shared_of_node? node rfl rfl) hnever
      exact .inl ⟨.never, 0, .inl (by decide), .base⟩
    · exact absurd rfl hlength
    · refine .inr ⟨m, m' :: ms, by simp, node, fun x hx => ?_⟩
      rcases ih x hx with hsimple | ⟨y, ys, -, hunion, -⟩
      · exact hsimple
      · obtain ⟨node', hnode', hmembers⟩ := (hleaf x hx).2
        obtain rfl := Option.some.inj (hunion.symm.trans hnode')
        cases hmembers

/-- The label of a plain type shows simple types one after the other: the type itself, or the
members of a union. -/
theorem Legible.exists_parts {declared : List TypeId} {g : Graph δ} (h : g.Legible declared)
    {id : TypeId} (hid : g.Plain id) :
    ∃ m ms, (∀ x ∈ m :: ms, g.Simple x) ∧ g.display id = g.display m ++ g.labelRest ms ∧
      (ms = [] ∧ id = m ∨ ms ≠ [] ∧ g.node? id = some (.union (m :: ms))) := by
  rcases hid.cases h.sound with hsimple | ⟨m, ms, hne, hunion, hsimple⟩
  · exact ⟨id, [], by simpa using hsimple, by simp [labelRest], .inl ⟨rfl, rfl⟩⟩
  · refine ⟨m, ms, hsimple, ?_, .inr ⟨hne, hunion⟩⟩
    obtain ⟨⟨label, _⟩, hslot, rfl⟩ := node?_eq_some_iff.1 hunion
    have hlabel : label = g.unionLabel (m :: ms) :=
      (h.labelled id _ hslot).trans (if_neg (List.cons_ne_nil m ms))
    rw [display_of_slot? hslot, hlabel, unionLabel_cons]

/-- Plain types are told apart by their labels. -/
theorem Legible.plain_unique {declared : List TypeId} {g : Graph δ} (h : g.Legible declared)
    {a b : TypeId} (ha : g.Plain a) (hb : g.Plain b) (hab : g.display a = g.display b) : a = b := by
  obtain ⟨m, ms, hsimple, hlabel, hparts⟩ := h.exists_parts ha
  obtain ⟨m', ms', hsimple', hlabel', hparts'⟩ := h.exists_parts hb
  rw [hlabel, hlabel'] at hab
  obtain ⟨rfl, hrest⟩ := h.simple_append_inj (hsimple m List.mem_cons_self)
    (hsimple' m' List.mem_cons_self) (g.opensWith_labelRest ms) (g.opensWith_labelRest ms') hab
  obtain rfl := h.labelRest_inj (fun x hx => hsimple x (List.mem_cons_of_mem _ hx))
    (fun x hx => hsimple' x (List.mem_cons_of_mem _ hx)) hrest
  rcases hparts with ⟨hnil, rfl⟩ | ⟨hne, hunion⟩ <;>
    rcases hparts' with ⟨hnil', rfl⟩ | ⟨hne', hunion'⟩
  · rfl
  · exact absurd hnil hne'
  · exact absurd hnil' hne
  · exact h.sound.id_unique (h.sound.mem_shared_of_union hunion)
      (h.sound.mem_shared_of_union hunion')

end Graph

namespace Run

variable [Deferral δ]

theorem legible {ops : List (Operation (Edge δ) TypeId)} (hops : (start : Run δ).Grounded ops) :
    ((start : Run δ).after ops).graph.Legible ((start : Run δ).after ops).declared :=
  ⟨regular ops, itemsLabelled hops⟩

/-- After a grounded run, two types that are made without objects are the same if their labels are
the same. -/
theorem display_unambiguous {ops : List (Operation (Edge δ) TypeId)}
    (hops : (start : Run δ).Grounded ops) (a b : TypeId) :
    let g := ((start : Run δ).after ops).graph
    g.Plain a → g.Plain b → g.display a = g.display b → a = b := by
  intro g ha hb hab
  exact (legible hops).plain_unique ha hb hab

/-- The union of an array of arrays and a literal, and a literal whose value is the text of that
label between its quotes. -/
theorem display_unambiguous_of_separator_in_value :
    let ops : List (Operation (Edge Recipe) TypeId) :=
      [.make (.literal "a"), .make (.literal "b"), .make (.array (.direct ⟨11⟩)),
       .make (.array (.direct ⟨13⟩)), .make (.union [.direct ⟨14⟩, .direct ⟨12⟩]),
       .make (.literal "a'[][] | 'b")]
    let g := ((start : Run Recipe).after ops).graph
    (start : Run Recipe).Grounded ops ∧ g.Plain ⟨15⟩ ∧ g.Plain ⟨16⟩ ∧
      g.display ⟨15⟩ ≠ g.display ⟨16⟩ := by
  intro ops g
  have hops : (start : Run Recipe).Grounded ops := by
    simp only [ops, Grounded, perform, graph_start, Graph.fresh_eq]
    decide
  have hnodes : g.node? ⟨11⟩ = some (.literal "a") ∧ g.node? ⟨12⟩ = some (.literal "b") ∧
      g.node? ⟨13⟩ = some (.array (some ⟨11⟩)) ∧ g.node? ⟨14⟩ = some (.array (some ⟨13⟩)) ∧
      g.node? ⟨15⟩ = some (.union [⟨14⟩, ⟨12⟩]) ∧
      g.node? ⟨16⟩ = some (.literal "a'[][] | 'b") := by
    simp only [g, ops, after_cons, after_nil, perform, graph_start, Graph.fresh_eq]
    exact ⟨rfl, rfl, rfl, rfl, rfl, rfl⟩
  obtain ⟨ha, hb, has, hass, hunion, htext⟩ := hnodes
  have hnested : g.Plain ⟨14⟩ :=
    .array hass (by simp [Graph.kind?, has, Node.kind])
      (.array has (by simp [Graph.kind?, ha, Node.kind]) (.literal ha))
  have hplain : g.Plain ⟨15⟩ := .union hunion (by simpa using ⟨hnested, .literal hb⟩)
  have hvalue : g.Plain ⟨16⟩ := .literal htext
  refine ⟨hops, hplain, hvalue, fun hsame => ?_⟩
  exact absurd (display_unambiguous hops ⟨15⟩ ⟨16⟩ hplain hvalue hsame) (by decide)

end Run

end TypeGraph
