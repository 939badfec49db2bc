import TypeGraph.Proofs.Grounding

/-!
# Labels of arrays

An array is labelled after its item when it is made, and found by its item alone when it is asked
for again. The item need not be there when the array is made. Such an array is labelled after an
invalid id, and it keeps this label when the item comes into being later on.

* `Graph.ArraysLabelled`: the label of an array tells whether its item is older than the array.
* `Graph.Regular`: what holds after every run (`Run.regular`), the labels of arrays included.
* `Graph.HoldsEarlyArray`, `Run.AsksEarly`: an array is there that is not younger than its item, and
  an array is asked for while its item is not there. The one is brought about by the other and by
  nothing else (`Run.holdsEarlyArray_after`).
-/

namespace TypeGraph

variable {δ : Type}

/-- The nine types without parts that every graph holds, with their labels. -/
def plainBuiltins : List (TypeId × String) :=
  [(.any, "any"), (.string, "string"), (.object, "object"), (.int, "int"), (.bool, "bool"),
   (.array, "array"), (.null, "null"), (.resource, "resource"), (.never, "never")]

theorem index_lt_of_mem_plainBuiltins {id : TypeId} {label : String}
    (h : (id, label) ∈ plainBuiltins) : id.index < 11 := by
  have hindex : ∀ entry ∈ plainBuiltins, entry.1.index < 11 := by decide
  exact hindex _ h

/-- What is shown of an id at which there is no type. -/
def TypeId.invalidText (id : TypeId) : String := "InvalidType(" ++ toString id.index ++ ")"

namespace Graph

theorem display_of_size_le {g : Graph δ} {id : TypeId} (h : g.size ≤ id.index) :
    g.display id = id.invalidText := by
  rw [display, slot?_eq_none_iff.2 h, TypeId.invalidText]

/-- The fresh graph holds no array of items of one type. -/
theorem foundationSlots_ne_array (i : ℕ) (label : String) (item : TypeId) :
    (foundationSlots : Array (Slot δ))[i]? ≠ some ⟨label, .array (some item)⟩ := by
  intro hslot
  have hi : i < 11 := (Array.getElem?_eq_some_iff.1 hslot).1
  interval_cases i <;> cases hslot

/-! ### The label of an array -/

/-- An array is labelled after its item if the item is older, and after an invalid id otherwise. -/
def ArraysLabelled (g : Graph δ) : Prop :=
  ∀ (id : TypeId) (label : String) (item : TypeId),
    g.slot? id = some ⟨label, .array (some item)⟩ →
      label = (if item.index < id.index then g.display item else item.invalidText) ++ "[]"

namespace ArraysLabelled

variable {declared : List TypeId} {g g' : Graph δ}

theorem fresh : (Graph.fresh : Graph δ).ArraysLabelled := by
  intro id label item hslot
  rw [fresh_eq] at hslot
  exact absurd hslot (foundationSlots_ne_array _ _ _)

/-- An array of a later graph was there before, or it takes the next free id and is labelled after
what is shown of its item. -/
theorem of_slots (h : g.ArraysLabelled) (hext : g.Extends g')
    (hslots : ∀ id label item, g'.slot? id = some ⟨label, .array (some item)⟩ →
      g.slot? id = some ⟨label, .array (some item)⟩ ∨
        (id = ⟨g.size⟩ ∧ label = g.display item ++ "[]")) : g'.ArraysLabelled := by
  intro id label item hslot
  rcases hslots id label item hslot with hold | ⟨rfl, rfl⟩
  · rw [h id label item hold]
    split_ifs with hlt
    · rw [hext.display_eq (lt_trans hlt (index_lt_of_slot? hold))]
    · rfl
  · split_ifs with hlt
    · rw [hext.display_eq hlt]
    · rw [display_of_size_le (not_lt.1 hlt)]

theorem growth (h : g.ArraysLabelled) (hstep : Growth g g') : g'.ArraysLabelled := by
  have hnew : ∀ {slot}, slot.Fits g → ∀ id label item,
      (g.push slot).slot? id = some ⟨label, .array (some item)⟩ →
      g.slot? id = some ⟨label, .array (some item)⟩ ∨
        (id = ⟨g.size⟩ ∧ label = g.display item ++ "[]") := by
    rintro slot fits ⟨i⟩ label item hslot
    rw [slot?_push] at hslot
    split_ifs at hslot with hi
    · obtain rfl := Option.some.inj hslot
      exact .inr ⟨congrArg TypeId.mk hi, fits⟩
    · exact .inl hslot
  refine h.of_slots (.of_growth hstep) ?_
  cases hstep with
  | share fits direct unknown => exact hnew fits
  | push fits unshared => exact hnew fits
  | register name id => exact fun _ _ _ hslot => .inl hslot

theorem declare (h : g.ArraysLabelled) (name : String) : (g.declare name).ArraysLabelled := by
  refine h.of_slots (.of_push (fun _ => rfl) (.inl rfl)) fun id label item hslot => ?_
  rcases node?_push_cases (node?_eq_some_iff.2 ⟨_, hslot, rfl⟩) with ⟨-, hnode⟩ | hold
  · cases hnode
  · left
    rwa [← slot?_push_of_lt (index_lt_of_node? hold)]

theorem define (h : g.ArraysLabelled) (hs : g.Sound declared) {id : TypeId} (hid : id ∈ g.pending)
    (body : Body (Edge δ)) : (g.define id body).ArraysLabelled := by
  refine h.of_slots (hs.extends_define hid body) fun x label item hslot => ?_
  rw [slot?_define] at hslot
  split_ifs at hslot
  · obtain ⟨old, -, hnew⟩ := Option.map_eq_some_iff.1 hslot
    cases hnew
  · exact .inl hslot

end ArraysLabelled

/-- What holds of every graph that a run leads to. -/
structure Regular (g : Graph δ) (declared : List TypeId) : Prop where
  sound : g.Sound declared
  labelled : g.Labelled
  arrays : g.ArraysLabelled
  fresh : (Graph.fresh : Graph δ).Later g

namespace Regular

variable {declared : List TypeId} {g g' : Graph δ}

theorem start : (Graph.fresh : Graph δ).Regular [] :=
  ⟨.fresh, .fresh, .fresh, .refl _⟩

theorem growth (h : g.Regular declared) (hstep : Growth g g') : g'.Regular declared :=
  ⟨h.sound.growth hstep, h.labelled.growth h.sound hstep, h.arrays.growth hstep,
    h.fresh.trans (.of_growth hstep)⟩

theorem declare (h : g.Regular declared) (name : String) :
    (g.declare name).Regular (⟨g.size⟩ :: declared) :=
  ⟨h.sound.declare name, h.labelled.declare h.sound name, h.arrays.declare name,
    h.fresh.trans (.declare g name)⟩

theorem define (h : g.Regular declared) {id : TypeId} (hid : id ∈ g.pending)
    (body : Body (Edge δ)) : (g.define id body).Regular declared :=
  ⟨h.sound.define hid body, h.labelled.define h.sound hid body, h.arrays.define h.sound hid body,
    h.fresh.trans (.define hid body)⟩

theorem grows (h : g.Regular declared) (hgrows : Grows g g') : g'.Regular declared :=
  Grows.preserves (P := fun g => g.Regular declared) (fun h hstep => h.growth hstep) hgrows h

theorem slot?_literal (h : g.Regular declared) {id : TypeId} {value : String}
    (hentry : (.literal value, id) ∈ g.shared) :
    g.slot? id = some ⟨Text.quoted value, .literal value⟩ :=
  h.labelled.slot?_literal (h.sound.node?_of_shared hentry)

theorem slot?_named (h : g.Regular declared) {id : TypeId} {name : String} {body : Body TypeId}
    (hentry : (.named name body, id) ∈ g.shared) :
    g.slot? id = some ⟨name, .named name (body.map .direct)⟩ :=
  h.labelled.slot?_named (h.sound.node?_of_shared hentry)

theorem display_builtin (h : g.Regular declared) {id : TypeId} {label : String}
    (known : (id, label) ∈ plainBuiltins) : g.display id = label := by
  rw [display, h.fresh.slot?_of_lt_eleven (index_lt_of_mem_plainBuiltins known)]
  simp only [plainBuiltins, List.mem_cons, Prod.mk.injEq, List.not_mem_nil, or_false] at known
  rcases known with ⟨rfl, rfl⟩ | ⟨rfl, rfl⟩ | ⟨rfl, rfl⟩ | ⟨rfl, rfl⟩ | ⟨rfl, rfl⟩ | ⟨rfl, rfl⟩ |
    ⟨rfl, rfl⟩ | ⟨rfl, rfl⟩ | ⟨rfl, rfl⟩ <;> rfl

/-- An array of one of the nine types is younger than it, and so it is labelled after it. -/
theorem slot?_array (h : g.Regular declared) {id item : TypeId} {name : String}
    (known : (item, name) ∈ plainBuiltins) (hentry : (.array (some item), id) ∈ g.shared) :
    g.slot? id = some ⟨name ++ "[]", .array (some item)⟩ := by
  have hitem := index_lt_of_mem_plainBuiltins known
  obtain ⟨⟨label, _⟩, hslot, rfl⟩ := node?_eq_some_iff.1 (h.sound.node?_of_shared hentry)
  have hid : 11 ≤ id.index := by
    by_contra hlt
    rw [h.fresh.slot?_of_lt_eleven (not_le.1 hlt)] at hslot
    exact foundationSlots_ne_array _ _ _ hslot
  rw [hslot, h.arrays id label item hslot, if_pos (lt_of_lt_of_le hitem hid),
    h.display_builtin known]
  rfl

end Regular

/-! ### Arrays that are not younger than their items -/

/-- An array of the type is there that is not younger than the type. -/
def HoldsEarlyArray (g : Graph δ) (item : TypeId) : Prop :=
  ∃ id, g.node? id = some (.array (some item)) ∧ id.index ≤ item.index

end Graph

/-- Grounded changes make arrays of older items only. -/
theorem GrowsGrounded.array_cases {g g' : Graph δ} (h : GrowsGrounded g g') {id item : TypeId}
    (hnode : g'.node? id = some (.array (some item))) :
    g.node? id = some (.array (some item)) ∨ item.index < id.index := by
  induction h with
  | refl => exact .inl hnode
  | @tail g₁ g₂ _ hstep ih =>
    obtain ⟨hgrowth, hcovers⟩ := hstep
    have hpush : ∀ {slot : Slot δ}, g₂.slot? ⟨g₁.size⟩ = some slot →
        (g₁.push slot).node? id = some (.array (some item)) →
        g₁.node? id = some (.array (some item)) ∨ item.index < id.index := by
      intro slot hslot hnode
      rcases Graph.node?_push_cases hnode with ⟨rfl, hnew⟩ | hold
      · exact .inr (hcovers slot hslot item (by simp [hnew, Node.targets]))
      · exact .inl hold
    have hbefore : g₁.node? id = some (.array (some item)) ∨ item.index < id.index := by
      cases hgrowth with
      | share fits direct unknown => exact hpush (g₁.slot?_push_size _) hnode
      | push fits unshared => exact hpush (g₁.slot?_push_size _) hnode
      | register name x => exact .inl hnode
    exact hbefore.elim ih .inr

/-- A type that is placed takes the next free id if it is new. -/
theorem Build.node?_place_cases {slot : Slot δ} {g : Graph δ} {id : TypeId} {node : Node (Edge δ)}
    (h : (place slot g).graph.node? id = some node) :
    g.node? id = some node ∨ (id = ⟨g.size⟩ ∧ slot.node = node) := by
  cases hdirect : slot.node.direct? with
  | none =>
    rw [place_of_unshared hdirect] at h
    exact (Graph.node?_push_cases h).symm
  | some key =>
    cases hlookup : g.shared.lookup key with
    | some known =>
      rw [place_of_known hdirect hlookup] at h
      exact .inl h
    | none =>
      rw [place_of_new hdirect hlookup] at h
      exact (Graph.node?_push_cases h).symm

variable [Deferral δ]

/-- An array is found under its item once it is made. -/
theorem Graph.Sound.array {declared : List TypeId} {g : Graph δ} (h : g.Sound declared)
    (item : Edge δ) :
    (Build.array item).Yields g declared fun id g' =>
      (.array (some (g.resolve item)), id) ∈ g'.shared := by
  refine .congr (h.place ?_ rfl) (Build.array_apply item g)
  exact rfl

/-- The operation asks for an array of the type, and the type is not there. -/
def Operation.AsksEarly (g : Graph δ) (item : TypeId) : Operation (Edge δ) TypeId → Prop
  | make (.array e) => g.resolve e = item ∧ g.size ≤ item.index
  | _ => False

instance (g : Graph δ) (item : TypeId) : DecidablePred (Operation.AsksEarly g item)
  | .make (.array e) => inferInstanceAs (Decidable (g.resolve e = item ∧ g.size ≤ item.index))
  | .make (.literal _) | .make (.object _ _) | .make (.named _ _ _ _) | .make (.union _)
  | .make (.discriminated _ _ _) | .make (.modifier _) | .make (.resource _) => .isFalse id
  | .declare _ | .define _ _ _ _ | .register _ _ | .registered _ | .variants _ _ _
  | .modifierProperties _ | .resourceProperties _ | .same _ _ | .edge _ | .inspect _ _
  | .query _ => .isFalse id

theorem Operation.AsksEarly.exists_array {g : Graph δ} {item : TypeId}
    {op : Operation (Edge δ) TypeId} (h : op.AsksEarly g item) :
    ∃ e, op = .make (.array e) ∧ g.resolve e = item ∧ g.size ≤ item.index := by
  cases op with
  | make c =>
    cases c with
    | array e => exact ⟨e, rfl, h⟩
    | _ => cases h
  | _ => cases h

namespace Run

/-- Runs keep a graph regular. -/
theorem regular_after {r : Run δ} (h : r.graph.Regular r.declared)
    (ops : List (Operation (Edge δ) TypeId)) :
    (r.after ops).graph.Regular (r.after ops).declared :=
  after_induction (P := fun declared g => g.Regular declared) (fun h hstep => h.growth hstep)
    (fun name h => h.declare name) (fun body h hid => h.define hid body) h ops

theorem regular (ops : List (Operation (Edge δ) TypeId)) :
    ((start : Run δ).after ops).graph.Regular ((start : Run δ).after ops).declared := by
  refine regular_after ?_ ops
  rw [graph_start, declared_start]
  exact Graph.Regular.start

/-- An operation makes an array of an older item, unless it asks for an array too early. -/
theorem array_of_perform {r : Run δ} (hs : r.graph.Sound r.declared)
    {op : Operation (Edge δ) TypeId} {id item : TypeId}
    (hnode : (r.perform op).graph.node? id = some (.array (some item))) :
    r.graph.node? id = some (.array (some item)) ∨ item.index < id.index ∨
      op.AsksEarly r.graph item := by
  -- most operations make grounded changes, whatever the references in them
  have hgrounded (hop : op.isTwoStep = false) (h : op.Grounded r.graph) :
      r.graph.node? id = some (.array (some item)) ∨ item.index < id.index ∨
        op.AsksEarly r.graph item :=
    (GrowsGrounded.array_cases (Operation.growsGrounded_run hs hop h) hnode).imp_right .inl
  cases op with
  | make c =>
    rw [graph_perform_make] at hnode
    cases c with
    | array e =>
      rcases Build.node?_place_cases hnode with hold | ⟨rfl, hnew⟩
      · exact .inl hold
      · have hitem : r.graph.resolve e = item := by simpa using hnew
        right
        exact (lt_or_ge item.index r.graph.size).imp_right fun hge => ⟨hitem, hge⟩
    | object ps additional =>
      rcases Build.node?_place_cases hnode with hold | ⟨-, hnew⟩
      · exact .inl hold
      · cases hnew
    | named name ps additional flags =>
      rcases Build.node?_place_cases hnode with hold | ⟨-, hnew⟩
      · exact .inl hold
      · cases hnew
    | _ => exact hgrounded rfl trivial
  | declare name =>
    rw [graph_perform_declare] at hnode
    rcases Graph.node?_push_cases hnode with ⟨-, hnew⟩ | hold
    · cases hnew
    · exact .inl hold
  | define x ps additional flags =>
    left
    by_cases hx : x ∈ r.graph.pending
    · rw [graph_perform_define r hx] at hnode
      by_cases hid : id = x
      · subst hid
        obtain ⟨slot, hslot, hnew⟩ := Graph.node?_eq_some_iff.1 hnode
        rw [Graph.slot?_define, if_pos rfl] at hslot
        obtain ⟨old, -, rfl⟩ := Option.map_eq_some_iff.1 hslot
        cases hnew
      · rwa [Graph.node?_define_of_ne hid] at hnode
    · rwa [perform, Operation.run_define_of_not_pending hx] at hnode
  | _ => exact hgrounded rfl trivial

/-- One operation brings an early array about if and only if it asks for it. -/
theorem holdsEarlyArray_perform {r : Run δ} (hs : r.graph.Sound r.declared)
    (op : Operation (Edge δ) TypeId) (item : TypeId) :
    (r.perform op).graph.HoldsEarlyArray item ↔
      r.graph.HoldsEarlyArray item ∨ op.AsksEarly r.graph item := by
  obtain ⟨hs', hext⟩ := sound_after hs [op]
  constructor
  · rintro ⟨id, hnode, hle⟩
    rcases array_of_perform hs hnode with hold | hlt | hasks
    · exact .inl ⟨id, hold, hle⟩
    · omega
    · exact .inr hasks
  · rintro (⟨id, hnode, hle⟩ | hasks)
    · have hentry := hext.mem_shared (hs.mem_shared_of_node? hnode rfl rfl)
      exact ⟨id, hs'.node?_of_shared hentry, hle⟩
    · obtain ⟨e, rfl, rfl, hge⟩ := hasks.exists_array
      obtain ⟨id, g, events, harray, hs₁, -, hentry⟩ := hs.array e
      have hnode := hs₁.node?_of_shared hentry
      have hgraph : (r.perform (.make (.array e))).graph = g := by
        rw [graph_perform_make, Construction.build, harray]
      rw [hgraph]
      refine ⟨id, hnode, ?_⟩
      -- the array has the next free id or an older one
      rw [← hgraph, graph_perform_make] at hnode
      rcases Build.node?_place_cases hnode with hold | ⟨rfl, -⟩
      · have hlt := Graph.index_lt_of_node? hold
        omega
      · exact hge

/-- Going on with the operations, an array of the type is asked for while the type is not there. -/
def AsksEarly : Run δ → List (Operation (Edge δ) TypeId) → TypeId → Prop
  | _, [], _ => False
  | r, op :: ops, item => op.AsksEarly r.graph item ∨ (r.perform op).AsksEarly ops item

instance decidableAsksEarly (r : Run δ) :
    (ops : List (Operation (Edge δ) TypeId)) → (item : TypeId) → Decidable (r.AsksEarly ops item)
  | [], _ => .isFalse id
  | op :: ops, item =>
    have := decidableAsksEarly (r.perform op) ops item
    inferInstanceAs (Decidable (op.AsksEarly r.graph item ∨ (r.perform op).AsksEarly ops item))

/-- The early arrays after a run are those that were there before and those that the run asks
for. -/
theorem holdsEarlyArray_after {r : Run δ} (hs : r.graph.Sound r.declared)
    (ops : List (Operation (Edge δ) TypeId)) (item : TypeId) :
    (r.after ops).graph.HoldsEarlyArray item ↔
      r.graph.HoldsEarlyArray item ∨ r.AsksEarly ops item := by
  induction ops generalizing r with
  | nil => simp [AsksEarly]
  | cons op ops ih =>
    have hs' : (r.perform op).graph.Sound (r.perform op).declared := (sound_after hs [op]).1
    rw [after_cons, ih hs', holdsEarlyArray_perform hs, AsksEarly, or_assoc]

/-- In the fresh graph there is no array of items of one type. -/
theorem holdsEarlyArray_iff (ops : List (Operation (Edge δ) TypeId)) (item : TypeId) :
    ((start : Run δ).after ops).graph.HoldsEarlyArray item ↔
      (start : Run δ).AsksEarly ops item := by
  have hfresh : ¬ (start : Run δ).graph.HoldsEarlyArray item := by
    rintro ⟨id, hnode, -⟩
    rw [graph_start, Graph.fresh_eq] at hnode
    obtain ⟨⟨label, _⟩, hslot, rfl⟩ := Graph.node?_eq_some_iff.1 hnode
    exact Graph.foundationSlots_ne_array _ _ _ hslot
  have hs : (start : Run δ).graph.Sound (start : Run δ).declared := sound []
  rw [holdsEarlyArray_after hs, or_iff_right hfresh]

/-- An array of a type that is there, made at any point of a run, is an array with this item. It is
labelled after the item, unless the run has asked for it before the item was there: then it has the
label that it got at that time. -/
theorem arrays_named_after_items (ops : List (Operation (Edge δ) TypeId)) (item : Edge δ) :
    let r := (start : Run δ).after ops
    let x := r.graph.resolve item
    let made := Build.array item r.graph
    x.index < r.graph.size →
    ∃ id label, made.result = .ok id ∧ made.graph.slot? id = some ⟨label, .array (some x)⟩ ∧
      (¬ (start : Run δ).AsksEarly ops x → label = made.graph.display x ++ "[]") ∧
      ((start : Run δ).AsksEarly ops x → label = "InvalidType(" ++ toString x.index ++ ")[]") := by
  intro r x made hx
  have hs : r.graph.Sound r.declared := sound ops
  obtain ⟨id, g, events, hmade, hs', hext, hentry⟩ := hs.array item
  have hgraph : made.graph = g := congrArg Outcome.graph hmade
  have hnode := hs'.node?_of_shared hentry
  have hlabelled : g.ArraysLabelled := by
    rw [← hgraph]
    exact ((regular ops).grows (Build.grows_array item r.graph)).arrays
  obtain ⟨⟨label, node⟩, hslot, rfl⟩ := Graph.node?_eq_some_iff.1 hnode
  have hlabel := hlabelled id label x hslot
  rw [← holdsEarlyArray_iff, hgraph]
  refine ⟨id, label, congrArg Outcome.result hmade, hslot, fun hlate => ?_, ?_⟩
  · have hlt : x.index < id.index := by
      by_contra hle
      rw [← hgraph] at hnode
      rcases Build.node?_place_cases hnode with hold | ⟨rfl, -⟩
      · exact hlate ⟨id, hold, not_lt.1 hle⟩
      · exact hle hx
    rw [hlabel, if_pos hlt]
  · rintro ⟨early, hearly, hle⟩
    -- there is one array of the item only
    obtain rfl := hs'.id_unique (hext.mem_shared (hs.mem_shared_of_node? hearly rfl rfl)) hentry
    rw [hlabel, if_neg (not_lt.2 hle)]
    simp [TypeId.invalidText, String.append_assoc]

/-- The array of an object that was pending when the array was made, asked for again after the
object was defined to mention it. -/
theorem arrays_named_after_items_across_definition :
    let ops : List (Operation (Edge Recipe) TypeId) :=
      [.declare "A", .make (.array (.direct ⟨11⟩)), .make (.array (.direct ⟨12⟩)),
       .define ⟨11⟩ [⟨"all", .direct ⟨12⟩, .none⟩] none .none]
    let r := (start : Run Recipe).after ops
    let made := Build.array (.direct ⟨11⟩) r.graph
    (⟨11⟩ : TypeId).index < r.graph.size ∧ ¬ (start : Run Recipe).AsksEarly ops ⟨11⟩ ∧
      ∃ id, made.result = .ok id ∧ made.graph.slot? id = some ⟨"A[]", .array (some ⟨11⟩)⟩ := by
  intro ops r made
  have hgraph : r.graph.size = 14 ∧ made.graph.display ⟨11⟩ = "A" := by
    simp only [made, r, ops, after_cons, after_nil, perform, graph_start, Graph.fresh_eq]
    exact ⟨rfl, rfl⟩
  have hlt : (⟨11⟩ : TypeId).index < r.graph.size := by
    rw [hgraph.1]
    decide
  have hlate : ¬ (start : Run Recipe).AsksEarly ops ⟨11⟩ := by
    simp only [ops, AsksEarly, perform, graph_start, Graph.fresh_eq]
    decide
  obtain ⟨id, label, hid, hslot, hlabel, -⟩ := arrays_named_after_items ops (.direct ⟨11⟩) hlt
  have hname : label = "A[]" := (hlabel hlate).trans (congrArg (· ++ "[]") hgraph.2)
  exact ⟨hlt, hlate, id, hid, hname ▸ hslot⟩

/-- An array of an id at which an object is declared only later. Asked for again it is found, and it
is not labelled after the object. -/
theorem array_not_named_after_later_item :
    let ops : List (Operation (Edge Recipe) TypeId) := [.make (.array (.direct ⟨12⟩)), .declare "A"]
    let r := (start : Run Recipe).after ops
    let made := Build.array (.direct ⟨12⟩) r.graph
    (⟨12⟩ : TypeId).index < r.graph.size ∧ made.result = .ok ⟨11⟩ ∧
      made.graph.display ⟨11⟩ = "InvalidType(12)[]" ∧ made.graph.display ⟨12⟩ ++ "[]" = "A[]" := by
  intro ops r made
  simp only [made, r, ops, after_cons, after_nil, perform, graph_start, Graph.fresh_eq]
  exact ⟨by decide, rfl, rfl, rfl⟩

end Run

end TypeGraph
