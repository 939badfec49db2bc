import TypeGraph.Proofs.Properties
import TypeGraph.Proofs.Sharing
import TypeGraph.Recipe

/-!
# What objects are known by

An object is made from a list of properties that may give a name more than once. Only what comes out
of `Body.ofProperties` counts: each name at its first place, as it is given last
(`Body.property?_ofProperties`). An object that keeps a deferred edge takes an id of its own, and
any other is known by its name, its properties and its additional properties
(`Run.objects_known_by_settled_properties`).
-/

namespace TypeGraph

variable {δ : Type}

/-! ### Properties by name -/

namespace Property

variable {ε : Type}

theorem find?_insert (p : Property ε) (qs : List (Property ε)) (name : String) :
    (insert p qs).find? (fun q => q.name = name) =
      if p.name = name then some p else qs.find? fun q => q.name = name := by
  induction qs with
  | nil => by_cases h : p.name = name <;> simp [insert, h]
  | cons q qs ih =>
    rw [insert]
    by_cases hq : q.name = p.name
    · rw [if_pos hq]
      by_cases h : p.name = name
      · simp [h]
      · have hq' : q.name ≠ name := hq ▸ h
        simp [h, hq']
    · rw [if_neg hq, List.find?_cons, ih]
      by_cases h : q.name = name
      · have hp : p.name ≠ name := fun hp => hq (h.trans hp.symm)
        simp [h, hp]
      · simp [h]

theorem find?_distinct (ps : List (Property ε)) (name : String) :
    (distinct ps).find? (fun q => q.name = name) = ps.findRev? fun q => q.name = name := by
  induction ps using List.reverseRecOn with
  | nil => rfl
  | append_singleton ps p ih =>
    rw [distinct_concat, find?_insert, ih]
    by_cases h : p.name = name <;> simp [List.findRev?_eq_find?_reverse, h]

/-- Each property that is kept is the last one of its name. -/
theorem findRev?_of_mem_distinct {ps : List (Property ε)} {p : Property ε}
    (h : p ∈ distinct ps) : ps.findRev? (fun q => q.name = p.name) = some p := by
  rw [distinct_eq_settle] at h
  obtain ⟨name, hname, hp⟩ := List.mem_filterMap.1 h
  obtain ⟨q, -, hq, rfl⟩ := exists_findRev? (List.mem_eraseDups.1 hname)
  obtain rfl := Option.some.inj (hp.symm.trans hq)
  exact hq

end Property

namespace Body

/-- The property with a name is the one that is given last under it. -/
theorem property?_ofProperties {ε : Type} (ps : List (Property ε)) (additional : Option ε)
    (flags : Flags) (name : String) :
    (ofProperties ps additional flags).property? name = ps.findRev? fun p => p.name = name :=
  Property.find?_distinct ps name

/-- The names, targets and flags of the properties, in order. -/
def entries (body : Body (Edge δ)) : List (String × Option TypeId × Flags) :=
  body.properties.map fun p => (p.name, p.type.direct?, p.flags)

/-- Bodies whose edges are all direct are told apart by the targets of their edges. -/
theorem eq_iff_of_direct? {b₁ b₂ : Body (Edge δ)} {k₁ k₂ : Body TypeId} (h₁ : b₁.direct? = some k₁)
    (h₂ : b₂.direct? = some k₂) :
    k₁ = k₂ ↔ b₁.entries = b₂.entries ∧
      b₁.additional.map Edge.direct? = b₂.additional.map Edge.direct? ∧
      b₁.additionalFlags = b₂.additionalFlags := by
  obtain rfl := direct?_eq_some_iff.1 h₁
  obtain rfl := direct?_eq_some_iff.1 h₂
  have hentries (k : Body TypeId) : (k.map .direct : Body (Edge δ)).entries =
      k.properties.map fun p => (p.name, some p.type, p.flags) := by
    simp [entries, map, Property.map, Edge.direct?]
  have hadditional (k : Body TypeId) :
      (k.map .direct : Body (Edge δ)).additional.map Edge.direct? = k.additional.map some := by
    simp [map, Function.comp_def, Edge.direct?]
  have hentry : Function.Injective fun p : Property TypeId => (p.name, some p.type, p.flags) := by
    rintro ⟨name, type, flags⟩ ⟨name', type', flags'⟩ heq
    simpa using heq
  rw [hentries, hentries, hadditional, hadditional, (List.map_injective_iff.2 hentry).eq_iff,
    (Option.map_injective (Option.some_injective _)).eq_iff]
  cases k₁
  cases k₂
  simp [map]

end Body

/-! ### Making an object -/

/-- The object with a body, known by its name if it has one. -/
def Node.ofObject {ε : Type} (name : Option String) (body : Body ε) : Node ε :=
  match name with
  | none => .object body
  | some name => .named name body

theorem Node.ofObject_inj {ε : Type} {n₁ n₂ : Option String} {b₁ b₂ : Body ε} :
    ofObject n₁ b₁ = ofObject n₂ b₂ ↔ n₁ = n₂ ∧ b₁ = b₂ := by
  cases n₁ <;> cases n₂ <;> simp [ofObject]

theorem Node.direct?_ofObject (name : Option String) (body : Body (Edge δ)) :
    (ofObject name body).direct? = body.direct?.map (ofObject name) := by
  cases name <;> rfl

/-- The name and the body of the object that is made, if it is an object. -/
def Construction.object? : Construction (Edge δ) → Option (Option String × Body (Edge δ))
  | object properties additional => some (none, .ofProperties properties additional .none)
  | named name properties additional additionalFlags =>
    some (some name, .ofProperties properties additional additionalFlags)
  | _ => none

/-- The slot of an object. -/
def Slot.ofObject (name : Option String) (body : Body (Edge δ)) : Slot δ :=
  ⟨name.getD "object", .ofObject name body⟩

theorem Slot.direct?_ofObject (name : Option String) {body : Body (Edge δ)} {key : Body TypeId}
    (h : body.direct? = some key) :
    (Slot.ofObject name body).node.direct? = some (.ofObject name key) := by
  rw [ofObject, Node.direct?_ofObject, h, Option.map_some]

theorem Slot.fits_ofObject (g : Graph δ) (name : Option String) (body : Body (Edge δ)) :
    (Slot.ofObject name body).Fits g := by
  cases name <;> rfl

theorem Construction.build_of_object? [Deferral δ] {c : Construction (Edge δ)}
    {name : Option String} {body : Body (Edge δ)} (h : c.object? = some (name, body)) :
    c.build = Build.place (.ofObject name body) := by
  cases c with
  | object ps additional =>
    obtain ⟨rfl, rfl⟩ := Prod.mk.inj (Option.some.inj h)
    rfl
  | named name' ps additional flags =>
    obtain ⟨rfl, rfl⟩ := Prod.mk.inj (Option.some.inj h)
    rfl
  | _ => cases h

namespace Graph.Sound

variable {declared : List TypeId} {g : Graph δ}

/-- A named object whose properties are given once each is found under its name and these
properties. -/
theorem named (h : g.Sound declared) (name : String) {properties : List (Property TypeId)}
    (hnames : (properties.map (·.name)).Nodup) :
    (Build.named name (properties.map (Property.map .direct)) none .none).Yields g declared
      fun id g' => (.named name ⟨properties, none, .none⟩, id) ∈ g'.shared := by
  have hbody : Body.ofProperties (properties.map (Property.map .direct)) none .none =
      ((⟨properties, none, .none⟩ : Body TypeId).map .direct : Body (Edge δ)) := by
    rw [Body.ofProperties, Property.distinct_of_nodup (by rwa [List.map_map])]
    rfl
  refine h.place (by exact rfl) (Node.direct?_eq_some_iff.2 ⟨?_, rfl⟩)
  rw [hbody]
  rfl

/-- A type takes an id that is free and stays out of the table if and only if it has no key. -/
theorem place_takes_id_iff (h : g.Sound declared) (slot : Slot δ) :
    ((Build.place slot g).result = .ok ⟨g.size⟩ ∧ (Build.place slot g).graph.size = g.size + 1 ∧
      (Build.place slot g).graph.shared = g.shared) ↔ slot.node.direct? = none := by
  cases hdirect : slot.node.direct? with
  | none =>
    rw [Build.place_of_unshared hdirect]
    exact iff_of_true ⟨rfl, g.size_push slot, rfl⟩ rfl
  | some key =>
    refine iff_of_false ?_ (by simp)
    rintro ⟨hresult, -, hshared⟩
    cases hlookup : g.shared.lookup key with
    | some id =>
      rw [Build.place_of_known hdirect hlookup] at hresult
      obtain rfl := Except.ok.inj hresult
      exact lt_irrefl _ (h.index_lt_of_shared (h.lookup_eq_some_iff.1 hlookup))
    | none =>
      rw [Build.place_of_new hdirect hlookup] at hshared
      exact List.cons_ne_self _ _ hshared

end Graph.Sound

namespace Run

variable [Deferral δ]

/-- Two objects without deferred edges that are made at two points of a run have the same id if and
only if they have the same name, or none, and the same body. -/
theorem object_eq_iff (ops later : List (Operation (Edge δ) TypeId))
    {c₁ c₂ : Construction (Edge δ)} {n₁ n₂ : Option String} {b₁ b₂ : Body (Edge δ)}
    (h₁ : c₁.object? = some (n₁, b₁)) (h₂ : c₂.object? = some (n₂, b₂)) (hb₁ : ¬ b₁.HasDeferred)
    (hb₂ : ¬ b₂.HasDeferred) :
    let r := (start : Run δ).after ops
    let r' := (r.perform (.make c₁)).after later
    ∃ id₁ id₂, (c₁.build r.graph).result = .ok id₁ ∧ (c₂.build r'.graph).result = .ok id₂ ∧
      (id₁ = id₂ ↔ n₁ = n₂ ∧ b₁.entries = b₂.entries ∧
        b₁.additional.map Edge.direct? = b₂.additional.map Edge.direct? ∧
        b₁.additionalFlags = b₂.additionalFlags) := by
  intro r r'
  have h : r.graph.Sound r.declared := sound ops
  have h' : r'.graph.Sound r'.declared := (sound_after h (.make c₁ :: later)).1
  have hext : (r.perform (.make c₁)).graph.Extends r'.graph :=
    (sound_after (sound_after h [.make c₁]).1 later).2
  obtain ⟨k₁, hk₁⟩ := Option.ne_none_iff_exists'.1 (Body.direct?_eq_none_iff.not.2 hb₁)
  obtain ⟨k₂, hk₂⟩ := Option.ne_none_iff_exists'.1 (Body.direct?_eq_none_iff.not.2 hb₂)
  obtain ⟨id₁, g₁, events₁, hrun₁, -, -, hentry₁⟩ :=
    h.place (Slot.fits_ofObject _ n₁ b₁) (Slot.direct?_ofObject n₁ hk₁)
  obtain ⟨id₂, g₂, events₂, hrun₂, hsound₂, hext₂, hentry₂⟩ :=
    h'.place (Slot.fits_ofObject _ n₂ b₂) (Slot.direct?_ofObject n₂ hk₂)
  -- the entry of the first object is still there when the second is made
  have hkept : (.ofObject n₁ k₁, id₁) ∈ g₂.shared := by
    refine hext₂.mem_shared (hext.mem_shared ?_)
    rw [graph_perform_make, Construction.build_of_object? h₁, hrun₁]
    exact hentry₁
  rw [Construction.build_of_object? h₁, Construction.build_of_object? h₂, hrun₁, hrun₂,
    ← Body.eq_iff_of_direct? hk₁ hk₂, ← Node.ofObject_inj]
  refine ⟨id₁, id₂, rfl, rfl, ?_⟩
  constructor
  · rintro rfl
    exact hsound₂.key_unique hkept hentry₂
  · intro hkey
    rw [hkey] at hkept
    exact hsound₂.id_unique hkept hentry₂

/-- Objects are known by their settled properties. The body of an object has one property for each
name, in the order in which the names come up, and each as it is given last. If a property of the
body or its additional properties are deferred, and only then, the object takes the next free id and
stays out of the table. Two other objects, made at any two points of a run, have the same id if and
only if they are both anonymous or of the same name and have the same properties in the same order
and the same additional properties. -/
theorem objects_known_by_settled_properties :
    (∀ (ps : List (Property (Edge δ))) (additional : Option (Edge δ)) (flags : Flags),
      let body := Body.ofProperties ps additional flags
      body.properties.map (·.name) = (ps.map (·.name)).eraseDups ∧
        (∀ p ∈ body.properties, ps.findRev? (fun q => q.name = p.name) = some p) ∧
        ∀ name, body.property? name = ps.findRev? fun q => q.name = name) ∧
    (∀ (ops : List (Operation (Edge δ) TypeId)) (c : Construction (Edge δ)) (name : Option String)
      (body : Body (Edge δ)), c.object? = some (name, body) →
      let g := ((start : Run δ).after ops).graph
      ((c.build g).result = .ok ⟨g.size⟩ ∧ (c.build g).graph.size = g.size + 1 ∧
        (c.build g).graph.shared = g.shared) ↔ body.HasDeferred) ∧
    ∀ (ops later : List (Operation (Edge δ) TypeId)) (c₁ c₂ : Construction (Edge δ))
      (n₁ n₂ : Option String) (b₁ b₂ : Body (Edge δ)),
      c₁.object? = some (n₁, b₁) → c₂.object? = some (n₂, b₂) →
      ¬ b₁.HasDeferred → ¬ b₂.HasDeferred →
      let r := (start : Run δ).after ops
      let r' := (r.perform (.make c₁)).after later
      ∃ id₁ id₂, (c₁.build r.graph).result = .ok id₁ ∧ (c₂.build r'.graph).result = .ok id₂ ∧
        (id₁ = id₂ ↔ n₁ = n₂ ∧ b₁.entries = b₂.entries ∧
          b₁.additional.map Edge.direct? = b₂.additional.map Edge.direct? ∧
          b₁.additionalFlags = b₂.additionalFlags) := by
  refine ⟨fun ps additional flags => ⟨?_, ?_, ?_⟩, ?_, ?_⟩
  · exact Property.map_name_distinct ps
  · exact fun p hp => Property.findRev?_of_mem_distinct hp
  · exact Body.property?_ofProperties ps additional flags
  · intro ops c name body hc g
    have h : g.Sound _ := sound ops
    rw [Construction.build_of_object? hc, h.place_takes_id_iff, Slot.ofObject,
      Node.direct?_eq_none_iff]
    cases name <;> rfl
  · intro ops later c₁ c₂ n₁ n₂ b₁ b₂ h₁ h₂ hb₁ hb₂
    exact object_eq_iff ops later h₁ h₂ hb₁ hb₂

/-- A deferred property that is given again with a target does not count, and the object is the one
that is given without it later on; a property that is deferred when it is given again does count. -/
theorem objects_known_by_settled_properties_given_again :
    let c₁ : Construction (Edge Recipe) := .object
      [⟨"a", .deferred .newest, .none⟩, ⟨"b", .direct .int, .none⟩,
       ⟨"a", .direct .string, .constant⟩] none
    let c₂ : Construction (Edge Recipe) := .object
      [⟨"a", .direct .string, .constant⟩, ⟨"b", .direct .int, .none⟩] none
    let c₃ : Construction (Edge Recipe) := .object
      [⟨"a", .direct .string, .none⟩, ⟨"a", .deferred .newest, .none⟩] none
    let r := (start : Run Recipe).after [.declare "A"]
    let r' := (r.perform (.make c₁)).after [.define ⟨11⟩ [] none .none]
    (∃ id, (c₁.build r.graph).result = .ok id ∧ (c₂.build r'.graph).result = .ok id) ∧
      (c₃.build r.graph).result = .ok ⟨r.graph.size⟩ := by
  intro c₁ c₂ c₃ r r'
  obtain ⟨-, htakes, hsame⟩ := objects_known_by_settled_properties (δ := Recipe)
  constructor
  · obtain ⟨id₁, id₂, hid₁, hid₂, hiff⟩ :=
      hsame [.declare "A"] [.define ⟨11⟩ [] none .none] c₁ c₂ none none _ _ rfl rfl
        (by rw [← Body.direct?_eq_none_iff]; decide) (by rw [← Body.direct?_eq_none_iff]; decide)
    obtain rfl : id₁ = id₂ := hiff.2 (by decide)
    exact ⟨id₁, hid₁, hid₂⟩
  · exact ((htakes [.declare "A"] c₃ none _ rfl).2 (Body.direct?_eq_none_iff.1 rfl)).1

end Run

end TypeGraph
