import TypeGraph.Proofs.Members
import TypeGraph.Proofs.Properties
import TypeGraph.Recipe

/-!
# Asking for a type again

A type that is shared is made once. Asked for again, at any later time, it is found where it was
put, and so are all the types that are made on the way to it.

* `Build.Settled`: carried out on a graph, a build ends with a given value and changes nothing.
* `Build.Lasting`: a build that has ended with a value is settled on this value in all later graphs.
  Builds that go on from one lasting build to the next are lasting, so that it is enough to look at
  single types.
* `Construction.lasting_build`: everything that is made from ids is lasting, except for
  discriminated objects.
* `Run.rebuilding_changes_nothing`: the same for runs, with references that may change in between as
  long as they lead to the same ids.
-/

namespace TypeGraph

variable {δ : Type}

open Resource (Reference)

namespace Body

theorem not_hasDeferred {ps : List (Property (Edge δ))} {additional : Option (Edge δ)}
    {flags : Flags} (hps : ∀ p ∈ ps, p.type.isDeferred = false)
    (hadditional : ∀ e ∈ additional, e.isDeferred = false) :
    ¬ (Body.ofProperties ps additional flags).HasDeferred := by
  rintro (⟨p, hp, hdeferred⟩ | ⟨e, he, hdeferred⟩)
  · rw [ofProperties, Property.distinct_eq_settle] at hp
    rw [hps p (Property.mem_of_mem_settle hp)] at hdeferred
    cases hdeferred
  · rw [hadditional e he] at hdeferred
    cases hdeferred

/-- An object that keeps no deferred edge can be asked for with the ids that its edges lead to. -/
theorem ofProperties_direct [Deferral δ] {ps : List (Property (Edge δ))}
    {additional : Option (Edge δ)} {flags : Flags} {g : Graph δ}
    (h : ¬ (Body.ofProperties ps additional flags).HasDeferred) :
    Body.ofProperties (((Property.distinct ps).map (Property.map g.resolve)).map
      (Property.map .direct)) ((additional.map g.resolve).map .direct) flags =
      Body.ofProperties ps additional flags := by
  rw [← direct?_eq_none_iff] at h
  obtain ⟨key, hkey⟩ := Option.ne_none_iff_exists'.1 h
  obtain ⟨hps, hadditional, -⟩ := mk.inj (direct?_eq_some_iff.1 hkey)
  have hps' : ((Property.distinct ps).map (Property.map g.resolve)).map (Property.map .direct) =
      Property.distinct ps := by
    rw [hps, List.map_map, List.map_map]
    rfl
  have hadditional' : (additional.map g.resolve).map .direct = additional := by
    rw [hadditional, Option.map_map, Option.map_map]
    rfl
  rw [hps', hadditional', ofProperties, Property.distinct_distinct, ofProperties]

end Body

namespace Build

variable {α β : Type}

/-- Carried out on `g`, the build ends with `a` and leaves the graph as it is. -/
def Settled (x : Build δ α) (a : α) (g : Graph δ) : Prop := ∃ events, x g = ⟨.ok a, g, events⟩

/-- Once the build has ended with a value, it is settled on this value in all later graphs. -/
structure Lasting (x : Build δ α) : Prop where
  grows : ∀ g, Grows g (x g).graph
  settled : ∀ {declared declared' : List TypeId} {g g' : Graph δ} {a : α}, g.Sound declared →
    (x g).result = .ok a → g'.Sound declared' → (x g).graph.Extends g' → x.Settled a g'

theorem Settled.bind {x : Build δ α} {f : α → Build δ β} {g : Graph δ} {a : α} {b : β}
    (hx : x.Settled a g) (hf : (f a).Settled b g) : (x >>= f).Settled b g := by
  obtain ⟨events, hx⟩ := hx
  obtain ⟨events', hf⟩ := hf
  refine ⟨events ++ events', ?_⟩
  rw [bind_apply_ok hx, hf]

namespace Lasting

theorem bind {x : Build δ α} {f : α → Build δ β} (hx : x.Lasting) (hf : ∀ a, (f a).Lasting) :
    (x >>= f).Lasting where
  grows g := grows_bind (hx.grows g) fun a _ => (hf a).grows _
  settled {declared declared' g g' b} hs hok hs' hext := by
    obtain ⟨hs₁, -⟩ := hs.grows (hx.grows g)
    cases hresult : (x g).result with
    | error failure =>
      have hx' : x g = ⟨.error failure, (x g).graph, (x g).events⟩ := by rw [← hresult]
      rw [bind_apply_error hx'] at hok
      cases hok
    | ok a =>
      rw [result_bind hresult] at hok
      rw [graph_bind hresult] at hext
      obtain ⟨-, hext₁⟩ := hs₁.grows ((hf a).grows (x g).graph)
      exact (hx.settled hs hresult hs' (hext₁.trans hext)).bind ((hf a).settled hs₁ hok hs' hext)

theorem emit (event : Event) : (emit event : Build δ Unit).Lasting where
  grows _ := .refl
  settled _ _ _ _ := ⟨[event], rfl⟩

theorem fail (failure : Failure) : (fail failure : Build δ α).Lasting where
  grows _ := .refl
  settled _ hok _ _ := by cases hok

/-- What is read off the graph lasts if later graphs agree on it. -/
theorem read {f : Graph δ → α} (h : ∀ {declared : List TypeId} {g g' : Graph δ},
    g.Sound declared → g.Extends g' → f g' = f g) : (read f).Lasting where
  grows _ := .refl
  settled hs hok _ hext := by
    cases hok
    exact ⟨[], by rw [← h hs hext]; rfl⟩

end Lasting

/-- A type with a key is found under its key in all later graphs, whatever label comes with it. -/
theorem settled_place {declared declared' : List TypeId} {g g' : Graph δ} {slot slot' : Slot δ}
    (key : Node TypeId) {id : TypeId} (hs : g.Sound declared) (hs' : g'.Sound declared')
    (hok : (place slot g).result = .ok id) (hext : (place slot g).graph.Extends g')
    (fits : slot.Fits g) (hkey : slot.node.direct? = some key)
    (hkey' : slot'.node.direct? = some key) : (place slot').Settled id g' := by
  obtain ⟨id', g₁, events, hplace, -, -, hentry⟩ := hs.place fits hkey
  rw [hplace] at hok hext
  obtain rfl := Except.ok.inj hok
  exact ⟨[], place_of_known hkey' (hs'.lookup_eq_some_iff.2 (hext.mem_shared hentry))⟩

theorem lasting_place {slot : Slot δ} (key : Node TypeId) (fits : ∀ g, slot.Fits g)
    (hkey : slot.node.direct? = some key) : (place slot).Lasting where
  grows g := grows_place (fits g)
  settled hs hok hs' hext := settled_place key hs hs' hok hext (fits _) hkey hkey

theorem lasting_literal (value : String) : (literal value : Build δ TypeId).Lasting :=
  lasting_place (.literal value) (fun _ => rfl) rfl

theorem lasting_object {ps : List (Property (Edge δ))} {additional : Option (Edge δ)}
    (h : ¬ (Body.ofProperties ps additional .none).HasDeferred) :
    (object ps additional).Lasting := by
  rw [← Body.direct?_eq_none_iff] at h
  obtain ⟨key, hkey⟩ := Option.ne_none_iff_exists'.1 h
  exact lasting_place (.object key) (fun _ => rfl) (by simp [Node.direct?, hkey])

theorem lasting_named {name : String} {ps : List (Property (Edge δ))}
    {additional : Option (Edge δ)} {flags : Flags}
    (h : ¬ (Body.ofProperties ps additional flags).HasDeferred) :
    (named name ps additional flags).Lasting := by
  rw [← Body.direct?_eq_none_iff] at h
  obtain ⟨key, hkey⟩ := Option.ne_none_iff_exists'.1 h
  exact lasting_place (.named name key) (fun _ => rfl) (by simp [Node.direct?, hkey])

end Build

/-! ### Unions -/

namespace Graph.Sound

variable {declared : List TypeId} {g : Graph δ}

/-- The union of the members of a type is this type. -/
theorem unite_settled (h : g.Sound declared) {id : TypeId} {ids : List TypeId}
    (hids : g.members? id = some ids) : (Build.unite ids).Settled id g := by
  rcases h.members?_cases hids with rfl | ⟨hlength, hentry⟩
  · exact ⟨[], rfl⟩
  · rcases ids with _ | ⟨a, _ | ⟨b, rest⟩⟩
    · have hnever : (Node.union [], TypeId.never) ∈ g.shared := h.foundation (by decide)
      obtain rfl := h.id_unique hentry hnever
      exact ⟨[], rfl⟩
    · exact absurd rfl hlength
    · have hunite := Build.unite_cons_cons a b rest g
      rw [Build.place_of_known rfl (h.lookup_eq_some_iff.2 hentry)] at hunite
      exact ⟨_, hunite⟩

variable [Deferral δ]

/-- A union that is formed has no part that is not there. -/
theorem index_lt_of_union_ok (h : g.Sound declared) {edges : List (Edge δ)} {id : TypeId}
    (hok : (Build.union edges g).result = .ok id) :
    ∀ e ∈ edges, (g.resolve e).index < g.size := by
  intro e he
  rw [Build.union_apply] at hok
  cases hleaves : gather g.leaves? (edges.map g.resolve) with
  | none =>
    rw [hleaves] at hok
    cases hok
  | some leaves =>
    obtain ⟨ids, hids⟩ := exists_of_gather hleaves (List.mem_map_of_mem he)
    rw [h.leaves?_eq] at hids
    exact index_lt_of_members? hids

end Graph.Sound

namespace Build

variable [Deferral δ]

/-- The parts of a union keep their members, and the type with these members is still there. -/
theorem lasting_union (ids : List TypeId) : (union (ids.map .direct) : Build δ TypeId).Lasting where
  grows g := grows_union _ g
  settled {declared declared' g g' id} hs hok hs' hext := by
    have hrange := hs.index_lt_of_union_ok hok
    obtain ⟨id', g₁, events, hunion, -, hext₁, members, hmembers, hmem⟩ := hs.union_members hrange
    rw [hunion] at hok hext
    obtain rfl := Except.ok.inj hok
    have hext' := hext₁.trans hext
    have hresolve : ∀ g : Graph δ, (ids.map .direct).map g.resolve = ids := by
      intro g
      rw [List.map_map]
      exact List.map_id ids
    have hrange' : ∀ e ∈ ids.map .direct, (g'.resolve e).index < g'.size := by
      intro e he
      obtain ⟨x, -, rfl⟩ := List.mem_map.1 he
      exact hext'.index_lt (hrange _ he)
    obtain ⟨ids', hunion', hord', -, hmem'⟩ := hs'.union_eq_unite hrange'
    have hmembers' := hext.members?_eq hmembers
    obtain rfl : ids' = members := by
      refine hord'.eq_of_mem_iff (hs'.of_members? hmembers').1 fun x => ?_
      rw [hmem', hmem, hresolve, hresolve, hext'.memberSet_eq]
      intro x hx
      exact hrange (.direct x) (List.mem_map_of_mem hx)
    obtain ⟨events', hunite⟩ := hs'.unite_settled hmembers'
    exact ⟨events', hunion'.trans hunite⟩

/-- The label of an array is settled when it is made; its item is what counts later. -/
theorem lasting_array (target : TypeId) : (array (.direct target) : Build δ TypeId).Lasting where
  grows g := grows_array _ g
  settled {declared declared' g g' id} hs hok hs' hext := by
    rw [array_apply] at hok hext
    unfold Settled
    rw [array_apply]
    exact settled_place (.array (some target)) hs hs' hok hext rfl rfl rfl

/-! ### Modifiers and resources -/

theorem modifier_of_mem {target : TypeId} (h : target ∈ Modifier.targets) :
    (modifier target : Build δ TypeId) = (do
      let array ← array (.direct target)
      let name ← read fun g => Vocabulary.modifierNameStart ++ g.display target
      let properties := (Modifier.rules.filter (target ∈ ·.targets)).map (·.property target array)
      emit (.modifierFormed name properties.length)
      named name properties none .none) := by
  simp [modifier, modifierProperties, h]

theorem modifier_of_not_mem {target : TypeId} (h : target ∉ Modifier.targets) (g : Graph δ) :
    (modifier target g).result = .error (.refused (.noModifiers (g.display target))) := by
  rw [modifier, modifierProperties, if_neg h]
  rfl

theorem lasting_modifier (target : TypeId) : (modifier target : Build δ TypeId).Lasting := by
  by_cases h : target ∈ Modifier.targets
  · rw [modifier_of_mem h]
    refine (lasting_array target).bind fun array => ?_
    refine (Lasting.read fun hs hext => ?_).bind fun name => ?_
    · rw [hext.display_eq (hs.index_lt_of_target h)]
    · refine (Lasting.emit _).bind fun _ => lasting_named (Body.not_hasDeferred ?_ (by simp))
      intro p hp
      obtain ⟨rule, -, rfl⟩ := List.mem_map.1 hp
      rfl
  · refine ⟨fun g => grows_modifier target g, fun _ hok _ _ => ?_⟩
    rw [modifier_of_not_mem h] at hok
    cases hok

theorem lasting_resource (reference : Reference) :
    (resource reference : Build δ TypeId).Lasting := by
  simp only [resource, resourceProperties, bind_assoc, pure_bind]
  refine (lasting_literal _).bind fun type => (lasting_literal _).bind fun version => ?_
  refine (lasting_array _).bind fun strings => (lasting_array _).bind fun resources => ?_
  refine (Lasting.emit _).bind fun _ => lasting_named (Body.not_hasDeferred ?_ (by simp))
  simp [Resource.bodyProperties, Edge.isDeferred]

end Build

/-! ### Constructions -/

namespace Construction

variable {ρ ρ' : Type}

/-- The type to be made with its references changed by `f`. -/
def map (f : ρ → ρ') : Construction ρ → Construction ρ'
  | literal value => .literal value
  | array item => .array (f item)
  | object properties additional => .object (properties.map (Property.map f)) (additional.map f)
  | named name properties additional additionalFlags =>
    .named name (properties.map (Property.map f)) (additional.map f) additionalFlags
  | union members => .union (members.map f)
  | discriminated name key members => .discriminated name key (members.map f)
  | modifier target => .modifier (f target)
  | resource text => .resource text

/-- The type to be made with only those of its properties that count. -/
def settle : Construction ρ → Construction ρ
  | object properties additional => .object (Property.distinct properties) additional
  | named name properties additional additionalFlags =>
    .named name (Property.distinct properties) additional additionalFlags
  | c => c

/-- The type to be made is shared: it is not a discriminated object, and if it is an object, then
none of the edges that it keeps is deferred. -/
def IsShared : Construction (Edge δ) → Prop
  | object properties additional => ¬ (Body.ofProperties properties additional .none).HasDeferred
  | named _ properties additional additionalFlags =>
    ¬ (Body.ofProperties properties additional additionalFlags).HasDeferred
  | discriminated _ _ _ => False
  | _ => True

variable [Deferral δ]

/-- Only the ids count that references lead to, if the type is shared. -/
theorem build_eq {c : Construction (Edge δ)} (h : c.IsShared) (g : Graph δ) :
    c.build g = ((c.settle.map g.resolve).map .direct).build g := by
  cases c with
  | object ps additional =>
    simp only [settle, map, build, Build.object]
    rw [Body.ofProperties_direct h]
  | named name ps additional flags =>
    simp only [settle, map, build, Build.named]
    rw [Body.ofProperties_direct h]
  | union members =>
    simp only [settle, map, build, Build.union_apply, List.map_map]
    rfl
  | discriminated name key members => cases h
  | _ => rfl

theorem IsShared.direct {c : Construction (Edge δ)} (h : c.IsShared) (g : Graph δ) :
    ((c.settle.map g.resolve).map .direct : Construction (Edge δ)).IsShared := by
  cases c with
  | object ps additional =>
    simp only [settle, map, IsShared]
    rwa [Body.ofProperties_direct h]
  | named name ps additional flags =>
    simp only [settle, map, IsShared]
    rwa [Body.ofProperties_direct h]
  | discriminated name key members => cases h
  | _ => trivial

/-- Everything that is made from ids is lasting, except for discriminated objects. -/
theorem lasting_build {c : Construction TypeId}
    (h : (c.map .direct : Construction (Edge δ)).IsShared) :
    ((c.map .direct).build : Build δ TypeId).Lasting := by
  cases c with
  | literal value => exact Build.lasting_literal value
  | array item => exact Build.lasting_array item
  | object ps additional => exact Build.lasting_object h
  | named name ps additional flags => exact Build.lasting_named h
  | union members => exact Build.lasting_union members
  | discriminated name key members => cases h
  | modifier target => exact Build.lasting_modifier target
  | resource text =>
    simp only [map, build]
    split
    · exact Build.lasting_resource _
    · exact .fail _

end Construction

namespace Run

variable [Deferral δ]

/-- A shared type that was made once is found at every later time: whoever asks for it again, with
references that lead to the same ids, gets the same id, and nothing in the graph changes. Whatever
happens in between, the definition of objects in the type included, does not matter. -/
theorem rebuilding_changes_nothing (ops later : List (Operation (Edge δ) TypeId))
    (c c' : Construction (Edge δ)) (id : TypeId) :
    let r := (start : Run δ).after ops
    let r' := (r.perform (.make c)).after later
    c.IsShared → (c.build r.graph).result = .ok id →
    c'.IsShared → c'.settle.map r'.graph.resolve = c.settle.map r.graph.resolve →
    (c'.build r'.graph).result = .ok id ∧ (c'.build r'.graph).graph = r'.graph := by
  intro r r' hshared hok hshared' hsame
  have hs : r.graph.Sound r.declared := sound ops
  have hs₁ : (r.perform (.make c)).graph.Sound (r.perform (.make c)).declared := by
    have := sound (δ := δ) (ops ++ [.make c])
    rwa [after_concat] at this
  obtain ⟨hs', hext⟩ := sound_after hs₁ later
  -- both times the type is made from the same ids
  rw [graph_perform_make, Construction.build_eq hshared] at hext
  rw [Construction.build_eq hshared] at hok
  obtain ⟨events, hsettled⟩ :=
    (Construction.lasting_build (hshared.direct r.graph)).settled hs hok hs' hext
  rw [Construction.build_eq hshared', hsame, hsettled]
  exact ⟨rfl, rfl⟩

/-- The union of a pending object and a primitive is formed again after the object was defined to
mention it, with the primitive found by its name. -/
theorem rebuilding_changes_nothing_after_definition :
    let ops : List (Operation (Edge Recipe) TypeId) := [.declare "A"]
    let later : List (Operation (Edge Recipe) TypeId) :=
      [.define ⟨11⟩ [⟨"next", .direct ⟨12⟩, .none⟩] none .none, .register "S" (.direct .string),
       .make (.array (.direct ⟨12⟩))]
    let c : Construction (Edge Recipe) := .union [.direct ⟨11⟩, .direct .string]
    let c' : Construction (Edge Recipe) := .union [.direct ⟨11⟩, .deferred (.named "S" .newest)]
    let r := (start : Run Recipe).after ops
    let r' := (r.perform (.make c)).after later
    (c'.build r'.graph).result = .ok ⟨12⟩ ∧ (c'.build r'.graph).graph = r'.graph := by
  intro ops later c c' r r'
  refine rebuilding_changes_nothing ops later c c' ⟨12⟩ trivial ?_ trivial ?_
  · simp only [ops, after_cons, after_nil, perform, graph_start, Graph.fresh_eq]
    rfl
  · simp only [ops, later, after_cons, after_nil, perform, graph_start, Graph.fresh_eq]
    rfl

end Run

end TypeGraph
