import TypeGraph.Graph.Discriminated
import TypeGraph.Graph.Union
import TypeGraph.Modifier
import TypeGraph.Resource.Body
import TypeGraph.Report

/-!
# Operations

Everything that can be asked of a graph, as data: making types, declaring and defining objects,
registering names, and looking at what is there. An `Operation ρ τ` refers to types by values of
type `ρ` and to declared objects by values of type `τ`; on a graph, `ρ` are edges and `τ` are ids.

* `Operation.run` carries an operation out and ends with an `Answer`.
* `Operation.bind?` replaces the references in an operation by what they stand for.
-/

namespace TypeGraph

open Resource (Reference)

/-- What is shown of an edge: whether it is deferred, and where it leads at present. -/
structure EdgeView where
  isDeferred : Bool
  id : TypeId
  name : String

/-- What is shown of a slot. -/
structure SlotView where
  id : TypeId
  label : String
  node : Node EdgeView

namespace Graph

variable {δ : Type} [Deferral δ]

/-- What is shown of an edge. -/
def edgeView (g : Graph δ) (e : Edge δ) : EdgeView :=
  ⟨e.isDeferred, g.resolve e, g.display (g.resolve e)⟩

/-- What is shown of the slot with the given id. -/
def slotView? (g : Graph δ) (id : TypeId) : Option SlotView :=
  (g.slot? id).map fun slot => ⟨id, slot.label, slot.node.map g.edgeView⟩

/-- What is shown of the slots from the given index on. -/
def slotViews (g : Graph δ) (start : Nat) : List SlotView :=
  (List.range' start (g.size - start)).filterMap fun i => g.slotView? ⟨i⟩

end Graph

/-- A type to be made. -/
inductive Construction (ρ : Type) where
  | literal (value : String)
  | array (item : ρ)
  | object (properties : List (Property ρ)) (additional : Option ρ)
  | named (name : String) (properties : List (Property ρ)) (additional : Option ρ)
      (additionalFlags : Flags)
  | union (members : List ρ)
  | discriminated (name key : String) (members : List ρ)
  | modifier (target : ρ)
  | resource (text : String)

/-- A question about one type. -/
inductive Question where
  | name
  | kind
  /-- Both the name and the kind. -/
  | description
  | display
  | slot
  | members
  /-- The member of a discriminated object under a quoted value. -/
  | variant (key : String)
  /-- The member of a discriminated object for a value. -/
  | variantFor (value : String)
  | property (name : String)
  /-- The report about an object. -/
  | report (format : Format)

/-- A question about the whole graph. -/
inductive Query where
  | lookup (name : String)
  | builtin (name : String)
  | declaration (name : String)
  | registry
  /-- The report about the types that declarations know. -/
  | report (format : Format)
  | slots (start : Nat)

/-- Something that can be asked of a graph. -/
inductive Operation (ρ τ : Type) where
  | make (construction : Construction ρ)
  | declare (name : String)
  | define (token : τ) (properties : List (Property ρ)) (additional : Option ρ)
      (additionalFlags : Flags)
  | register (name : String) (type : ρ)
  | registered (name : String)
  /-- Check the members of a discriminated object without making it. -/
  | variants (name key : String) (members : List ρ)
  | modifierProperties (target : ρ)
  | resourceProperties (text : String)
  | same (a b : ρ)
  | edge (type : ρ)
  | inspect (type : ρ) (question : Question)
  | query (query : Query)

/-- What an operation ends with. -/
inductive Answer where
  | made (id : TypeId) (name : String) (kind : Option Kind)
  | noted (id : TypeId)
  | found (id : Option TypeId)
  | variants (variants : Variants EdgeView)
  | variant (view : Option EdgeView)
  | property (view : Option (Property EdgeView))
  | properties (views : List (Property EdgeView))
  | same (equal : Bool)
  | edge (id : TypeId) (direct : Option TypeId) (text : String)
  | name (name : String)
  | kind (kind : Kind)
  | description (name : String) (kind : Kind)
  | display (text : String)
  | slot (view : Option SlotView)
  | slots (views : List SlotView)
  | members (ids : List TypeId)
  | registry (builtins declarations : List (String × TypeId)) (listed : String) (isEmpty : Bool)
  | report (text : String)
  /-- The question is about objects and the type is none. -/
  | notObject
  /-- The question is about discriminated objects and the type is none. -/
  | notDiscriminated

/-- The type that an answer is about, if it is about one. -/
def Answer.id? : Answer → Option TypeId
  | made id _ _ => some id
  | noted id => some id
  | found id => id
  | variant view => view.map (·.id)
  | property view => view.map (·.type.id)
  | edge id _ _ => some id
  | _ => none

/-! ### Carrying operations out -/

section Run

variable {δ : Type}

/-- What is shown of a type that was made. -/
def Answer.ofMade (id : TypeId) : Build δ Answer :=
  Build.read fun g => .made id (g.display id) (g.kind? id)

variable [Deferral δ]

/-- Make a type. -/
def Construction.build : Construction (Edge δ) → Build δ TypeId
  | literal value => Build.literal value
  | array item => Build.array item
  | object properties additional => Build.object properties additional
  | named name properties additional additionalFlags =>
    Build.named name properties additional additionalFlags
  | union members => Build.union members
  | discriminated name key members => Build.discriminated name key members
  | modifier target => do Build.modifier (← Build.read (·.resolve target))
  | resource text =>
    match Reference.parse text with
    | .ok reference => Build.resource reference
    | .error cause => Build.refuse cause

/-- Answer a question about the type with the given id. -/
def Question.answer (g : Graph δ) (id : TypeId) : Question → Except Failure Answer
  | name =>
    match g.slot? id with
    | some found => .ok (.name found.label)
    | none => .error .dangling
  | kind =>
    match g.slot? id with
    | some found => .ok (.kind found.node.kind)
    | none => .error .dangling
  | description =>
    match g.slot? id with
    | some found => .ok (.description found.label found.node.kind)
    | none => .error .dangling
  | display => .ok (.display (g.display id))
  | slot => .ok (.slot (g.slotView? id))
  | members =>
    match g.members? id with
    | some ids => .ok (.members ids)
    | none => .error .dangling
  | variant key =>
    match (g.node? id).bind (·.variants?) with
    | some variants => .ok (.variant ((variants.member? key).map g.edgeView))
    | none => .ok .notDiscriminated
  | variantFor value =>
    match (g.node? id).bind (·.variants?) with
    | some variants => .ok (.variant ((variants.memberFor? value).map g.edgeView))
    | none => .ok .notDiscriminated
  | property key =>
    match (g.node? id).bind (·.body?) with
    | some body => .ok (.property ((body.property? key).map (·.map g.edgeView)))
    | none => .ok .notObject
  | report format =>
    match g.objectReport? id with
    | some shown => .ok (.report (shown.render format))
    | none => .ok .notObject

/-- Answer a question about the whole graph. -/
def Query.answer (g : Graph δ) : Query → Answer
  | lookup name => .found (g.lookup? name)
  | builtin name => .found (g.builtin? name)
  | declaration name => .found (g.declaration? name)
  | registry =>
    .registry g.builtins g.declarations (Vocabulary.listed (g.declarations.map (·.1)))
      (g.size == 0)
  | report format => .report (g.typesReport.render format)
  | slots start => .slots (g.slotViews start)

/-- What is shown of properties that were collected. -/
def Answer.ofProperties (properties : List (Property (Edge δ))) : Build δ Answer :=
  Build.read fun g => .properties (properties.map (·.map g.edgeView))

/-- Carry an operation out. -/
def Operation.run : Operation (Edge δ) TypeId → Build δ Answer
  | make construction => do Answer.ofMade (← construction.build)
  | declare name => do Answer.ofMade (← Build.declare name)
  | define token properties additional additionalFlags => do
    Answer.ofMade (← Build.define token properties additional additionalFlags)
  | register name type => do
    let id ← Build.read (·.resolve type)
    Build.register name id
    return .noted id
  | registered name => do Answer.ofMade (← Build.registered name)
  | variants name key members => do
    let variants ← Build.ofExcept (← Build.read (·.variants name key members))
    Build.read fun g => .variants (variants.map fun v => (v.1, g.edgeView v.2))
  | modifierProperties target => do
    Answer.ofProperties (← Build.modifierProperties (← Build.read (·.resolve target)))
  | resourceProperties text =>
    match Reference.parse text with
    | .ok reference => do Answer.ofProperties (← Build.resourceProperties reference)
    | .error cause => Build.refuse cause
  | same a b => Build.read fun g => .same (g.resolve a == g.resolve b)
  | edge type => Build.read fun g => .edge (g.resolve type) type.direct? type.text
  | inspect type question => do
    Build.ofExcept (← Build.read fun g => question.answer g (g.resolve type))
  | query question => Build.read question.answer

end Run

/-! ### Binding references -/

section Bind

variable {ρ ρ' τ τ' : Type}

/-- The properties with their types replaced, if all of them can be. -/
def Property.bindAll? (f : ρ → Option ρ') (ps : List (Property ρ)) :
    Option (List (Property ρ')) :=
  ps.mapM fun p => (f p.type).map fun type => ⟨p.name, type, p.flags⟩

/-- The type to be made with its references replaced, if all of them can be. -/
def Construction.bind? (f : ρ → Option ρ') : Construction ρ → Option (Construction ρ')
  | literal value => some (.literal value)
  | array item => return .array (← f item)
  | object properties additional =>
    return .object (← Property.bindAll? f properties) (← additional.mapM f)
  | named name properties additional additionalFlags =>
    return .named name (← Property.bindAll? f properties) (← additional.mapM f) additionalFlags
  | union members => return .union (← members.mapM f)
  | discriminated name key members => return .discriminated name key (← members.mapM f)
  | modifier target => return .modifier (← f target)
  | resource text => some (.resource text)

/-- The operation with its references replaced, if all of them can be. -/
def Operation.bind? (f : ρ → Option ρ') (t : τ → Option τ') :
    Operation ρ τ → Option (Operation ρ' τ')
  | make construction => return .make (← construction.bind? f)
  | declare name => some (.declare name)
  | define token properties additional additionalFlags =>
    return .define (← t token) (← Property.bindAll? f properties) (← additional.mapM f)
      additionalFlags
  | register name type => return .register name (← f type)
  | registered name => some (.registered name)
  | variants name key members => return .variants name key (← members.mapM f)
  | modifierProperties target => return .modifierProperties (← f target)
  | resourceProperties text => some (.resourceProperties text)
  | same a b => return .same (← f a) (← f b)
  | edge type => return .edge (← f type)
  | inspect type question => return .inspect (← f type) question
  | query question => some (.query question)

end Bind

end TypeGraph
