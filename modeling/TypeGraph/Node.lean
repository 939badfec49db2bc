import TypeGraph.Flags

/-!
# Types as nodes of a graph

A type is a node; where it mentions another type it has an edge. `Node ε` leaves open what an edge
is: the nodes of a graph carry `Edge`s, the keys under which types are shared carry plain ids, and
reports carry what is shown for an edge.

* `TypeId`: the place of a type in a graph, with the ids of the types that every graph holds.
* `Edge δ`: a direct edge names its target; a deferred edge carries a rule of type `δ` that finds
  the target when it is asked for.
* `Property`, `Body`: the properties of an object. `Body.ofProperties` keeps one property for each
  name.
* `Node`, `Kind`: the types themselves and the coarse classes they fall into.
* `Node.direct?`: the node with its edges replaced by their targets, if all of them are direct.
-/

namespace TypeGraph

/-- The place of a type in a graph. -/
structure TypeId where
  index : Nat
  deriving DecidableEq

namespace TypeId

/-- Every value. -/
def any : TypeId := ⟨0⟩

/-- Every string. -/
def string : TypeId := ⟨1⟩

/-- Every object. -/
def object : TypeId := ⟨2⟩

/-- Every integer. -/
def int : TypeId := ⟨3⟩

/-- Both truth values. -/
def bool : TypeId := ⟨4⟩

/-- Every array. -/
def array : TypeId := ⟨5⟩

/-- The null value. -/
def null : TypeId := ⟨6⟩

/-- A reference to a resource. -/
def resource : TypeId := ⟨7⟩

/-- No value: the union of no types. -/
def never : TypeId := ⟨8⟩

/-- The metadata of a parameter. -/
def modifierMetadata : TypeId := ⟨9⟩

/-- The tags of a resource. -/
def tags : TypeId := ⟨10⟩

/-- The id as it is printed on its own. -/
def text (id : TypeId) : String := "TypeId(" ++ toString id.index ++ ")"

end TypeId

/-- A mention of another type. -/
inductive Edge (δ : Type) where
  /-- The target is named. -/
  | direct (target : TypeId)
  /-- The target is found by a rule. -/
  | deferred (rule : δ)

namespace Edge

variable {δ : Type}

/-- The target of a direct edge. -/
def direct? : Edge δ → Option TypeId
  | direct target => some target
  | deferred _ => none

/-- The target is found by a rule. -/
def isDeferred : Edge δ → Bool
  | direct _ => false
  | deferred _ => true

/-- The edge as it is printed on its own. -/
def text : Edge δ → String
  | direct target => "Resolved(" ++ target.text ++ ")"
  | deferred _ => "Deferred(..)"

end Edge

/-- A named part of an object. -/
structure Property (ε : Type) where
  name : String
  type : ε
  flags : Flags
  deriving DecidableEq

namespace Property

variable {ε ε' : Type}

/-- The property with its type changed by `f`. -/
def map (f : ε → ε') (p : Property ε) : Property ε' := ⟨p.name, f p.type, p.flags⟩

/-- Put a property in the place of the one with its name, or at the end if there is none. -/
def insert (p : Property ε) : List (Property ε) → List (Property ε)
  | [] => [p]
  | q :: qs => if q.name = p.name then p :: qs else q :: insert p qs

/-- One property for each name: the last one given, at the place of the first. -/
def distinct (ps : List (Property ε)) : List (Property ε) := ps.foldl (fun qs p => insert p qs) []

/-- The properties with direct edges replaced by their targets, if all edges are direct. -/
def direct? {δ : Type} : List (Property (Edge δ)) → Option (List (Property TypeId))
  | [] => some []
  | p :: ps =>
    match p.type.direct?, direct? ps with
    | some target, some rest => some (⟨p.name, target, p.flags⟩ :: rest)
    | _, _ => none

end Property

/-- What an object holds: its properties, and the type of all others if it may have others. -/
structure Body (ε : Type) where
  properties : List (Property ε)
  additional : Option ε
  additionalFlags : Flags
  deriving DecidableEq

namespace Body

variable {ε ε' : Type}

/-- Nothing at all. -/
def empty : Body ε := ⟨[], none, .none⟩

/-- The body with the given properties, one for each name. -/
def ofProperties (ps : List (Property ε)) (additional : Option ε) (additionalFlags : Flags) :
    Body ε :=
  ⟨Property.distinct ps, additional, additionalFlags⟩

/-- The property with the given name. -/
def property? (body : Body ε) (name : String) : Option (Property ε) :=
  body.properties.find? fun p => p.name = name

/-- The body with its edges changed by `f`. -/
def map (f : ε → ε') (body : Body ε) : Body ε' :=
  ⟨body.properties.map (Property.map f), body.additional.map f, body.additionalFlags⟩

/-- The body with direct edges replaced by their targets, if all edges are direct. -/
def direct? {δ : Type} (body : Body (Edge δ)) : Option (Body TypeId) :=
  match Property.direct? body.properties, body.additional with
  | some ps, none => some ⟨ps, none, body.additionalFlags⟩
  | some ps, some (.direct target) => some ⟨ps, some target, body.additionalFlags⟩
  | _, _ => none

end Body

/-- A type without parts. -/
inductive Primitive where
  | string
  | int
  | bool
  | null
  deriving DecidableEq

/-- The name of a primitive. -/
def Primitive.name : Primitive → String
  | string => "string"
  | int => "int"
  | bool => "bool"
  | null => "null"

/-- The class of a type. -/
inductive Kind where
  | any
  | primitive
  | object
  | array
  | union
  | discriminated
  | never
  | literal
  | resource
  deriving DecidableEq

/-- The name of a kind. -/
def Kind.name : Kind → String
  | any => "Any"
  | primitive => "Primitive"
  | object => "Object"
  | array => "Array"
  | union => "Union"
  | discriminated => "DiscriminatedObject"
  | never => "Never"
  | literal => "StringLiteral"
  | resource => "ResourceReference"

/-- Members of a discriminated object, each under its quoted value. -/
abbrev Variants (ε : Type) : Type := List (String × ε)

/-- A type whose mentions of other types are of type `ε`. The items of an array and the members of
a union are always named outright. -/
inductive Node (ε : Type) where
  | any
  | primitive (p : Primitive)
  /-- The string with the given value and no other. -/
  | literal (value : String)
  /-- An object known by its body alone. -/
  | object (body : Body ε)
  /-- An object known by its name and its body. -/
  | named (name : String) (body : Body ε)
  /-- An array, of items of one type if it is given. -/
  | array (item : Option TypeId)
  | union (members : List TypeId)
  /-- One of several named objects, told apart by the value of the property `key`. -/
  | discriminated (name key : String) (variants : Variants ε)
  | resource
  deriving DecidableEq

namespace Node

variable {ε ε' : Type}

/-- The class of a type; the union of no types is a class of its own. -/
def kind : Node ε → Kind
  | any => .any
  | primitive _ => .primitive
  | literal _ => .literal
  | object _ => .object
  | named _ _ => .object
  | array _ => .array
  | union [] => .never
  | union _ => .union
  | discriminated _ _ _ => .discriminated
  | resource => .resource

/-- The node with its edges changed by `f`. -/
def map (f : ε → ε') : Node ε → Node ε'
  | any => .any
  | primitive p => .primitive p
  | literal value => .literal value
  | object body => .object (body.map f)
  | named name body => .named name (body.map f)
  | array item => .array item
  | union members => .union members
  | discriminated name key variants =>
    .discriminated name key (variants.map fun v => (v.1, f v.2))
  | resource => .resource

/-- The value of a string literal. -/
def value? : Node ε → Option String
  | literal value => some value
  | _ => none

/-- The body of an object, named or not. -/
def body? : Node ε → Option (Body ε)
  | object body => some body
  | named _ body => some body
  | _ => none

/-- The body of a named object. -/
def namedBody? : Node ε → Option (Body ε)
  | named _ body => some body
  | _ => none

/-- The members of a union. -/
def members? : Node ε → Option (List TypeId)
  | union members => some members
  | _ => none

/-- The members of a discriminated object. -/
def variants? : Node ε → Option (Variants ε)
  | discriminated _ _ variants => some variants
  | _ => none

/-- The node with direct edges replaced by their targets, if it is shared: all its edges are direct
and it is not a discriminated object. -/
def direct? {δ : Type} : Node (Edge δ) → Option (Node TypeId)
  | any => some .any
  | primitive p => some (.primitive p)
  | literal value => some (.literal value)
  | object body => body.direct?.map .object
  | named name body => body.direct?.map (.named name)
  | array item => some (.array item)
  | union members => some (.union members)
  | discriminated _ _ _ => none
  | resource => some .resource

end Node

end TypeGraph
