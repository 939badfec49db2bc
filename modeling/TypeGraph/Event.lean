import TypeGraph.Refusal

/-!
# Events

What happens while types are made is recorded as a list of events. An event has a level, a target
(the part of the program that it comes from), a message and fields.
-/

namespace TypeGraph

/-- How much detail an event belongs to, from the most important to the least. -/
inductive Level where
  | error
  | warn
  | info
  | debug
  | trace
  deriving DecidableEq

namespace Level

/-- The name of a level. -/
def name : Level → String
  | error => "ERROR"
  | warn => "WARN"
  | info => "INFO"
  | debug => "DEBUG"
  | trace => "TRACE"

/-- The place of a level in the order of growing detail, from one. -/
def rank : Level → Nat
  | error => 1
  | warn => 2
  | info => 3
  | debug => 4
  | trace => 5

end Level

/-- The value of a field of an event. -/
inductive FieldValue where
  | number (n : Nat)
  /-- Text that log lines show as it is. -/
  | plain (text : String)
  /-- Text that log lines show between double quotes. -/
  | string (text : String)
  deriving DecidableEq

/-- Something that happened while types were made. -/
inductive Event where
  /-- A type took the next free id. -/
  | typeAdded (id : TypeId) (name : String) (kind : Kind)
  /-- A union of two or more members was asked for. -/
  | unionFormed (members : Nat) (name : String)
  /-- The members of a discriminated object passed the check. -/
  | discriminatedFormed (object key : String) (members : Nat)
  /-- The members of a discriminated object did not pass the check. -/
  | discriminatedRefused (object : String) (cause : Refusal)
  /-- The properties of a parameter modifier were collected. -/
  | modifierFormed (name : String) (properties : Nat)
  /-- The properties of a resource were collected. -/
  | resourceFormed (name : String) (properties : Nat)
  /-- The parameter modifier of a type was asked for by its name. -/
  | modifierRequested (typeName : String)
  deriving DecidableEq

namespace Event

/-- The detail that an event belongs to. -/
def level : Event → Level
  | typeAdded _ _ _ => .trace
  | discriminatedRefused _ _ => .warn
  | _ => .debug

/-- The part of the program that an event comes from. -/
def target : Event → String
  | typeAdded _ _ _ => "stratus_types::context"
  | unionFormed _ _ => "stratus_types::union"
  | discriminatedFormed _ _ _ => "stratus_types::discriminant"
  | discriminatedRefused _ _ => "stratus_types::discriminant"
  | modifierFormed _ _ => "stratus_types::schema"
  | resourceFormed _ _ => "stratus_types::schema"
  | modifierRequested _ => "stratus_cli::commands::modifier"

/-- The wording of an event. -/
def message : Event → String
  | typeAdded _ _ _ => "new type"
  | unionFormed _ _ => "canonical union"
  | discriminatedFormed _ _ _ => "discriminated object"
  | discriminatedRefused _ _ => "rejected discriminated object"
  | modifierFormed _ _ => "parameter modifier type"
  | resourceFormed _ _ => "resource type"
  | modifierRequested _ => "synthesizing parameter modifier"

/-- The fields of an event in the order in which they are written. -/
def fields : Event → List (String × FieldValue)
  | typeAdded id name kind =>
    [("id", .number id.index), ("name", .string name), ("kind", .plain kind.name)]
  | unionFormed members name => [("members", .number members), ("union", .plain name)]
  | discriminatedFormed object key members =>
    [("object", .plain object), ("key", .plain key), ("members", .number members)]
  | discriminatedRefused object cause =>
    [("object", .plain object), ("error", .plain cause.message)]
  | modifierFormed name properties =>
    [("modifier", .plain name), ("properties", .number properties)]
  | resourceFormed name properties =>
    [("resource", .plain name), ("properties", .number properties)]
  | modifierRequested typeName => [("type_name", .string typeName)]

end Event

end TypeGraph
