import TypeGraph.Graph.Fresh
import TypeGraph.Operation
import TypeGraph.Recipe

/-!
# Sessions

A session works on several graphs, of which the first is there from the start; others are made fresh
or copied from one that is there. Each step has a label, by which later steps refer to the type that
it gave. A declaration gives out a token, the number of earlier declarations, and its definition
names the token. A step that fails changes nothing, and the session goes on.
-/

namespace TypeGraph

namespace Session

/-- A reference to a type, as a step gives it. -/
inductive Ref where
  | id (id : TypeId)
  /-- The type that the step with a label gave. -/
  | step (label : Nat)
  /-- What another reference leads to, found late. -/
  | later (ref : Ref)
  /-- The type registered under a name, or else what another reference leads to, found late. -/
  | named (name : String) (otherwise : Ref)
  /-- The type that was made last, found late. -/
  | newest

namespace Ref

/-- The rule that finds what a reference leads to, given the types of earlier steps. -/
def recipe? (given : List (Nat × TypeId)) : Ref → Option Recipe
  | id target => some (.fixed target)
  | step label => (given.lookup label).map .fixed
  | later ref => ref.recipe? given
  | named name otherwise => (otherwise.recipe? given).map (.named name)
  | newest => some .newest

/-- The edge that a reference stands for, given the types of earlier steps. -/
def edge? (given : List (Nat × TypeId)) : Ref → Option (Edge Recipe)
  | id target => some (.direct target)
  | step label => (given.lookup label).map .direct
  | ref => (ref.recipe? given).map .deferred

end Ref

/-- What a step does. -/
inductive Action where
  /-- Add a fresh graph. -/
  | fresh
  /-- Add a copy of the graph of the step. -/
  | copy
  /-- Ask something of the graph of the step. -/
  | perform (operation : Operation Ref Nat)

/-- One step of a session. -/
structure Step where
  label : Nat
  graph : Nat
  action : Action

/-- How a step ends. -/
inductive Result where
  /-- A graph was added at the given index. -/
  | opened (graph : Nat)
  | answered (answer : Answer)
  /-- A token was given out with the answer. -/
  | declared (token : Nat) (answer : Answer)
  | failed (failure : Failure)
  /-- The step refers to something that is not there. -/
  | unreadable

/-- The reply to a step: how it ended and what happened on the way. -/
structure Reply where
  result : Result
  /-- The size of the step's graph afterwards, where it is told. -/
  size : Option Nat
  events : List Event

end Session

/-- The state between two steps. -/
structure Session where
  graphs : Array (Graph Recipe)
  /-- The types that steps gave, by the labels of the steps. -/
  given : List (Nat × TypeId)
  /-- The objects that were declared, in order. -/
  tokens : Array TypeId

namespace Session

/-- The state before the first step. -/
def start : Session := ⟨#[.fresh], [], #[]⟩

/-- The size of a graph goes with every answer but two. -/
def sizeFor (g : Graph Recipe) : Answer → Option Nat
  | .notObject => none
  | .notDiscriminated => none
  | _ => some g.size

/-- The size of a graph goes with refusals, and not with dangling ids. -/
def sizeOnFailure (g : Graph Recipe) : Failure → Option Nat
  | .refused _ => some g.size
  | .dangling => none

/-- Keep the type that the step with the given label gave. -/
def give (s : Session) (label : Nat) (answer : Answer) : Session :=
  match answer.id? with
  | some id => { s with given := (label, id) :: s.given }
  | none => s

/-- Ask something of the graph at the given index. -/
def perform (s : Session) (label index : Nat) (g : Graph Recipe)
    (operation : Operation (Edge Recipe) TypeId) : Session × Reply :=
  match operation.run g with
  | ⟨.error failure, g', events⟩ =>
    ({ s with graphs := s.graphs.setIfInBounds index g' },
      ⟨.failed failure, sizeOnFailure g' failure, events⟩)
  | ⟨.ok answer, g', events⟩ =>
    let s' := { s with graphs := s.graphs.setIfInBounds index g' }.give label answer
    match operation, answer.id? with
    | .declare _, some id =>
      ({ s' with tokens := s.tokens.push id },
        ⟨.declared s.tokens.size answer, sizeFor g' answer, events⟩)
    | _, _ => (s', ⟨.answered answer, sizeFor g' answer, events⟩)

/-- Take a step. -/
def step (s : Session) (st : Step) : Session × Reply :=
  match st.action, s.graphs[st.graph]? with
  | .fresh, _ =>
    ({ s with graphs := s.graphs.push .fresh }, ⟨.opened s.graphs.size, none, Graph.freshEvents⟩)
  | .copy, some g => ({ s with graphs := s.graphs.push g }, ⟨.opened s.graphs.size, none, []⟩)
  | .perform operation, some g =>
    match operation.bind? (Ref.edge? s.given) (s.tokens[·]?) with
    | some operation => s.perform st.label st.graph g operation
    | none => (s, ⟨.unreadable, none, []⟩)
  | _, none => (s, ⟨.unreadable, none, []⟩)

/-- Take steps one after the other. -/
def run (s : Session) : List Step → Session × List Reply
  | [] => (s, [])
  | st :: rest =>
    let (s', reply) := s.step st
    let (s'', replies) := s'.run rest
    (s'', reply :: replies)

end Session

end TypeGraph
