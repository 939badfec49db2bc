import TypeGraph.Graph.Build

/-!
# Discriminated objects

A discriminated object is one of several named objects that are told apart by a property which is a
string literal in each of them. `Graph.variants` checks the members one by one and stops at the
first that is not as it should be.
-/

namespace TypeGraph

namespace Graph

variable {δ : Type}

/-- The value of the property `key` of a member, as a string literal. -/
def discriminator [Deferral δ] (g : Graph δ) (object key : String) (member : Edge δ) :
    Except Failure String :=
  match g.node? (g.resolve member) with
  | none => .error .dangling
  | some (.named _ body) =>
    match body.property? key with
    | none => .error (.refused (.missingDiscriminator object (g.display (g.resolve member)) key))
    | some p =>
      match g.node? (g.resolve p.type) with
      | none => .error .dangling
      | some (.literal value) => .ok value
      | some _ =>
        .error (.refused (.discriminatorNotLiteral object (g.display (g.resolve member)) key
          (g.display (g.resolve p.type))))
  | some node =>
    .error (.refused (.memberNotObject object (g.display (g.resolve member)) node.kind))

/-- The members under their quoted values, behind those that are `known`. -/
def variantsAfter [Deferral δ] (g : Graph δ) (object key : String) (known : Variants (Edge δ)) :
    List (Edge δ) → Except Failure (Variants (Edge δ))
  | [] => .ok known
  | member :: members =>
    match g.discriminator object key member with
    | .error failure => .error failure
    | .ok value =>
      if known.any (·.1 == Text.quoted value) then
        .error (.refused (.repeatedDiscriminator object (g.display (g.resolve member)) key
          (Text.quoted value)))
      else
        g.variantsAfter object key (known ++ [(Text.quoted value, member)]) members

/-- The members under their quoted values, in the order in which they are given. -/
def variants [Deferral δ] (g : Graph δ) (object key : String) (members : List (Edge δ)) :
    Except Failure (Variants (Edge δ)) :=
  g.variantsAfter object key [] members

end Graph

/-- The member under a quoted value. -/
def Variants.member? {ε : Type} (variants : Variants ε) (key : String) : Option ε :=
  variants.lookup key

/-- The member for a value. -/
def Variants.memberFor? {ε : Type} (variants : Variants ε) (value : String) : Option ε :=
  variants.member? (Text.quoted value)

namespace Build

variable {δ : Type}

/-- One of several named objects, told apart by the property `key`. It always has a slot of its
own. -/
def discriminated [Deferral δ] (name key : String) (members : List (Edge δ)) : Build δ TypeId := do
  match ← read (·.variants name key members) with
  | .error (.refused cause) =>
    emit (.discriminatedRefused name cause)
    refuse cause
  | .error failure => fail failure
  | .ok variants =>
    emit (.discriminatedFormed name key variants.length)
    place ⟨name, .discriminated name key variants⟩

end Build

end TypeGraph
