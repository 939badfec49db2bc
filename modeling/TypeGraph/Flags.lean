/-!
# Property flags

Eight bits that qualify a property. Five of them have a meaning and a name; the others are carried
along unchanged.
-/

namespace TypeGraph

/-- The qualifications of a property, one bit each. -/
structure Flags where
  bits : UInt8
  deriving DecidableEq

namespace Flags

/-- No qualification. -/
def none : Flags := ⟨0⟩

/-- The property must be given. -/
def required : Flags := ⟨1⟩

/-- The property cannot be assigned. -/
def readOnly : Flags := ⟨2⟩

/-- The property cannot be read. -/
def writeOnly : Flags := ⟨4⟩

/-- The value is a compile-time constant. -/
def constant : Flags := ⟨8⟩

/-- The value is never replaced by its definition. -/
def skipInlining : Flags := ⟨16⟩

instance : OrOp Flags := ⟨fun a b => ⟨a.bits ||| b.bits⟩⟩

/-- Every bit of `part` is set in `whole`. -/
def contains (whole part : Flags) : Bool := whole.bits &&& part.bits == part.bits

/-- The flags with a meaning, each with its name, lowest bit first. -/
def table : List (Flags × String) :=
  [(required, "Required"), (readOnly, "ReadOnly"), (writeOnly, "WriteOnly"),
   (constant, "Constant"), (skipInlining, "SkipInlining")]

/-- The names of the flags that are set, in the order of the table. -/
def names (flags : Flags) : List String :=
  (table.filter fun row => flags.contains row.1).map (·.2)

/-- The bits that have a meaning. -/
def known (flags : Flags) : Flags := ⟨flags.bits &&& 0x1F⟩

/-- Every bit that is set has a meaning. -/
def isKnown (flags : Flags) : Bool := flags.bits &&& 0xE0 == 0

/-- No bit is set. -/
def isEmpty (flags : Flags) : Bool := flags.bits == 0

/-- A user may assign the property. -/
def userWritable (flags : Flags) : Bool := !flags.contains readOnly

/-- A user may read the property. -/
def readable (flags : Flags) : Bool := !flags.contains writeOnly

end Flags

end TypeGraph
