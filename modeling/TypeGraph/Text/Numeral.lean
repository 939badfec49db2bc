/-!
# Numerals

A numeral has a sign or none and then is a decimal, with a point and an exponent of ten or without
them, or the name of a number that no decimal stands for.
-/

namespace TypeGraph.Text

/-- One digit or more. -/
def isDigits (cs : List Char) : Bool := !cs.isEmpty && cs.all Char.isDigit

/-- The text without the sign at its start. -/
def withoutSign : List Char → List Char
  | '+' :: cs => cs
  | '-' :: cs => cs
  | cs => cs

/-- An exponent, or nothing. -/
def isExponent : List Char → Bool
  | [] => true
  | e :: digits => (e == 'e' || e == 'E') && isDigits (withoutSign digits)

/-- The names of numbers, in lower case. -/
def numberNames : List String := ["inf", "infinity", "nan"]

/-- A numeral without a sign. -/
def isMagnitude (cs : List Char) : Bool :=
  let (whole, rest) := cs.span Char.isDigit
  match rest with
  | '.' :: rest =>
    let (fraction, rest) := rest.span Char.isDigit
    !(whole.isEmpty && fraction.isEmpty) && isExponent rest
  | rest => !whole.isEmpty && isExponent rest

/-- A numeral. -/
def isNumeral (cs : List Char) : Bool :=
  let magnitude := withoutSign cs
  numberNames.contains (String.ofList (magnitude.map Char.toLower)) || isMagnitude magnitude

end TypeGraph.Text
