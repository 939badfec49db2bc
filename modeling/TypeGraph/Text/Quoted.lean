import TypeGraph.Vocabulary

/-!
# Quoted text

A string value is written between single quotes. A backslash stands before a backslash, before a
quote and before the opening `${` of an interpolation; line feed, carriage return and tab have
letters of their own. Every other character stands for itself.
-/

namespace TypeGraph.Text

open Vocabulary (stringDelimiter stringHoleOpen)

/-- The characters of a value as they are written between the quotes. -/
def escape : List Char → List Char
  | [] => []
  | '\\' :: cs => '\\' :: '\\' :: escape cs
  | '\x27' :: cs => '\\' :: '\x27' :: escape cs
  | '\n' :: cs => '\\' :: 'n' :: escape cs
  | '\r' :: cs => '\\' :: 'r' :: escape cs
  | '\t' :: cs => '\\' :: 't' :: escape cs
  | '$' :: '{' :: cs => '\\' :: (stringHoleOpen.toList ++ escape cs)
  | c :: cs => c :: escape cs

/-- The quoted form of a value. -/
def quoted (value : String) : String :=
  stringDelimiter ++ String.ofList (escape value.toList) ++ stringDelimiter

end TypeGraph.Text
