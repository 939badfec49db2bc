/-!
# The vocabulary of the declaration language

Keywords, separators and limits that the rest of the library and its users share.
-/

namespace TypeGraph.Vocabulary

/-- The most parameters that one file may declare. -/
def maxParameterCount : Nat := 256

/-- The most characters in an identifier. -/
def maxIdentifierLength : Nat := 255

/-- Stands between the items of a list in a message. -/
def listSeparator : String := ", "

/-- Opens a parameter declaration. -/
def parameterKeyword : String := "param"

/-- Opens an output declaration. -/
def outputKeyword : String := "output"

/-- Opens a variable declaration. -/
def variableKeyword : String := "var"

/-- Opens a resource declaration. -/
def resourceKeyword : String := "resource"

/-- Stands on both sides of a string. -/
def stringDelimiter : String := "'"

/-- Opens an interpolated expression in a string. -/
def stringHoleOpen : String := "$\x7b"

/-- Closes an interpolated expression in a string. -/
def stringHoleClose : String := "\x7d"

/-- The types that a declaration may name. -/
def declarationTypeNames : List String := ["array", "bool", "int", "object", "string"]

/-- Stands between the members in the name of a union. -/
def unionSeparator : String := " | "

/-- Opens the name of a parameter modifier type. -/
def modifierNameStart : String := "ParameterModifier_"

/-- The items of a list with the list separator between them. -/
def listed (items : List String) : String := listSeparator.intercalate items

end TypeGraph.Vocabulary
