/-!
# JSON documents

The values that reports are made of, and their layout over several lines: two blanks for each level
of nesting, one item or field on a line, and nothing inside empty brackets. Records of a log are
written on one line.
-/

namespace TypeGraph

/-- A JSON value; the fields of an object are in order. -/
inductive Json where
  | text (s : String)
  | number (n : Nat)
  | list (items : List Json)
  | object (fields : List (String × Json))

namespace Json

/-- A hexadecimal digit in lower case. -/
def hexDigit (n : Nat) : Char := if n < 10 then Char.ofNat (48 + n) else Char.ofNat (87 + n)

/-- A character as it is written in a string. Only the quote, the backslash and the characters below
the blank are not written as they are. -/
def escapeChar (c : Char) : List Char :=
  if c = '"' then ['\\', '"']
  else if c = '\\' then ['\\', '\\']
  else if c = '\x08' then ['\\', 'b']
  else if c = '\x0c' then ['\\', 'f']
  else if c = '\n' then ['\\', 'n']
  else if c = '\r' then ['\\', 'r']
  else if c = '\t' then ['\\', 't']
  else if c.toNat < 0x20 then
    ['\\', 'u', '0', '0', hexDigit (c.toNat / 16), hexDigit (c.toNat % 16)]
  else [c]

/-- A string between double quotes. -/
def quote (s : String) : List Char := '"' :: (s.toList.flatMap escapeChar ++ ['"'])

/-- The start of a line at the given level of nesting. -/
def newLine (level : Nat) : List Char := '\n' :: List.replicate (2 * level) ' '

mutual

/-- The layout of a value at the given level of nesting. -/
def layout (level : Nat) : Json → List Char
  | text s => quote s
  | number n => (toString n).toList
  | list [] => ['[', ']']
  | list (item :: items) =>
    '[' :: (newLine (level + 1) ++ layout (level + 1) item ++ layoutItems level items)
  | object [] => ['{', '}']
  | object ((name, value) :: fields) =>
    '{' :: (newLine (level + 1) ++ quote name ++ [':', ' '] ++ layout (level + 1) value ++
      layoutFields level fields)

/-- The items behind the first, and the end of the list. -/
def layoutItems (level : Nat) : List Json → List Char
  | [] => newLine level ++ [']']
  | item :: items =>
    ',' :: (newLine (level + 1) ++ layout (level + 1) item ++ layoutItems level items)

/-- The fields behind the first, and the end of the object. -/
def layoutFields (level : Nat) : List (String × Json) → List Char
  | [] => newLine level ++ ['}']
  | (name, value) :: fields =>
    ',' :: (newLine (level + 1) ++ quote name ++ [':', ' '] ++ layout (level + 1) value ++
      layoutFields level fields)

end

mutual

/-- The layout of a value on one line. -/
def inline : Json → List Char
  | text s => quote s
  | number n => (toString n).toList
  | list [] => ['[', ']']
  | list (item :: items) => '[' :: (inline item ++ inlineItems items)
  | object [] => ['{', '}']
  | object ((name, value) :: fields) =>
    '{' :: (quote name ++ [':'] ++ inline value ++ inlineFields fields)

/-- The items behind the first, and the end of the list. -/
def inlineItems : List Json → List Char
  | [] => [']']
  | item :: items => ',' :: (inline item ++ inlineItems items)

/-- The fields behind the first, and the end of the object. -/
def inlineFields : List (String × Json) → List Char
  | [] => ['}']
  | (name, value) :: fields => ',' :: (quote name ++ [':'] ++ inline value ++ inlineFields fields)

end

/-- The document for a value on one line. -/
def compact (value : Json) : String := String.ofList value.inline

/-- The document for a value. -/
def pretty (value : Json) : String := String.ofList (value.layout 0)

end Json

end TypeGraph
