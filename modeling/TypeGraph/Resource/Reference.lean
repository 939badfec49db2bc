import TypeGraph.Refusal
import TypeGraph.Text.DecimalDigit
import TypeGraph.Text.Fields
import TypeGraph.Text.Regex

/-!
# References to resource types

A reference such as `Example.Web/sites/slots@2020-01-01-preview` names a provider, the types within
it from the outermost to the innermost, and a version of its interface. It is found by a regular
expression, whose groups are the three parts.
-/

namespace TypeGraph.Resource

open Text (Regex fields isDecimalDigit)

/-- A reference to a version of a resource type. -/
structure Reference where
  provider : String
  types : List String
  version : String
  deriving DecidableEq

namespace Reference

/-- The class `[a-z0-9]`. -/
def isNameChar (c : Char) : Bool := c.isLower || c.isDigit

/-- The provider: `[a-z0-9][a-z0-9.]*`. -/
def providerPart : Regex :=
  .seq (.one isNameChar) (.many (.one fun c => isNameChar c || c == '.'))

/-- The types, each behind a slash: `(?:/[a-z0-9\-]+)+`. -/
def typesPart : Regex :=
  .several (.seq (.sign '/') (.several (.one fun c => isNameChar c || c == '-')))

/-- The stages that may follow the date of a version. -/
def stages : List String := ["preview", "alpha", "beta", "rc", "privatepreview"]

/-- The version, a date of decimal digits of any script and perhaps a stage of release:
`\d{4}-\d{2}-\d{2}(?:-(?:preview|alpha|beta|rc|privatepreview))?`. -/
def versionPart : Regex :=
  .inOrder
    [.times 4 (.one isDecimalDigit), .sign '-', .times 2 (.one isDecimalDigit), .sign '-',
     .times 2 (.one isDecimalDigit),
     .optional (.seq (.sign '-') (.firstOf (stages.map .word)))]

/-- The whole text: `(?i)^(?P<namespace>…)(?P<types>…)@(?P<version>…)$`. -/
def pattern : Regex :=
  .ignoringCase <| .inOrder
    [.textStart, .group "namespace" providerPart, .group "types" typesPart, .sign '@',
     .group "version" versionPart, .textEnd]

/-- Read a reference off a text. The expression lets dots follow one another and stand at the end of
the provider, and this is looked into afterwards. The text of the types begins with a slash, and so
there is an empty piece before the first one. -/
def parse? (text : String) : Option Reference := do
  let found ← pattern.find? text.toList
  let provider ← found.group? "namespace"
  let types ← found.group? "types"
  let version ← found.group? "version"
  if (fields '.' provider).any (·.isEmpty) then none
  else
    some ⟨.ofList provider, ((fields '/' types).filter (!·.isEmpty)).map .ofList, .ofList version⟩

/-- Read a reference off a text, or refuse the text. -/
def parse (text : String) : Except Refusal Reference :=
  match parse? text with
  | some reference => .ok reference
  | none => .error (.malformedReference text)

/-- The provider and the types, with slashes between them. -/
def fullType (r : Reference) : String := "/".intercalate (r.provider :: r.types)

/-- The reference in the form in which it is read. -/
def text (r : Reference) : String := r.fullType ++ "@" ++ r.version

end Reference

end TypeGraph.Resource
