import TypeGraph.Command

/-!
# Invocations

An invocation is a command with the form of its report. The words of a command line are first sorted
into tokens, then read from left to right: options, the name of a command, more options and the
argument of the command. `--format` may stand on both sides of the name; the later one counts.

A value that is written as `--format=json` is looked at where it stands. One that is a word of its
own waits until the next known option or the argument of the command is reached, and otherwise until
all words are read; for a value before the name of the command these are the words after the name
too. So a word that is not understood is reported before a value that is still waiting.
-/

namespace TypeGraph

/-- A command and the form of its report. -/
structure Invocation where
  command : Command
  format : Format
  deriving DecidableEq

/-- Why the words of a command line give no invocation. -/
inductive UsageError where
  /-- Nothing was given at all. -/
  | nothingGiven
  | missingCommand
  | unknownCommand
  | missingArgument
  | unknownArgument
  | invalidValue
  /-- A flag was given a value. -/
  | surplusValue
  /-- An option was given twice. -/
  | conflict
  | helpRequested
  | versionRequested
  deriving DecidableEq

namespace Arguments

/-- A word of the command line, or an option with its value. -/
inductive Token where
  /-- The mark behind which no word is an option. -/
  | separator
  /-- The option for the form, with the word that follows as its value. -/
  | format (value : Option String)
  /-- The option for the form, with a value in the same word. -/
  | formatIs (value : String)
  | help
  | version
  /-- A flag of the given name with a value. -/
  | valued (flag : Token)
  | unknown
  | word (text : String)

/-- The token that a word stands for on its own. -/
def token (text : String) : Token :=
  match text.toList with
  | '-' :: '-' :: name =>
    match name.span (· ≠ '=') with
    | ([], []) => .separator
    | (name, value) =>
      match String.ofList name, value with
      | "format", '=' :: value => .formatIs (.ofList value)
      | "format", _ => .format none
      | "help", [] => .help
      | "help", _ => .valued .help
      | "version", [] => .version
      | "version", _ => .valued .version
      | _, _ => .unknown
  | '-' :: 'h' :: _ => .help
  | '-' :: 'V' :: _ => .version
  | '-' :: _ :: _ => .unknown
  | _ => .word text

/-- The tokens of the words behind an option that awaits its value, or behind none. The next word is
the value, unless it is an option itself. -/
def tokensAfter : (awaiting : Bool) → List String → List Token
  | awaiting, [] => if awaiting then [.format none] else []
  | awaiting, text :: rest =>
    match awaiting, token text with
    | true, .word value => .format (some value) :: tokensAfter false rest
    | _, t =>
      (if awaiting then [.format none] else []) ++
        match t with
        | .separator => .separator :: rest.map .word
        | .format none => tokensAfter true rest
        | t => t :: tokensAfter false rest

/-- The tokens of a command line. -/
def tokens (words : List String) : List Token := tokensAfter false words

/-- The option `--format` on one side of the command's name. -/
structure FormatOption where
  /-- The form that was chosen. -/
  chosen : Option Format
  /-- A value that was not yet looked at; the value itself may be missing. -/
  waiting : Option (Option String)

namespace FormatOption

/-- The option was not given. -/
def absent : FormatOption := ⟨none, none⟩

/-- The form with the given name. -/
def formatNamed? : String → Option Format
  | "text" => some .text
  | "json" => some .json
  | _ => none

/-- The form with the given name, unless one was chosen before. -/
def choose (chosen : Option Format) (value : String) : Except UsageError Format :=
  match chosen, formatNamed? value with
  | some _, _ => .error .conflict
  | none, some format => .ok format
  | none, none => .error .invalidValue

/-- Look at the value that waits, if there is one. -/
def settle (o : FormatOption) : Except UsageError (Option Format) :=
  match o.waiting with
  | none => .ok o.chosen
  | some none => .error .invalidValue
  | some (some value) => some <$> choose o.chosen value

/-- The option is given with a value that waits. -/
def await (value : Option String) (o : FormatOption) : Except UsageError FormatOption := do
  return ⟨← o.settle, some value⟩

/-- The option is given with a value that is looked at. -/
def assign (value : String) (o : FormatOption) : Except UsageError FormatOption := do
  return ⟨some (← choose (← o.settle) value), none⟩

/-- The value that waits is looked at. -/
def settled (o : FormatOption) : Except UsageError FormatOption := do
  return ⟨← o.settle, none⟩

end FormatOption

/-- A command still without its argument. -/
inductive CommandName where
  | types
  | modifier
  | resource

/-- The command with the given name. -/
def commandNamed? : String → Option CommandName
  | "types" => some .types
  | "modifier" => some .modifier
  | "resource" => some .resource
  | _ => none

/-- The command with the argument that was given for it. -/
def CommandName.complete : CommandName → Option String → Except UsageError Command
  | types, _ => .ok .types
  | modifier, some typeName => .ok (.modifier typeName)
  | resource, some text => .ok (.resource text)
  | _, none => .error .missingArgument

/-- The command takes an argument. -/
def CommandName.takesArgument : CommandName → Bool
  | types => false
  | _ => true

/-- Read what follows the name of a command. The form is given only if it is chosen there. -/
def readCommand (name : CommandName) :
    FormatOption → Option String → List Token → Except UsageError (Command × Option Format)
  | o, argument, [] => do
    let chosen ← o.settle
    return (← name.complete argument, chosen)
  | o, argument, .separator :: rest => readCommand name o argument rest
  | o, argument, .format value :: rest => do readCommand name (← o.await value) argument rest
  | o, argument, .formatIs value :: rest => do readCommand name (← o.assign value) argument rest
  | o, _, .help :: _ => do
    let _ ← o.settle
    .error .helpRequested
  | _, _, .valued .help :: _ => .error .surplusValue
  | o, argument, .word text :: rest =>
    if name.takesArgument && argument.isNone then do
      readCommand name (← o.settled) (some text) rest
    else .error .unknownArgument
  | _, _, _ :: _ => .error .unknownArgument

/-- The word is the name of a command, or `help`. -/
def isName (text : String) : Bool := text = "help" || (commandNamed? text).isSome

/-- What follows the word `help`: nothing, or the name of a command. -/
def readHelp : List Token → UsageError
  | [] => .helpRequested
  | [.word name] => if isName name then .helpRequested else .unknownCommand
  | _ => .unknownCommand

/-- Read a command line up to the name of the command, and then the rest. Behind a separator there
is no place for the name. -/
def readWords : FormatOption → List Token → Except UsageError Invocation
  | o, [] => do
    match ← o.settle with
    | none => .error .nothingGiven
    | some _ => .error .missingCommand
  | _, .separator :: .word text :: _ =>
    .error (if isName text then .unknownArgument else .unknownCommand)
  | o, .separator :: rest => readWords o rest
  | o, .format value :: rest => do readWords (← o.await value) rest
  | o, .formatIs value :: rest => do readWords (← o.assign value) rest
  | o, .help :: _ => do
    let _ ← o.settle
    .error .helpRequested
  | o, .version :: _ => do
    let _ ← o.settle
    .error .versionRequested
  | _, .valued _ :: _ => .error .surplusValue
  | _, .unknown :: _ => .error .unknownArgument
  | o, .word text :: rest =>
    if text = "help" then .error (readHelp rest)
    else
      match commandNamed? text with
      | none => .error .unknownCommand
      | some name => do
        let (command, chosen) ← readCommand name .absent none rest
        let before ← o.settle
        return ⟨command, (chosen <|> before).getD .text⟩

end Arguments

/-- The invocation that the words of a command line give. -/
def Invocation.ofWords (words : List String) : Except UsageError Invocation :=
  Arguments.readWords .absent (Arguments.tokens words)

/-- Carry out what a command line asks for. -/
def Invocation.run (i : Invocation) : CommandOutcome := i.command.run i.format

end TypeGraph
