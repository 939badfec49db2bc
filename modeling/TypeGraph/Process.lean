import TypeGraph.Invocation
import TypeGraph.Log.Line
import TypeGraph.Text.Lines

/-!
# A run of the program

What the program writes and the code with which it ends, as a function of its arguments and of the
variables that control its log.
-/

namespace TypeGraph

open Log (Filter Style Line)

/-- The lines of a text, without what ends them. -/
def linesOf (text : String) : List String := (Text.lines text.toList).map .ofList

/-- The variables that control the log. -/
structure Environment where
  /-- The filter. -/
  log : Option String
  /-- The filter that holds if the other is not set. -/
  commonLog : Option String
  /-- The form of the log. -/
  logFormat : Option String

namespace Environment

/-- The name of the variable for the filter. -/
def logVariable : String := "STRATUS_LOG"

/-- The name of the variable for the filter that several programs share. -/
def commonLogVariable : String := "RUST_LOG"

/-- The name of the variable for the form of the log. -/
def logFormatVariable : String := "STRATUS_LOG_FORMAT"

/-- The text of the filter, if events are logged at all. -/
def filterText? (env : Environment) : Option String := env.log <|> env.commonLog

/-- The log of some events. -/
def logLines (env : Environment) (events : List Event) : List Line :=
  match env.filterText? with
  | some text => Log.lines (.named (env.logFormat.getD "")) (.ofText text) events
  | none => []

/-- The lines of the complaints about the filter. -/
def warnings (env : Environment) : List String :=
  match env.filterText? with
  | some text => (Filter.complaints text).flatMap linesOf
  | none => []

end Environment

/-- The name and version of the program. -/
def versionText : String := "stratus 0.1.0\n"

/-- How the program is used. -/
def helpText : String :=
  "Usage: stratus [--format text|json] <types | modifier TYPE | resource TYPE@VERSION>\n"

/-- What a run of the program leaves behind. -/
structure ProcessOutcome where
  code : Nat
  output : String
  /-- What is said about the variables before anything else. -/
  warnings : List String
  log : List Line
  /-- The lines of the error report; the wording of usage errors is left open. -/
  errors : Option (List String)

/-- The lines that are neither output nor log. -/
def ProcessOutcome.remarks (o : ProcessOutcome) : Option (List String) :=
  o.errors.map (o.warnings ++ ·)

/-- The report of an error, one string for each line. -/
def CommandError.report (e : CommandError) : List String :=
  let text := "Error: " ++ e.message ++
    match e.chain with
    | [_, cause] => "\n\nCaused by:\n    " ++ cause
    | _ => ""
  linesOf text

/-- Run the program. -/
def Environment.run (env : Environment) (words : List String) : ProcessOutcome :=
  match Invocation.ofWords words with
  | .error .versionRequested => ⟨0, versionText, env.warnings, [], some []⟩
  | .error .helpRequested => ⟨0, helpText, env.warnings, [], some []⟩
  | .error _ => ⟨2, "", env.warnings, [], none⟩
  | .ok invocation =>
    let outcome := invocation.run
    let log := env.logLines outcome.events
    match outcome.result with
    | .ok text => ⟨0, text ++ "\n", env.warnings, log, some []⟩
    | .error e => ⟨1, "", env.warnings, log, some e.report⟩

end TypeGraph
