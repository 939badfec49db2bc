import TypeGraph.Process

/-!
# The command line

Reads the arguments and the environment, runs the program and writes what it leaves behind.
-/

open TypeGraph

/-- Run the program on the arguments and the environment of this process. -/
def main (words : List String) : IO UInt32 := do
  let env : Environment :=
    ⟨← IO.getEnv Environment.logVariable, ← IO.getEnv Environment.commonLogVariable,
      ← IO.getEnv Environment.logFormatVariable⟩
  let outcome := env.run words
  for line in outcome.warnings do
    IO.eprintln line
  for line in outcome.log do
    IO.eprintln line.written
  for line in outcome.errors.getD [helpText] do
    IO.eprintln line
  IO.print outcome.output
  return outcome.code.toUInt32
