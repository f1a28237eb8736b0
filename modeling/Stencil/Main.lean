import Stencil.CommandLine.Run

/-! # The program

Reads the files that a command line names and writes the result. -/
namespace Stencil.CommandLine

private def textOf (content : ByteArray) : Except ReadFault String :=
  match Text.decode? content.toList with
  | some text => .ok (String.ofList text)
  | none => .error .notText

private def readText (path : String) : IO (Except ReadFault String) := do
  try
    return textOf (← IO.FS.readBinFile path)
  catch
    | .noFileOrDirectory .. => return .error .missing
    | e => return .error (.refused (toString e))

private def readInput : IO (Except ReadFault String) := do
  return textOf (← (← IO.getStdin).readBinToEnd)

/-- Runs the program, and ends with its exit code. -/
def runProgram (words : List String) : IO UInt32 := do
  let outcome ← run ⟨readText, readInput⟩ words
  IO.print outcome.output
  IO.eprint outcome.report
  return outcome.code

end Stencil.CommandLine

def main (words : List String) : IO UInt32 := Stencil.CommandLine.runProgram words
