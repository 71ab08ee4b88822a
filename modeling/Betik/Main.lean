/-
The command line program: reads what it is given, asks the library for an answer,
and prints it.
-/
import Betik.CommandLine

namespace Betik

def readSource (file : String) : IO (Except CommandLine.ReadFailure String) := do
  try
    match String.fromUTF8? (← IO.FS.readBinFile file) with
    | some source => return .ok source
    | none => return .error .invalidText
  catch
    | .inappropriateType .. => return .error .isDirectory
    | _ => return .error .notFound

/-- More steps than any run of a program can take in practice. -/
def endlessFuel : Nat := 1 <<< 62

/-- Runs the command line and gives its exit code.  Input is read only if there is
a program to read it. -/
def serve (args : List String) : IO UInt32 := do
  let source ← match CommandLine.Request.ofArguments args with
    | .run file _ => readSource file
    | _ => pure (.error .notFound)
  let stdin ← match source with
    | .ok _ => (← IO.getStdin).readBinToEnd
    | .error _ => pure ByteArray.empty
  match CommandLine.respond endlessFuel (fun _ => source) args stdin.toList with
  | none => return CommandLine.exitSoftware.toUInt32
  | some report =>
    let output ← IO.getStdout
    output.write report.output
    output.flush
    IO.eprint report.diagnostics
    return report.exitCode.toUInt32

end Betik

def main (args : List String) : IO UInt32 :=
  Betik.serve args
