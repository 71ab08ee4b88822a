/-
The command line as a function: from the arguments, the standard input and a way
to read files to what the program prints and how it exits.
-/
import Betik.Script
import Betik.Syntax.Render

namespace Betik
namespace CommandLine

def version : String :=
  "gokdil 0.1.0"

def help : String :=
  "\n".intercalate [
    version,
    "Runs a GökDil program",
    "",
    "USAGE:",
    "    gokdil [OPTIONS] <FILE>",
    "",
    "ARGS:",
    "    <FILE>    Source file to run",
    "",
    "OPTIONS:",
    "        --ast              Print the parsed tree before running",
    "    -h, --help             Print help information",
    "        --lexical-scope    Function bodies see only their own locals and globals, not the " ++
      "caller's",
    "                           locals",
    "        --tokens           Print the token list before running",
    "    -v, --verbose          More log output on stderr; repeat for more detail",
    "    -V, --version          Print version information",
    ""]

inductive Switch
  | tokens
  | tree
  | lexicalScope
  | verbose
deriving DecidableEq, Repr

/-- The options that are written with two dashes.  Asking for help or for the version is
none of them, because it ends the reading of arguments. -/
def Switch.ofLongName? : String → Option Switch
  | "tokens" => some tokens
  | "ast" => some tree
  | "lexical-scope" => some lexicalScope
  | "verbose" => some verbose
  | _ => none

structure Options where
  switches : List Switch := []
  file : Option String := none
deriving DecidableEq, Repr

inductive Reading
  | going (options : Options)
  | help
  | version
  | usage
deriving DecidableEq, Repr

namespace Reading

def onSwitch (options : Options) (s : Switch) : Reading :=
  going { options with switches := options.switches ++ [s] }

def letters (options : Options) : List Char → Reading
  | [] => going options
  | 'v' :: cs => letters { options with switches := options.switches ++ [.verbose] } cs
  | 'h' :: _ => help
  | 'V' :: _ => version
  | _ => usage

def operand (options : Options) (file : String) : Reading :=
  match options.file with
  | none => going { options with file := some file }
  | some _ => usage

/-- An argument that may be an option.  A dash alone is none. -/
def argument (options : Options) (arg : String) : Reading :=
  match arg.toList with
  | '-' :: '-' :: cs =>
    let name := String.ofList cs
    if name = "help" then help
    else if name = "version" then version
    else
      match Switch.ofLongName? name with
      | some s => onSwitch options s
      | none => usage
  | '-' :: c :: cs => letters options (c :: cs)
  | _ => operand options arg

def operands (options : Options) : List String → Reading
  | [] => going options
  | arg :: args =>
    match operand options arg with
    | going options => operands options args
    | r => r

/-- All arguments in order.  The first that asks for help or for the version or is wrong
decides, and after two dashes there are no more options. -/
def arguments (options : Options) : List String → Reading
  | [] => going options
  | "--" :: args => operands options args
  | arg :: args =>
    match argument options arg with
    | going options => arguments options args
    | r => r

end Reading

inductive Request
  | run (file : String) (switches : List Switch)
  | help
  | version
  | usage
deriving DecidableEq, Repr

/-- Only being verbose can be asked for more than once. -/
def Request.ofArguments (args : List String) : Request :=
  match Reading.arguments {} args with
  | .help => .help
  | .version => .version
  | .usage => .usage
  | .going options =>
    let once (s : Switch) : Bool := options.switches.count s ≤ 1
    match options.file with
    | none => .usage
    | some file =>
      if once .tokens && once .tree && once .lexicalScope then .run file options.switches
      else .usage

inductive ReadFailure
  | notFound
  | isDirectory
  | invalidText
deriving DecidableEq, Repr

def ReadFailure.message : ReadFailure → String
  | notFound => "No such file or directory (os error 2)"
  | isDirectory => "Is a directory (os error 21)"
  | invalidText => Failure.invalidText.message

structure Report where
  exitCode : UInt8 := 0
  output : ByteArray := .empty
  diagnostics : String := ""

def exitUsage : UInt8 := 2
def exitData : UInt8 := 65
def exitNoInput : UInt8 := 66
def exitSoftware : UInt8 := 70

def exitCode : Error → UInt8
  | .lex _ | .parse _ => exitData
  | .runtime _ => exitSoftware

def failed (output : ByteArray) (e : Error) : Report :=
  { exitCode := exitCode e, output := output, diagnostics := "Error: " ++ e.message ++ "\n" }

/-- The listing of tokens comes before anything that can fail, the tree once
there is one, and the output of the program last. -/
def runSource (fuel : Nat) (switches : List Switch) (source : String) (stdin : List UInt8) :
    Option Report :=
  let listing :=
    if .tokens ∈ switches then
      String.join ((tokenize source).map fun t => t.listing ++ "\n")
    else ""
  match compile source with
  | .error e => some (failed listing.toUTF8 e)
  | .ok p =>
    let tree := if .tree ∈ switches then p.render else ""
    let scope := if .lexicalScope ∈ switches then Scope.lexical else .dynamic
    let machine : Machine := { environment := .new scope, input := ⟨stdin⟩ }
    (p.run fuel machine).map fun (result, m) =>
      let output := (listing ++ tree).toUTF8 ++ m.sink.written
      match result with
      | .ok () => { output := output }
      | .error e => failed output (.runtime e)

def respond (fuel : Nat) (readFile : String → Except ReadFailure String)
    (args : List String) (stdin : List UInt8) : Option Report :=
  match Request.ofArguments args with
  | .help => some { output := help.toUTF8 }
  | .version => some { output := (version ++ "\n").toUTF8 }
  | .usage => some { exitCode := exitUsage }
  | .run file switches =>
    match readFile file with
    | .error reason =>
      some {
        exitCode := exitNoInput
        diagnostics := "Failed to read '" ++ file ++ "': " ++ reason.message ++ "\n" }
    | .ok source => runSource fuel switches source stdin

end CommandLine
end Betik
