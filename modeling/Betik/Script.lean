/-
From source to a finished run.  Each stage has its errors, and a later stage
starts only if the one before it had none.
-/
import Betik.Machine.Run
import Betik.Syntax.Parser
import Betik.Token.Lexer

namespace Betik

inductive Error
  | lex (e : LexError)
  | parse (e : ParseError)
  | runtime (e : RuntimeError)
deriving DecidableEq, Repr

namespace Error

def message : Error → String
  | lex e => e.message
  | parse e => e.message
  | runtime e => e.message

/-- The line the error is about.  Only token lists that no source has can lead to
an error without one. -/
def line? : Error → Option Nat
  | lex e => some e.line
  | parse e => e.line?
  | runtime e => some e.line

end Error

def compile (source : String) : Except Error Program := do
  let tokens := tokenize source
  (checkTokens tokens).mapError .lex
  (parse tokens).mapError .parse

/-- Compiles a source and runs it.  A machine that is given no program does
nothing. -/
def run (fuel : Nat) (source : String) (m : Machine) :
    Option (Except Error Unit × Machine) :=
  match compile source with
  | .error e => some (.error e, m)
  | .ok p => (p.run fuel m).map fun (result, m) => (result.mapError .runtime, m)

end Betik
