/-
The errors of a running program: a cause and the line it is blamed on.
-/
import Betik.Text.Located
import Betik.Value

namespace Betik

inductive Failure
  | sinkFull
  | flushFailed
  | invalidText
  | other (message : String)
deriving DecidableEq, Repr

def Failure.message : Failure → String
  | sinkFull => "sink full"
  | flushFailed => "flush failed"
  | invalidText => "stream did not contain valid UTF-8"
  | other message => message

inductive RuntimeError.Cause
  | undefinedVariable (name : String)
  | undefinedFunction (name : String)
  | wrongArity (name : String) (expected given : Nat)
  | illegalOperation (op : Operator) (lhs rhs : Value)
  | divisionByZero
  | returnOutsideFunction
  | stackOverflow (limit : Nat)
  | inputClosed
  | io (failure : Failure)
deriving DecidableEq, Repr

structure RuntimeError where
  cause : RuntimeError.Cause
  line : Nat
deriving DecidableEq, Repr

def RuntimeError.Cause.message : RuntimeError.Cause → String
  | undefinedVariable name => "undefined variable '" ++ name ++ "'."
  | undefinedFunction name => "undefined function '" ++ name ++ "'."
  | wrongArity name expected given =>
    "function '" ++ name ++ "' expects " ++ toString expected ++ " arguments, but " ++
      toString given ++ " were given."
  | illegalOperation op lhs rhs =>
    "cannot apply '" ++ op.symbol ++ "' to " ++ lhs.typeName ++ " and " ++ rhs.typeName ++ "."
  | divisionByZero => "division by zero."
  | returnOutsideFunction => "'dön' used outside of a function."
  | stackOverflow limit => "stack overflow, more than " ++ toString limit ++ " nested calls."
  | inputClosed => "input closed while waiting for a line."
  | io failure => "i/o failure: " ++ failure.message

def RuntimeError.message (e : RuntimeError) : String :=
  Text.located e.line e.cause.message

end Betik
