/-
Programs as trees.  Every node carries the line that messages about it name.
-/
import Betik.Operator
import Betik.Token.Kind

namespace Betik

inductive Literal
  | integer (n : Int64)
  | decimal (x : Float)
  | boolean (b : Bool)
  | text (s : String)
deriving DecidableEq, Repr

/-- An expression.  An assignment is one too, although the grammar admits it only
as a statement. -/
inductive Expr
  | literal (line : Nat) (value : Literal)
  | binary (line : Nat) (op : Operator) (lhs rhs : Expr)
  | logical (line : Nat) (op : Connective) (lhs rhs : Expr)
  | var (line : Nat) (name : String)
  | assign (line : Nat) (name : String) (value : Expr)
  | call (line : Nat) (name : String) (args : List Expr)
  | prompt (line : Nat) (text : String)
deriving Repr

def Expr.line : Expr → Nat
  | literal line _ | binary line .. | logical line .. | var line _ | assign line ..
  | call line .. | prompt line _ => line

def Expr.join (line : Nat) : Joiner → Expr → Expr → Expr
  | .operator op => binary line op
  | .connective c => logical line c

/-- A statement.  The branches of a condition and the body of a loop are blocks
when they come from source, but any statement can stand there. -/
inductive Stmt
  | declare (line : Nat) (name : String) (type : DataType) (init : Expr)
  | print (line : Nat) (value : Expr)
  | cond (line : Nat) (condition : Expr) (yes : Stmt) (no : Option Stmt)
  | loop (line : Nat) (condition : Expr) (body : Stmt)
  | function (line : Nat) (name : String) (params : List String) (body : List Stmt)
  | ret (line : Nat) (value : Expr)
  | block (line : Nat) (body : List Stmt)
  | expr (line : Nat) (value : Expr)
  | comment (line : Nat) (text : String)
deriving Repr

def Stmt.line : Stmt → Nat
  | declare line .. | print line _ | cond line .. | loop line .. | function line ..
  | ret line _ | block line _ | expr line _ | comment line _ => line

structure Program where
  statements : List Stmt
deriving Repr

end Betik
