/-
Trees as parenthesised text, one line for each statement of the program.  Texts
stand between quotation marks as they are, without escapes.
-/
import Betik.Number.Text
import Betik.Syntax.Tree

namespace Betik

def Literal.render : Literal → String
  | integer n => Number.integerText n
  | decimal x => Number.doubleText x
  | boolean b => truthWord b
  | text s => "\"" ++ s ++ "\""

mutual

def Expr.render : Expr → String
  | .literal _ value => value.render
  | .binary _ op lhs rhs => "(" ++ op.symbol ++ " " ++ lhs.render ++ " " ++ rhs.render ++ ")"
  | .logical _ op lhs rhs => "(" ++ op.symbol ++ " " ++ lhs.render ++ " " ++ rhs.render ++ ")"
  | .var _ name => name
  | .assign _ name value => "(= " ++ name ++ " " ++ value.render ++ ")"
  | .call _ name args => "(call " ++ name ++ Expr.renderAll args ++ ")"
  | .prompt _ text => "(input \"" ++ text ++ "\")"

/-- Each with a space before it, so an empty list leaves no trace. -/
def Expr.renderAll : List Expr → String
  | [] => ""
  | e :: es => " " ++ e.render ++ Expr.renderAll es

end

mutual

def Stmt.render : Stmt → String
  | .declare _ name type init =>
    "(declare " ++ name ++ " " ++ type.word ++ " " ++ init.render ++ ")"
  | .print _ value => "(print " ++ value.render ++ ")"
  | .cond _ condition yes no =>
    "(if " ++ condition.render ++ " " ++ yes.render ++ Stmt.renderOption no ++ ")"
  | .loop _ condition body => "(while " ++ condition.render ++ " " ++ body.render ++ ")"
  | .function _ name params body =>
    "(function " ++ name ++ " (" ++ " ".intercalate params ++ ") (block" ++
      Stmt.renderAll body ++ "))"
  | .ret _ value => "(return " ++ value.render ++ ")"
  | .block _ body => "(block" ++ Stmt.renderAll body ++ ")"
  | .expr _ value => value.render
  | .comment _ text => "(comment \"" ++ text ++ "\")"

def Stmt.renderOption : Option Stmt → String
  | none => ""
  | some s => " " ++ s.render

def Stmt.renderAll : List Stmt → String
  | [] => ""
  | s :: ss => " " ++ s.render ++ Stmt.renderAll ss

end

def Program.render (p : Program) : String :=
  String.join (p.statements.map fun s => s.render ++ "\n")

end Betik
