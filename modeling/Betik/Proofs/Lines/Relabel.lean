/-
Tokens, trees and errors with other lines.

`relabel f` rewrites every line through `f` and leaves all else as it is.  With
`(· + k)` it moves a text down by `k` lines; with a constant function it makes things
equal that differ in their lines only.
-/
import Betik.Script

namespace Betik

variable (f g : Nat → Nat)

def Token.relabel (t : Token) : Token :=
  { t with line := f t.line }

@[simp] theorem Token.relabel_kind (t : Token) : (t.relabel f).kind = t.kind := rfl

@[simp] theorem Token.relabel_lexeme (t : Token) : (t.relabel f).lexeme = t.lexeme := rfl

@[simp] theorem Token.relabel_line (t : Token) : (t.relabel f).line = f t.line := rfl

@[simp] theorem Token.relabel_found (t : Token) : (t.relabel f).found = t.found := rfl

namespace Expr

mutual

def relabel : Expr → Expr
  | literal line value => literal (f line) value
  | binary line op lhs rhs => binary (f line) op lhs.relabel rhs.relabel
  | logical line op lhs rhs => logical (f line) op lhs.relabel rhs.relabel
  | var line name => var (f line) name
  | assign line name value => assign (f line) name value.relabel
  | call line name args => call (f line) name (relabelAll args)
  | prompt line text => prompt (f line) text

def relabelAll : List Expr → List Expr
  | [] => []
  | e :: es => e.relabel :: relabelAll es

end

mutual

theorem relabel_relabel : ∀ e : Expr, (e.relabel g).relabel f = e.relabel (f ∘ g)
  | literal .. | var .. | prompt .. => rfl
  | binary _ _ lhs rhs | logical _ _ lhs rhs => by
    simp [relabel, relabel_relabel lhs, relabel_relabel rhs]
  | assign _ _ value => by simp [relabel, relabel_relabel value]
  | call _ _ args => by simp [relabel, relabelAll_relabelAll args]

theorem relabelAll_relabelAll : ∀ es : List Expr,
    relabelAll f (relabelAll g es) = relabelAll (f ∘ g) es
  | [] => rfl
  | e :: es => by simp [relabelAll, relabel_relabel e, relabelAll_relabelAll es]

end

/-- An operator is on the line of its node. -/
theorem join_relabel (line : Nat) (joiner : Joiner) (lhs rhs : Expr) :
    (join line joiner lhs rhs).relabel f =
      join (f line) joiner (lhs.relabel f) (rhs.relabel f) := by
  cases joiner <;> rfl

end Expr

namespace Stmt

mutual

def relabel : Stmt → Stmt
  | declare line name type init => declare (f line) name type (init.relabel f)
  | print line value => print (f line) (value.relabel f)
  | cond line condition yes none => cond (f line) (condition.relabel f) yes.relabel none
  | cond line condition yes (some no) =>
    cond (f line) (condition.relabel f) yes.relabel (some no.relabel)
  | loop line condition body => loop (f line) (condition.relabel f) body.relabel
  | function line name params body => function (f line) name params (relabelAll body)
  | ret line value => ret (f line) (value.relabel f)
  | block line body => block (f line) (relabelAll body)
  | expr line value => expr (f line) (value.relabel f)
  | comment line text => comment (f line) text

def relabelAll : List Stmt → List Stmt
  | [] => []
  | s :: ss => s.relabel :: relabelAll ss

end

mutual

theorem relabel_relabel : ∀ s : Stmt, (s.relabel g).relabel f = s.relabel (f ∘ g)
  | declare _ _ _ e | print _ e | ret _ e | expr _ e => by simp [relabel, e.relabel_relabel]
  | cond _ condition yes none => by
    simp [relabel, condition.relabel_relabel, relabel_relabel yes]
  | cond _ condition yes (some no) => by
    simp [relabel, condition.relabel_relabel, relabel_relabel yes, relabel_relabel no]
  | loop _ condition body => by
    simp [relabel, condition.relabel_relabel, relabel_relabel body]
  | function _ _ _ body | block _ body => by simp [relabel, relabelAll_relabelAll body]
  | comment .. => rfl

theorem relabelAll_relabelAll : ∀ ss : List Stmt,
    relabelAll f (relabelAll g ss) = relabelAll (f ∘ g) ss
  | [] => rfl
  | s :: ss => by simp [relabelAll, relabel_relabel s, relabelAll_relabelAll ss]

end

theorem relabel_cond (line : Nat) (condition : Expr) (yes : Stmt) (no : Option Stmt) :
    (cond line condition yes no).relabel f =
      cond (f line) (condition.relabel f) (yes.relabel f) (no.map (relabel f)) := by
  cases no <;> rfl

theorem relabelAll_append (ss ts : List Stmt) :
    relabelAll f (ss ++ ts) = relabelAll f ss ++ relabelAll f ts := by
  induction ss with
  | nil => rfl
  | cons s ss ih => rw [List.cons_append, relabelAll, relabelAll, ih, List.cons_append]

theorem relabelAll_toList (s : Option Stmt) :
    relabelAll f s.toList = (s.map (relabel f)).toList := by
  cases s <;> rfl

theorem relabel_line (s : Stmt) : (s.relabel f).line = f s.line := by
  cases s with
  | cond => rw [relabel_cond]; rfl
  | _ => rfl

end Stmt

def Program.relabel (p : Program) : Program :=
  ⟨Stmt.relabelAll f p.statements⟩

def LexError.relabel (e : LexError) : LexError :=
  { e with line := f e.line }

def ParseError.relabel : ParseError → ParseError
  | emptyInput => emptyInput
  | beyondEndOfFile => beyondEndOfFile
  | expectedToken line expected found => expectedToken (f line) expected found
  | expectedDataType line found => expectedDataType (f line) found
  | expectedExpr line found => expectedExpr (f line) found
  | unexpectedToken line found => unexpectedToken (f line) found
  | invalidLiteral line lexeme => invalidLiteral (f line) lexeme

def RuntimeError.relabel (e : RuntimeError) : RuntimeError :=
  { e with line := f e.line }

def Error.relabel : Error → Error
  | lex e => lex (e.relabel f)
  | parse e => parse (e.relabel f)
  | runtime e => runtime (e.relabel f)

end Betik
