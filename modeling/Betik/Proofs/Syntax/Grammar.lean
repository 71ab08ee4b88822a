/-
The grammar: which tokens spell which tree.

The rules say nothing about how tokens are read.  They are ambiguous in two places
if taken by themselves.  The dollar sign after a call can end the call or be an
empty statement of its own, which makes no difference to the tree.  An alternative
after a condition that has none can belong to it or be a statement of its own, and
there the rule for sequences decides.

A phrase is a category of the grammar together with the tree that is spelled, so
that one inductive predicate holds all the rules of expressions and another all
those of statements.
-/
import Betik.Syntax.Parser

namespace Betik
namespace Expr

inductive Phrase
  /-- An expression of a level of precedence or of a tighter one. -/
  | level (level : Precedence) (e : Expr)
  /-- An expression in parentheses. -/
  | enclosed (e : Expr)
  /-- The arguments of a call in their parentheses. -/
  | arguments (es : List Expr)
  /-- One expression or more, with commas between them. -/
  | listed (es : List Expr)

inductive Derives : List Token → Phrase → Prop
  | integer {t : Token} {n : Int64} (kind : t.kind = .integer)
    (value : Number.integer? t.lexeme.toList = some n) :
    Derives [t] (.level .primary (.literal t.line (.integer n)))
  | decimal {t : Token} {x : Float} (kind : t.kind = .decimal)
    (value : Number.double? t.lexeme.toList = some x) :
    Derives [t] (.level .primary (.literal t.line (.decimal x)))
  | text {t : Token} (kind : t.kind = .text) :
    Derives [t] (.level .primary
      (.literal t.line (.text (String.ofList (Text.strip (· = '"') t.lexeme.toList)))))
  | truth {t : Token} {b : Bool} (kind : t.kind = .keyword (.truth b)) :
    Derives [t] (.level .primary (.literal t.line (.boolean b)))
  | prompt {t : Token} {text : String} (kind : t.kind = .prompt)
    (lexeme : t.lexeme = "??" ++ text ++ "??") :
    Derives [t] (.level .primary (.prompt t.line text))
  | var {t : Token} (kind : t.kind = .name) :
    Derives [t] (.level .primary (.var t.line t.lexeme))
  | call {t : Token} {ts : List Token} {es : List Expr} (kind : t.kind.callable)
    (arguments : Derives ts (.arguments es)) :
    Derives (t :: ts) (.level .primary (.call t.line t.lexeme es))
  | parentheses {ts : List Token} {e : Expr} (inside : Derives ts (.enclosed e)) :
    Derives ts (.level .primary e)
  | tighter {level : Precedence} {ts : List Token} {e : Expr} (loose : level ≠ .primary)
    (tight : Derives ts (.level level.next e)) : Derives ts (.level level e)
  | joined {us vs : List Token} {t : Token} {joiner : Joiner} {lhs rhs : Expr}
    (left : Derives us (.level joiner.precedence lhs)) (kind : t.kind.joiner? = some joiner)
    (right : Derives vs (.level joiner.precedence.next rhs)) :
    Derives (us ++ t :: vs) (.level joiner.precedence (join t.line joiner lhs rhs))
  | enclosed {l r : Token} {ts : List Token} {e : Expr} (left : l.kind = .mark .leftParen)
    (inside : Derives ts (.level .logicalOr e)) (right : r.kind = .mark .rightParen) :
    Derives (l :: (ts ++ [r])) (.enclosed e)
  | noArguments {l r : Token} (left : l.kind = .mark .leftParen)
    (right : r.kind = .mark .rightParen) : Derives [l, r] (.arguments [])
  | someArguments {l r : Token} {ts : List Token} {es : List Expr}
    (left : l.kind = .mark .leftParen) (inside : Derives ts (.listed es))
    (right : r.kind = .mark .rightParen) : Derives (l :: (ts ++ [r])) (.arguments es)
  | last {ts : List Token} {e : Expr} (only : Derives ts (.level .logicalOr e)) :
    Derives ts (.listed [e])
  | more {us vs : List Token} {comma : Token} {e : Expr} {es : List Expr}
    (first : Derives us (.level .logicalOr e)) (between : comma.kind = .mark .comma)
    (rest : Derives vs (.listed es)) : Derives (us ++ comma :: vs) (.listed (e :: es))

end Expr

namespace Stmt

inductive DerivesNames : List Token → List String → Prop
  | last {name : Token} (kind : name.kind = .name) : DerivesNames [name] [name.lexeme]
  | more {name comma : Token} {ts : List Token} {names : List String} (kind : name.kind = .name)
    (between : comma.kind = .mark .comma) (rest : DerivesNames ts names) :
    DerivesNames (name :: comma :: ts) (name.lexeme :: names)

inductive DerivesParams : List Token → List String → Prop
  | none {l r : Token} (left : l.kind = .mark .leftParen) (right : r.kind = .mark .rightParen) :
    DerivesParams [l, r] []
  | some {l r : Token} {ts : List Token} {names : List String} (left : l.kind = .mark .leftParen)
    (inside : DerivesNames ts names) (right : r.kind = .mark .rightParen) :
    DerivesParams (l :: (ts ++ [r])) names

/-- Whether an alternative that came next would belong to the statement: it is a
condition whose last block has none. -/
def takesAlternative : Stmt → Bool
  | cond _ _ _ none => true
  | cond _ _ _ (some no) => no.takesAlternative
  | _ => false

/-- What an alternative is looked for behind: nothing, or any number of comments.  It
can also be that none is looked for, which leaves the grammar ambiguous. -/
inductive Lookahead
  | never
  | direct
  | pastComments

def Lookahead.findsAlternative : Lookahead → List Token → Bool
  | never, _ => false
  | direct, ts => nextIs (.keyword .otherwise) ts
  | pastComments, ts => nextIs (.keyword .otherwise) (ts.dropWhile (·.kind = .comment))

def Lookahead.Apart (look : Lookahead) (s : Stmt) (ts : List Token) : Prop :=
  s.takesAlternative → ¬look.findsAlternative ts

inductive Phrase
  | one (s : Stmt)
  /-- A condition from its keyword on. -/
  | cond (s : Stmt)
  /-- What an alternative consists of, without its keyword. -/
  | branch (s : Stmt)
  | block (s : Stmt)
  /-- Statements in braces. -/
  | body (ss : List Stmt)
  | many (ss : List Stmt)

/-- The statements of the language.  A statement that takes an alternative is never
followed by one: the alternative would be part of it. -/
inductive Derives (look : Lookahead) : List Token → Phrase → Prop
  | declare {t name typed word initially dollar : Token} {type : DataType} {ts : List Token}
    {init : Expr} (kind : t.kind = .keyword .declare) (named : name.kind = .name)
    (colon : typed.kind = .keyword .typed) (typeWord : word.kind = .keyword (.dataType type))
    (equals : initially.kind = .keyword .initially)
    (value : Expr.Derives ts (.level .logicalOr init)) (ends : dollar.kind = .mark .dollar) :
    Derives look (t :: name :: typed :: word :: initially :: (ts ++ [dollar]))
      (.one (.declare t.line name.lexeme type init))
  | assign {t equals dollar : Token} {ts : List Token} {e : Expr} (kind : t.kind = .name)
    (sign : equals.kind = .mark .equals) (value : Expr.Derives ts (.level .logicalOr e))
    (ends : dollar.kind = .mark .dollar) :
    Derives look (t :: equals :: (ts ++ [dollar]))
      (.one (.expr t.line (.assign t.line t.lexeme e)))
  | call {t : Token} {ts : List Token} {es : List Expr} (kind : t.kind = .name)
    (arguments : Expr.Derives ts (.arguments es)) :
    Derives look (t :: ts) (.one (.expr t.line (.call t.line t.lexeme es)))
  | callEnded {t dollar : Token} {ts : List Token} {es : List Expr} (kind : t.kind = .name)
    (arguments : Expr.Derives ts (.arguments es)) (ends : dollar.kind = .mark .dollar) :
    Derives look (t :: (ts ++ [dollar])) (.one (.expr t.line (.call t.line t.lexeme es)))
  | print {t dollar : Token} {ts : List Token} {e : Expr} (kind : t.kind = .keyword .print)
    (value : Expr.Derives ts (.enclosed e)) (ends : dollar.kind = .mark .dollar) :
    Derives look (t :: (ts ++ [dollar])) (.one (.print t.line e))
  | loop {t : Token} {ts us : List Token} {e : Expr} {s : Stmt} (kind : t.kind = .keyword .loop)
    (condition : Expr.Derives ts (.enclosed e)) (body : Derives look us (.block s)) :
    Derives look (t :: (ts ++ us)) (.one (.loop t.line e s))
  | condition {ts : List Token} {s : Stmt} (cond : Derives look ts (.cond s)) :
    Derives look ts (.one s)
  /-- An alternative to nothing is its branch. -/
  | dangling {t : Token} {ts : List Token} {s : Stmt} (kind : t.kind = .keyword .otherwise)
    (branch : Derives look ts (.branch s)) : Derives look (t :: ts) (.one s)
  | function {t name : Token} {ps ts : List Token} {names : List String} {ss : List Stmt}
    (kind : t.kind = .keyword .function) (named : name.kind = .name)
    (params : DerivesParams ps names) (body : Derives look ts (.body ss)) :
    Derives look (t :: name :: (ps ++ ts)) (.one (.function t.line name.lexeme names ss))
  | ret {t dollar : Token} {ts : List Token} {e : Expr} (kind : t.kind = .keyword .ret)
    (value : Expr.Derives ts (.level .logicalOr e)) (ends : dollar.kind = .mark .dollar) :
    Derives look (t :: (ts ++ [dollar])) (.one (.ret t.line e))
  | comment {t : Token} (kind : t.kind = .comment) :
    Derives look [t] (.one (.comment t.line (commentText t.lexeme)))
  | withoutAlternative {t : Token} {ts us : List Token} {e : Expr} {yes : Stmt}
    (kind : t.kind = .keyword .cond) (condition : Expr.Derives ts (.enclosed e))
    (block : Derives look us (.block yes)) :
    Derives look (t :: (ts ++ us)) (.cond (.cond t.line e yes none))
  | withAlternative {t otherwise : Token} {ts us vs : List Token} {e : Expr} {yes no : Stmt}
    (kind : t.kind = .keyword .cond) (condition : Expr.Derives ts (.enclosed e))
    (block : Derives look us (.block yes)) (word : otherwise.kind = .keyword .otherwise)
    (branch : Derives look vs (.branch no)) :
    Derives look (t :: (ts ++ (us ++ otherwise :: vs))) (.cond (.cond t.line e yes (some no)))
  | branchCond {ts : List Token} {s : Stmt} (cond : Derives look ts (.cond s)) :
    Derives look ts (.branch s)
  | branchBlock {ts : List Token} {s : Stmt} (block : Derives look ts (.block s)) :
    Derives look ts (.branch s)
  | block {t : Token} {ts : List Token} {ss : List Stmt}
    (body : Derives look (t :: ts) (.body ss)) :
    Derives look (t :: ts) (.block (.block t.line ss))
  | body {l r : Token} {ts : List Token} {ss : List Stmt} (left : l.kind = .mark .leftBrace)
    (inside : Derives look ts (.many ss)) (right : r.kind = .mark .rightBrace) :
    Derives look (l :: (ts ++ [r])) (.body ss)
  | nil : Derives look [] (.many [])
  /-- The empty statement leaves no trace. -/
  | empty {t : Token} {ts : List Token} {ss : List Stmt} (kind : t.kind = .mark .dollar)
    (rest : Derives look ts (.many ss)) : Derives look (t :: ts) (.many ss)
  | cons {us vs : List Token} {s : Stmt} {ss : List Stmt} (first : Derives look us (.one s))
    (rest : Derives look vs (.many ss)) (apart : look.Apart s vs) :
    Derives look (us ++ vs) (.many (s :: ss))

end Stmt

/-- The tokens, which are those in front of the end of file, spell the program. -/
def Program.Derives (look : Stmt.Lookahead) (ts : List Token) (p : Program) : Prop :=
  Stmt.Derives look ts (.many p.statements)

end Betik
