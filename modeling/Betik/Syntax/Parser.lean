/-
Tokens to trees.  Every step that reads something leaves a shorter list, and says
so in its type; this is what makes reading end.
-/
import Betik.Number.Reader
import Betik.Syntax.ParseError
import Betik.Syntax.Tree
import Betik.Text.Blank
import Betik.Token.Basic

namespace Betik

/-- A phrase read from a list of tokens, and the tokens after it, which are
fewer than `bound`. -/
structure Parsed (α : Type) (bound : Nat) where
  value : α
  rest : List Token
  short : rest.length < bound

abbrev Reader (α : Type) :=
  (ts : List Token) → Except ParseError (Parsed α ts.length)

def nextIs (kind : TokenKind) : List Token → Bool
  | t :: _ => t.kind = kind
  | [] => false

def expect (kind : TokenKind) : Reader Token
  | [] => .error .beyondEndOfFile
  | t :: rest =>
    if t.kind = kind then .ok ⟨t, rest, by simp⟩
    else .error (.expectedToken t.line kind t.found)

/-! ## Expressions

Each level of precedence reads operands of the next tighter level and joins them
from left to right, so operators of one level associate to the left.  Parentheses
leave no trace in the tree. -/

def promptText? (lexeme : List Char) : Option (List Char) :=
  match lexeme with
  | '?' :: '?' :: rest =>
    match rest.reverse with
    | '?' :: '?' :: text => some text.reverse
    | _ => none
  | _ => none

def Token.atom (t : Token) : Except ParseError Expr :=
  let literal (value : Option Literal) : Except ParseError Expr :=
    match value with
    | some value => .ok (.literal t.line value)
    | none => .error (.invalidLiteral t.line t.lexeme)
  match t.kind with
  | .integer => literal ((Number.integer? t.lexeme.toList).map .integer)
  | .decimal => literal ((Number.double? t.lexeme.toList).map .decimal)
  | .text => literal (some (.text (String.ofList (Text.strip (· = '"') t.lexeme.toList))))
  | .keyword (.truth b) => literal (some (.boolean b))
  | .prompt =>
    match promptText? t.lexeme.toList with
    | some text => .ok (.prompt t.line (String.ofList text))
    | none => .error (.invalidLiteral t.line t.lexeme)
  | .name => .ok (.var t.line t.lexeme)
  | _ => .error (.expectedExpr t.line t.found)

/-- Functions are called by their names, and printing by its keyword. -/
def TokenKind.callable : TokenKind → Bool
  | .name | .keyword .print => true
  | _ => false

def TokenKind.joinerAt? (level : Precedence) (kind : TokenKind) : Option Joiner :=
  kind.joiner?.filter (·.precedence = level)

namespace Expr

mutual

def readAt (level : Precedence) (ts : List Token) : Except ParseError (Parsed Expr ts.length) := do
  if h : level = .primary then
    readPrimary ts
  else
    let ⟨lhs, rest, _⟩ ← readAt level.next ts
    let ⟨e, rest, _⟩ ← readOperands level lhs rest
    return ⟨e, rest, by omega⟩
termination_by 10 * ts.length + level.height + 1
decreasing_by
  · omega
  · have := Precedence.height_next h; omega
  · omega

def readOperands (level : Precedence) (lhs : Expr) (ts : List Token) :
    Except ParseError (Parsed Expr (ts.length + 1)) :=
  match ts with
  | [] => .error .beyondEndOfFile
  | t :: rest =>
    match t.kind.joinerAt? level with
    | none => .ok ⟨lhs, t :: rest, by simp⟩
    | some joiner => do
      let ⟨rhs, rest, _⟩ ← readAt level.next rest
      let ⟨e, rest, _⟩ ← readOperands level (join t.line joiner lhs rhs) rest
      return ⟨e, rest, by simp; omega⟩
termination_by 10 * ts.length
decreasing_by
  · have := level.next.height_le; simp; omega
  · simp; omega

def readPrimary (ts : List Token) : Except ParseError (Parsed Expr ts.length) :=
  match ts with
  | [] => .error .beyondEndOfFile
  | t :: rest =>
    if t.kind = .mark .leftParen then do
      let ⟨e, rest, _⟩ ← readAt .logicalOr rest
      let ⟨_, rest, _⟩ ← expect (.mark .rightParen) rest
      return ⟨e, rest, by simp; omega⟩
    else if t.kind.callable && nextIs (.mark .leftParen) rest then do
      let ⟨e, rest, _⟩ ← readCall t rest
      return ⟨e, rest, by simp; omega⟩
    else do
      return ⟨← t.atom, rest, by simp⟩
termination_by 10 * ts.length
decreasing_by
  · simp [Precedence.height]; omega
  · simp

def readCall (callee : Token) (ts : List Token) : Except ParseError (Parsed Expr ts.length) := do
  let ⟨_, rest, h⟩ ← expect (.mark .leftParen) ts
  match rest, h with
  | [], _ => .error .beyondEndOfFile
  | t :: tail, _ =>
    if t.kind = .mark .rightParen then
      return ⟨.call callee.line callee.lexeme [], tail, by simp_all; omega⟩
    else
      let ⟨args, rest, _⟩ ← readArgs (t :: tail)
      return ⟨.call callee.line callee.lexeme args, rest, by omega⟩
termination_by 10 * ts.length
decreasing_by omega

def readArgs (ts : List Token) : Except ParseError (Parsed (List Expr) ts.length) := do
  let ⟨e, rest, h⟩ ← readAt .logicalOr ts
  match rest, h with
  | [], _ => .error .beyondEndOfFile
  | t :: tail, _ =>
    if t.kind = .mark .comma then
      let ⟨es, rest, _⟩ ← readArgs tail
      return ⟨e :: es, rest, by simp_all; omega⟩
    else
      let ⟨_, rest, _⟩ ← expect (.mark .rightParen) (t :: tail)
      return ⟨[e], rest, by omega⟩
termination_by 10 * ts.length + 8
decreasing_by
  · simp [Precedence.height]
  · simp_all; omega

end

def read : Reader Expr :=
  readAt .logicalOr

end Expr

/-! ## Statements

The first token of a statement decides which one it is, except that a name needs
the token after it too.  A lone dollar sign is a statement that leaves no trace. -/

namespace Stmt

/-- A comment's text: its token without the at signs in front and without the
blanks around the rest. -/
def commentText (lexeme : String) : String :=
  String.ofList (Text.strip Text.isBlank (lexeme.toList.dropWhile (· = '@')))

def readDataType : Reader DataType
  | [] => .error .beyondEndOfFile
  | t :: rest =>
    match t.kind with
    | .keyword (.dataType type) => .ok ⟨type, rest, by simp⟩
    | _ => .error (.expectedDataType t.line t.found)

def readDeclaration (line : Nat) : Reader Stmt := fun ts => do
  let ⟨name, rest, _⟩ ← expect .name ts
  let ⟨_, rest, _⟩ ← expect (.keyword .typed) rest
  let ⟨type, rest, _⟩ ← readDataType rest
  let ⟨_, rest, _⟩ ← expect (.keyword .initially) rest
  let ⟨init, rest, _⟩ ← Expr.read rest
  let ⟨_, rest, _⟩ ← expect (.mark .dollar) rest
  return ⟨.declare line name.lexeme type init, rest, by omega⟩

def readAssignment (name : Token) : Reader Stmt := fun ts => do
  let ⟨_, rest, _⟩ ← expect (.mark .equals) ts
  let ⟨value, rest, _⟩ ← Expr.read rest
  let ⟨_, rest, _⟩ ← expect (.mark .dollar) rest
  return ⟨.expr name.line (.assign name.line name.lexeme value), rest, by omega⟩

/-- What follows the name in a call that is a statement.  The dollar sign after
it can be left out. -/
def readCallStatement (callee : Token) : Reader Stmt := fun ts => do
  let ⟨call, rest, h⟩ ← Expr.readCall callee ts
  match rest, h with
  | [], _ => .error .beyondEndOfFile
  | t :: tail, _ =>
    let stmt := Stmt.expr callee.line call
    if t.kind = .mark .dollar then return ⟨stmt, tail, by simp_all; omega⟩
    else return ⟨stmt, t :: tail, by omega⟩

def readParenthesized : Reader Expr := fun ts => do
  let ⟨_, rest, _⟩ ← expect (.mark .leftParen) ts
  let ⟨e, rest, _⟩ ← Expr.read rest
  let ⟨_, rest, _⟩ ← expect (.mark .rightParen) rest
  return ⟨e, rest, by omega⟩

def readPrint (line : Nat) : Reader Stmt := fun ts => do
  let ⟨value, rest, _⟩ ← readParenthesized ts
  let ⟨_, rest, _⟩ ← expect (.mark .dollar) rest
  return ⟨.print line value, rest, by omega⟩

def readReturn (line : Nat) : Reader Stmt := fun ts => do
  let ⟨value, rest, _⟩ ← Expr.read ts
  let ⟨_, rest, _⟩ ← expect (.mark .dollar) rest
  return ⟨.ret line value, rest, by omega⟩

def readNames (ts : List Token) : Except ParseError (Parsed (List String) ts.length) := do
  let ⟨name, rest, h⟩ ← expect .name ts
  match rest, h with
  | [], _ => .error .beyondEndOfFile
  | t :: tail, _ =>
    if t.kind = .mark .comma then
      let ⟨names, rest, _⟩ ← readNames tail
      return ⟨name.lexeme :: names, rest, by simp_all; omega⟩
    else
      let ⟨_, rest, _⟩ ← expect (.mark .rightParen) (t :: tail)
      return ⟨[name.lexeme], rest, by omega⟩
termination_by ts.length
decreasing_by simp_all; omega

def readParams : Reader (List String) := fun ts => do
  let ⟨_, rest, h⟩ ← expect (.mark .leftParen) ts
  match rest, h with
  | [], _ => .error .beyondEndOfFile
  | t :: tail, _ =>
    if t.kind = .mark .rightParen then
      return ⟨[], tail, by simp_all; omega⟩
    else
      let ⟨names, rest, _⟩ ← readNames (t :: tail)
      return ⟨names, rest, by omega⟩

def announced {n : Nat} (p : Parsed Stmt n) : Parsed (Option Stmt) (n + 1) :=
  ⟨some p.value, p.rest, by have := p.short; omega⟩

mutual

/-- One statement.  Only `none`, the empty statement, leaves nothing. -/
def readOne (ts : List Token) : Except ParseError (Parsed (Option Stmt) ts.length) :=
  match ts with
  | [] => .error .beyondEndOfFile
  | t :: tail =>
    match t.kind with
    | .keyword .declare => announced <$> readDeclaration t.line tail
    | .name =>
      if nextIs (.mark .equals) tail then announced <$> readAssignment t tail
      else if nextIs (.mark .leftParen) tail then announced <$> readCallStatement t tail
      else .error (.unexpectedToken t.line t.found)
    | .keyword .print => announced <$> readPrint t.line tail
    | .keyword .loop => do
      let ⟨condition, rest, _⟩ ← readParenthesized tail
      let ⟨body, rest, _⟩ ← readBlock rest
      return ⟨some (.loop t.line condition body), rest, by simp; omega⟩
    | .keyword .cond => announced <$> readCond t.line tail
    | .keyword .otherwise => announced <$> readBranch tail
    | .keyword .function => do
      let ⟨name, rest, _⟩ ← expect .name tail
      let ⟨params, rest, _⟩ ← readParams rest
      let ⟨body, rest, _⟩ ← readBody rest
      return ⟨some (.function t.line name.lexeme params body), rest, by simp; omega⟩
    | .keyword .ret => announced <$> readReturn t.line tail
    | .comment => .ok ⟨some (.comment t.line (commentText t.lexeme)), tail, by simp⟩
    | .mark .dollar => .ok ⟨none, tail, by simp⟩
    | _ => .error (.unexpectedToken t.line t.found)
termination_by 4 * ts.length
decreasing_by all_goals simp <;> omega

/-- What follows the keyword of a condition.  An alternative right after the
block belongs to this condition. -/
def readCond (line : Nat) (ts : List Token) : Except ParseError (Parsed Stmt ts.length) := do
  let ⟨condition, rest, _⟩ ← readParenthesized ts
  let ⟨yes, rest, h⟩ ← readBlock rest
  match rest, h with
  | [], _ => .error .beyondEndOfFile
  | t :: tail, _ =>
    if t.kind = .keyword .otherwise then
      let ⟨no, rest, _⟩ ← readBranch tail
      return ⟨.cond line condition yes (some no), rest, by simp_all; omega⟩
    else return ⟨.cond line condition yes none, t :: tail, by omega⟩
termination_by 4 * ts.length
decreasing_by
  · omega
  · simp_all; omega

def readBranch (ts : List Token) : Except ParseError (Parsed Stmt ts.length) :=
  match ts with
  | [] => .error .beyondEndOfFile
  | t :: tail =>
    if t.kind = .keyword .cond then do
      let ⟨s, rest, _⟩ ← readCond t.line tail
      return ⟨s, rest, by simp; omega⟩
    else readBlock (t :: tail)
termination_by 4 * ts.length + 3
decreasing_by
  · simp; omega
  · omega

/-- A block is on the line of its opening brace. -/
def readBlock (ts : List Token) : Except ParseError (Parsed Stmt ts.length) :=
  match ts with
  | [] => .error .beyondEndOfFile
  | t :: tail => do
    let ⟨body, rest, _⟩ ← readBody (t :: tail)
    return ⟨.block t.line body, rest, by omega⟩
termination_by 4 * ts.length + 2

def readBody (ts : List Token) : Except ParseError (Parsed (List Stmt) ts.length) := do
  let ⟨_, rest, _⟩ ← expect (.mark .leftBrace) ts
  let ⟨body, rest, _⟩ ← readMany rest
  return ⟨body, rest, by omega⟩
termination_by 4 * ts.length + 1
decreasing_by omega

def readMany (ts : List Token) : Except ParseError (Parsed (List Stmt) ts.length) :=
  match ts with
  | [] => .error .beyondEndOfFile
  | t :: tail =>
    if t.kind = .mark .rightBrace then .ok ⟨[], tail, by simp⟩
    else if t.kind = .endOfFile then
      .error (.expectedToken t.line (.mark .rightBrace) t.found)
    else do
      let ⟨s, rest, _⟩ ← readOne (t :: tail)
      let ⟨ss, rest, _⟩ ← readMany rest
      return ⟨s.toList ++ ss, rest, by omega⟩
termination_by 4 * ts.length + 1
decreasing_by
  · omega
  · omega

end

end Stmt

/-- The statements of a program, up to the end of the source.  A closing brace
has no block to close here. -/
def readStatements (ts : List Token) : Except ParseError (List Stmt) :=
  match ts with
  | [] => .error .beyondEndOfFile
  | t :: tail =>
    if t.kind = .endOfFile then .ok []
    else if t.kind = .mark .rightBrace then .error (.unexpectedToken t.line t.found)
    else do
      let ⟨s, rest, _⟩ ← Stmt.readOne (t :: tail)
      return s.toList ++ (← readStatements rest)
termination_by ts.length
decreasing_by omega

/-- The program a token list spells.  What stands after the first end of file is
not looked at. -/
def parse (ts : List Token) : Except ParseError Program :=
  if ts.isEmpty then .error .emptyInput
  else Program.mk <$> readStatements ts

end Betik
