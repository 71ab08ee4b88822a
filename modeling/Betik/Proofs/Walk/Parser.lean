/-
The parser as a walk.

Here nothing bounds a loop but what the tokens say.  A statement that is looked for at an
end of file or at a closing brace is none, and nothing is taken for it, so a loop that
looked for one there would go round forever.  Every function has fuel, and a loop has as
many rounds as there is fuel.
-/
import Betik.Proofs.Walk.Basic

namespace Betik
namespace Walk

variable {α σ : Type}

/-! ## What walks are made of -/

def current : Walk Token :=
  look done

def take : Walk Token :=
  step done

def here : Walk Nat :=
  ask done

def nextIsSign (sign : Mark) : Walk Bool :=
  peek sign done

def check (kind : TokenKind) : Walk Bool := do
  return (← current).kind = kind

def accept (kind : TokenKind) : Walk Bool := do
  if ← check kind then
    let _ ← take
    return true
  else return false

def consume (kind : TokenKind) : Walk Token := do
  let t ← current
  if t.kind = kind then take
  else fail (.expectedToken t.line kind t.found)

/-- How a round of a loop ends: the next one begins with this, or the loop is left. -/
inductive Turn (σ α : Type)
  | again (state : σ)
  | leave (value : α)

def loop (name : Loop) (round : σ → Walk (Turn σ α)) : Nat → σ → Walk α
  | 0, _ => outOfFuel
  | fuel + 1, state => do
    let start ← here
    match ← round state with
    | .leave value => return value
    | .again state =>
      tell (.round name start (← here)) (loop name round fuel state)

def itemRound (item : Walk α) (items : List α) : Walk (Turn (List α) (List α)) := do
  let x ← item
  if ← accept (.mark .comma) then return .again (items ++ [x])
  else return .leave (items ++ [x])

def enclosed (name : Loop) (item : Walk α) (fuel : Nat) : Walk (List α) := do
  let _ ← consume (.mark .leftParen)
  let items ←
    if ← check (.mark .rightParen) then pure []
    else loop name (itemRound item) fuel []
  let _ ← consume (.mark .rightParen)
  return items

/-! ## Expressions -/

def operatorRound (level : Precedence) (operand : Walk Expr) (lhs : Expr) :
    Walk (Turn Expr Expr) := do
  let t ← current
  match t.kind.joinerAt? level with
  | none => return .leave lhs
  | some joiner =>
    let _ ← take
    let rhs ← operand
    return .again (Expr.join t.line joiner lhs rhs)

def atom (t : Token) : Walk Expr :=
  match t.atom with
  | .error e => fail e
  | .ok e => do
    let _ ← take
    return e

mutual

def expression : Nat → Precedence → Walk Expr
  | 0, _ => outOfFuel
  | fuel + 1, level =>
    if level = .primary then primary fuel
    else do
      let lhs ← expression fuel level.next
      loop .operators (operatorRound level (expression fuel level.next)) fuel lhs

def primary : Nat → Walk Expr
  | 0 => outOfFuel
  | fuel + 1 => do
    let t ← current
    if t.kind = .mark .leftParen then
      let _ ← take
      let e ← expression fuel .logicalOr
      let _ ← consume (.mark .rightParen)
      return e
    else if t.kind.callable then
      if ← nextIsSign .leftParen then call fuel
      else atom t
    else atom t

def call : Nat → Walk Expr
  | 0 => outOfFuel
  | fuel + 1 => do
    let t ← take
    let args ← enclosed .arguments (expression fuel .logicalOr) fuel
    return .call t.line t.lexeme args

end

/-! ## Statements -/

def dataType : Walk DataType := do
  let t ← take
  match t.kind with
  | .keyword (.dataType type) => return type
  | _ => fail (.expectedDataType t.line t.found)

def declaration (fuel : Nat) : Walk Stmt := do
  let t ← consume (.keyword .declare)
  let name ← consume .name
  let _ ← consume (.keyword .typed)
  let type ← dataType
  let _ ← consume (.keyword .initially)
  let init ← expression fuel .logicalOr
  let _ ← consume (.mark .dollar)
  return .declare t.line name.lexeme type init

def assignment (fuel : Nat) : Walk Stmt := do
  let name ← consume .name
  let _ ← consume (.mark .equals)
  let value ← expression fuel .logicalOr
  let _ ← consume (.mark .dollar)
  return .expr name.line (.assign name.line name.lexeme value)

def parenthesized (fuel : Nat) : Walk Expr := do
  let _ ← consume (.mark .leftParen)
  let e ← expression fuel .logicalOr
  let _ ← consume (.mark .rightParen)
  return e

def print (fuel : Nat) : Walk Stmt := do
  let t ← consume (.keyword .print)
  let value ← parenthesized fuel
  let _ ← consume (.mark .dollar)
  return .print t.line value

def ret (fuel : Nat) : Walk Stmt := do
  let t ← consume (.keyword .ret)
  let value ← expression fuel .logicalOr
  let _ ← consume (.mark .dollar)
  return .ret t.line value

def blockRound (statement : Walk (Option Stmt)) (ss : List Stmt) :
    Walk (Turn (List Stmt) (List Stmt)) := do
  if ← accept (.mark .rightBrace) then return .leave ss
  else
    if ← check .endOfFile then
      let _ ← consume (.mark .rightBrace)
    let s ← statement
    return .again (ss ++ s.toList)

def programRound (statement : Walk (Option Stmt)) (ss : List Stmt) :
    Walk (Turn (List Stmt) (List Stmt)) := do
  if ← check .endOfFile then return .leave ss
  else
    if ← check (.mark .rightBrace) then
      let t ← current
      fail (.unexpectedToken t.line t.found)
    let s ← statement
    return .again (ss ++ s.toList)

mutual

/-- A statement, or none: an empty one, or the end of a sequence. -/
def statement : Nat → Walk (Option Stmt)
  | 0 => outOfFuel
  | fuel + 1 => do
    tell (.statement (← here)) do
      let t ← current
      match t.kind with
      | .keyword .declare => return some (← declaration fuel)
      | .name =>
        if ← nextIsSign .equals then return some (← assignment fuel)
        else if ← nextIsSign .leftParen then
          let e ← call fuel
          let _ ← accept (.mark .dollar)
          return some (.expr t.line e)
        else fail (.unexpectedToken t.line t.found)
      | .keyword .print => return some (← print fuel)
      | .keyword .loop =>
        let _ ← consume (.keyword .loop)
        let condition ← parenthesized fuel
        let s ← block fuel
        return some (.loop t.line condition s)
      | .keyword .cond => return some (← cond fuel)
      | .keyword .otherwise =>
        let _ ← take
        return some (← branch fuel)
      | .keyword .function =>
        let _ ← consume (.keyword .function)
        let name ← consume .name
        let params ← enclosed .parameters (return (← consume .name).lexeme) fuel
        let ss ← body fuel
        return some (.function t.line name.lexeme params ss)
      | .keyword .ret => return some (← ret fuel)
      | .comment =>
        let _ ← take
        return some (.comment t.line (Stmt.commentText t.lexeme))
      | .mark .dollar =>
        let _ ← take
        return none
      | .endOfFile | .mark .rightBrace => return none
      | _ => fail (.unexpectedToken t.line t.found)

def cond : Nat → Walk Stmt
  | 0 => outOfFuel
  | fuel + 1 => do
    let t ← consume (.keyword .cond)
    let condition ← parenthesized fuel
    let yes ← block fuel
    if ← accept (.keyword .otherwise) then
      let no ← branch fuel
      return .cond t.line condition yes (some no)
    else return .cond t.line condition yes none

def branch : Nat → Walk Stmt
  | 0 => outOfFuel
  | fuel + 1 => do
    if ← check (.keyword .cond) then cond fuel
    else block fuel

def block : Nat → Walk Stmt
  | 0 => outOfFuel
  | fuel + 1 => do
    let t ← current
    let ss ← body fuel
    return .block t.line ss

def body : Nat → Walk (List Stmt)
  | 0 => outOfFuel
  | fuel + 1 => do
    let _ ← consume (.mark .leftBrace)
    loop .block (blockRound (statement fuel)) fuel []

end

def program (fuel : Nat) : Walk Program := do
  let ss ← loop .program (programRound (statement fuel)) fuel []
  return ⟨ss⟩

end Walk

open Walk

def enoughFor (n : Nat) : Nat :=
  10 * n + 10

def parsing (fuel : Nat) (ts : List Token) : Option (Journey Program) :=
  if ts.isEmpty then some ⟨.error ⟨.emptyInput, 0⟩, 0, 0, [], []⟩
  else (program fuel).run ts 0 0

/-- The journey of the parser over a list of tokens that should begin with an expression. -/
def parsingExpr (fuel : Nat) (ts : List Token) : Option (Journey Expr) :=
  (expression fuel .logicalOr).run ts 0 0

end Betik
