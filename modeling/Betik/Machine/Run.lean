/-
Running programs.  A program may run forever, so every function here has fuel
that bounds how deep it goes; with more fuel an action that ended ends the same.
-/
import Betik.Machine.Arithmetic
import Betik.Machine.Basic

namespace Betik

inductive Flow
  | normal
  | returned (value : Value)
deriving DecidableEq, Repr

def Flow.value : Flow → Value
  | normal => .null
  | returned value => value

/-- The function that every program has: it prints its arguments on one line. -/
def printName : String :=
  Keyword.print.spelling

mutual

def Expr.eval : Nat → Expr → Action Value
  | 0, _ => .outOfFuel
  | fuel + 1, e =>
    match e with
    | .literal _ value => pure value.value
    | .binary line op lhs rhs => do
      let x ← lhs.eval fuel
      let y ← rhs.eval fuel
      .lift line (op.apply x y)
    | .logical _ op lhs rhs => do
      -- both sides are evaluated, whatever the first one says
      let x ← lhs.eval fuel
      let y ← rhs.eval fuel
      return .boolean (op.apply x.truthy y.truthy)
    | .var line name => .lookUp line name
    | .assign line name value => do
      let v ← value.eval fuel
      Action.assign line name v
      return v
    | .call line name args => do
      let values ← Expr.evalAll fuel args
      if name = printName then
        Action.write line (" ".intercalate (values.map Value.render) ++ "\n")
        return .null
      else
        Action.withFunction line name fun f => f.call fuel line name values
    | .prompt line text => do
      Action.write line text
      Action.flush line
      return .text (← Action.readLine line)

def Expr.evalAll : Nat → List Expr → Action (List Value)
  | 0, _ => .outOfFuel
  | fuel + 1, es =>
    match es with
    | [] => pure []
    | e :: es => do
      let v ← e.eval fuel
      let vs ← Expr.evalAll fuel es
      return v :: vs

/-- A call with its arguments evaluated.  The parameters have a frame, and the
body has a block of its own inside it. -/
def Function.call : Nat → Nat → String → Function → List Value → Action Value
  | 0, _, _, _, _ => .outOfFuel
  | fuel + 1, line, name, f, args =>
    if args.length ≠ f.params.length then
      .fail line (.wrongArity name f.params.length args.length)
    else do
      let flow ← Action.inCall line do
        Action.defineAll (f.params.zip args)
        Stmt.runBlock fuel f.body
      return flow.value

/-- A statement.  A return outside of any call is refused before its value is
looked at. -/
def Stmt.run : Nat → Stmt → Action Flow
  | 0, _ => .outOfFuel
  | fuel + 1, s =>
    match s with
    | .declare _ name _ init => do
      let v ← init.eval fuel
      Action.define name v
      return .normal
    | .print line value => do
      let v ← value.eval fuel
      Action.write line (v.render ++ "\n")
      return .normal
    | .cond _ condition yes no => do
      let c ← condition.eval fuel
      if c.truthy then yes.run fuel
      else
        match no with
        | some s => s.run fuel
        | none => return .normal
    | .loop _ condition body => Stmt.runLoop fuel condition body
    | .function _ name params body => do
      Action.defineFunction name ⟨params, body⟩
      return .normal
    | .ret line value =>
      Action.insideCall line do return .returned (← value.eval fuel)
    | .block _ body => Stmt.runBlock fuel body
    | .expr _ value => do
      let _ ← value.eval fuel
      return .normal
    | .comment .. => return .normal

def Stmt.runLoop : Nat → Expr → Stmt → Action Flow
  | 0, _, _ => .outOfFuel
  | fuel + 1, condition, body => do
    let c ← condition.eval fuel
    if c.truthy then
      match ← body.run fuel with
      | .normal => Stmt.runLoop fuel condition body
      | .returned value => return .returned value
    else return .normal

def Stmt.runBlock : Nat → List Stmt → Action Flow
  | 0, _ => .outOfFuel
  | fuel + 1, body => .inBlock (Stmt.runAll fuel body)

def Stmt.runAll : Nat → List Stmt → Action Flow
  | 0, _ => .outOfFuel
  | fuel + 1, body =>
    match body with
    | [] => return .normal
    | s :: ss => do
      match ← s.run fuel with
      | .normal => Stmt.runAll fuel ss
      | .returned value => return .returned value

end

/-- The statements of a program.  A value that is returned to nobody is an error
of the statement it came from. -/
def Stmt.runProgram (fuel : Nat) : List Stmt → Action Unit
  | [] => pure ()
  | s :: ss => do
    match ← s.run fuel with
    | .normal => Stmt.runProgram fuel ss
    | .returned _ => .fail s.line .returnOutsideFunction

/-- A whole program, and the flush of the sink at its end, whose failure belongs to
no line. -/
def Program.run (fuel : Nat) (p : Program) : Action Unit :=
  (Stmt.runProgram fuel p.statements).thenFlush 0

end Betik
