/-
An interpreter that leaves one thing open: what a call puts around its body.

The functions of the interpreter call each other with less fuel, so they make up one record,
and the record for some fuel is made from that for less.  With a block around the body these
are the functions that run programs, which is `interpreter_inBlock`.  With nothing around it
the parameters of a call and the variables of its body have one frame.
-/
import Betik.Machine.Run

namespace Betik

structure Interpreter where
  eval : Expr → Action Value
  evalAll : List Expr → Action (List Value)
  call : Nat → String → Function → List Value → Action Value
  run : Stmt → Action Flow
  runLoop : Expr → Stmt → Action Flow
  runBlock : List Stmt → Action Flow
  runAll : List Stmt → Action Flow
  /-- The body of a function, where the frame of its parameters is the innermost one. -/
  runBody : List Stmt → Action Flow

namespace Interpreter

def stuck : Interpreter where
  eval _ := .outOfFuel
  evalAll _ := .outOfFuel
  call _ _ _ _ := .outOfFuel
  run _ := .outOfFuel
  runLoop _ _ := .outOfFuel
  runBlock _ := .outOfFuel
  runAll _ := .outOfFuel
  runBody _ := .outOfFuel

/-- The interpreter for one more unit of fuel.  Statements in a body are run like others,
with `around` around them. -/
def next (around : Action Flow → Action Flow) (i : Interpreter) : Interpreter where
  eval e :=
    match e with
    | .literal _ value => pure value.value
    | .binary line op lhs rhs => do
      let x ← i.eval lhs
      let y ← i.eval rhs
      .lift line (op.apply x y)
    | .logical _ op lhs rhs => do
      let x ← i.eval lhs
      let y ← i.eval rhs
      return .boolean (op.apply x.truthy y.truthy)
    | .var line name => .lookUp line name
    | .assign line name value => do
      let v ← i.eval value
      Action.assign line name v
      return v
    | .call line name args => do
      let values ← i.evalAll args
      if name = printName then
        Action.write line (" ".intercalate (values.map Value.render) ++ "\n")
        return .null
      else
        Action.withFunction line name fun f => i.call line name f values
    | .prompt line text => do
      Action.write line text
      Action.flush line
      return .text (← Action.readLine line)
  evalAll es :=
    match es with
    | [] => pure []
    | e :: es => do
      let v ← i.eval e
      let vs ← i.evalAll es
      return v :: vs
  call line name f args :=
    if args.length ≠ f.params.length then
      .fail line (.wrongArity name f.params.length args.length)
    else do
      let flow ← Action.inCall line do
        Action.defineAll (f.params.zip args)
        i.runBody f.body
      return flow.value
  run s :=
    match s with
    | .declare _ name _ init => do
      let v ← i.eval init
      Action.define name v
      return .normal
    | .print line value => do
      let v ← i.eval value
      Action.write line (v.render ++ "\n")
      return .normal
    | .cond _ condition yes no => do
      let c ← i.eval condition
      if c.truthy then i.run yes
      else
        match no with
        | some s => i.run s
        | none => return .normal
    | .loop _ condition body => i.runLoop condition body
    | .function _ name params body => do
      Action.defineFunction name ⟨params, body⟩
      return .normal
    | .ret line value =>
      Action.insideCall line do return .returned (← i.eval value)
    | .block _ body => i.runBlock body
    | .expr _ value => do
      let _ ← i.eval value
      return .normal
    | .comment .. => return .normal
  runLoop condition body := do
    let c ← i.eval condition
    if c.truthy then
      match ← i.run body with
      | .normal => i.runLoop condition body
      | .returned value => return .returned value
    else return .normal
  runBlock body := .inBlock (i.runAll body)
  runAll body :=
    match body with
    | [] => return .normal
    | s :: ss => do
      match ← i.run s with
      | .normal => i.runAll ss
      | .returned value => return .returned value
  runBody body := around (i.runAll body)

def runProgram (i : Interpreter) : List Stmt → Action Unit
  | [] => pure ()
  | s :: ss => do
    match ← i.run s with
    | .normal => i.runProgram ss
    | .returned _ => .fail s.line .returnOutsideFunction

def program (i : Interpreter) (p : Program) : Action Unit :=
  (i.runProgram p.statements).thenFlush 0

end Interpreter

/-- The interpreter whose calls put `around` around the statements of a body. -/
def interpreter (around : Action Flow → Action Flow) : Nat → Interpreter
  | 0 => .stuck
  | fuel + 1 => (interpreter around fuel).next around

/-- Programs are run with a block around each body. -/
theorem interpreter_inBlock (fuel : Nat) :
    interpreter Action.inBlock fuel =
      ⟨Expr.eval fuel, Expr.evalAll fuel, Function.call fuel, Stmt.run fuel, Stmt.runLoop fuel,
        Stmt.runBlock fuel, Stmt.runAll fuel, Stmt.runBlock fuel⟩ := by
  induction fuel with
  | zero => rfl
  | succ fuel ih =>
    have eval : (interpreter Action.inBlock (fuel + 1)).eval = Expr.eval (fuel + 1) := by
      funext e
      rw [interpreter, ih]
      cases e <;> rfl
    have evalAll : (interpreter Action.inBlock (fuel + 1)).evalAll = Expr.evalAll (fuel + 1) := by
      funext es
      rw [interpreter, ih]
      cases es <;> rfl
    have run : (interpreter Action.inBlock (fuel + 1)).run = Stmt.run (fuel + 1) := by
      funext s
      rw [interpreter, ih]
      cases s <;> rfl
    have runAll : (interpreter Action.inBlock (fuel + 1)).runAll = Stmt.runAll (fuel + 1) := by
      funext body
      rw [interpreter, ih]
      cases body <;> rfl
    rw [← eval, ← evalAll, ← run, ← runAll, interpreter, ih]
    rfl

theorem interpreter_inBlock_program (fuel : Nat) (p : Program) :
    (interpreter Action.inBlock fuel).program p = p.run fuel := by
  have runProgram (ss : List Stmt) :
      (interpreter Action.inBlock fuel).runProgram ss = Stmt.runProgram fuel ss := by
    induction ss with
    | nil => rfl
    | cons s ss ih =>
      rw [Interpreter.runProgram, ih, interpreter_inBlock]
      rfl
  rw [Interpreter.program, runProgram]
  rfl

end Betik
