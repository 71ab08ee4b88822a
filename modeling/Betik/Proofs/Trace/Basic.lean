/-
What a run does, in order.

A trace lists the moments of a run: what was done, and the machine it was done on.  It
follows the run step by step and is cut off where the run ends with an error or out of
fuel.  Each trace belongs to an action, and what is done after the action is done on the
machine that the action leaves.

`Trace.Closed P` says that `P` holds of every step together with what it does and is
kept by every way of putting actions together.  Then it holds of running anything:
`Trace.Closed.everywhere`.
-/
import Betik.Session

namespace Betik

inductive Deed
  /-- A statement is begun. -/
  | statement (s : Stmt)
  /-- A name is found to mean a function of the program, and the values it is called
  with are known.  Whether they fit has not been looked at. -/
  | call (line : Nat) (name : String) (args : List Value)
  | write (line : Nat) (text : String)
  | flush (line : Nat)
  /-- A prompt, whose text has been written and flushed, turns to the input and gives
  this. -/
  | answer (line : Nat) (result : Except RuntimeError Value)

structure Moment where
  machine : Machine
  deed : Deed

def Trace : Type :=
  Machine → List Moment

namespace Trace

variable {α β : Type}

def silent : Trace :=
  fun _ => []

def mark (deed : Deed) (t : Trace) : Trace :=
  fun m => ⟨m, deed⟩ :: t m

def only (deed : Deed) : Trace :=
  mark deed silent

def thenFlush (line : Nat) (t : Trace) (a : Action α) : Trace :=
  fun m => t m ++
    match a.run m with
    | some (_, m) => only (.flush line) m
    | none => []

def andThen (t : Trace) (a : Action α) (next : α → Trace) : Trace :=
  fun m => t m ++
    match a.run m with
    | some (.ok value, m) => next value m
    | _ => []

def outcome (deed : Except RuntimeError α → Deed) (a : Action α) : Trace :=
  fun m =>
    match a.run m with
    | some (result, _) => [⟨m, deed result⟩]
    | none => []

def asking (f : Machine → β) (t : β → Trace) : Trace :=
  fun m => t (f m) m

def withFunction (name : String) (use : Function → Trace) : Trace :=
  asking (·.functions.get? name) fun
    | some f => use f
    | none => silent

def inBlock (t : Trace) : Trace :=
  fun m => t m.enterBlock

def inCall (t : Trace) : Trace :=
  asking (fun m => (m.callDepth, m.callLimit)) fun (depth, limit) =>
    if limit ≤ depth then silent else fun m => t m.enterCall

def insideCall (t : Trace) : Trace :=
  asking (·.callDepth) fun depth => if depth = 0 then silent else t

@[simp] theorem andThen_silent (t : Trace) (a : Action α) :
    (t.andThen a fun _ => silent) = t := by
  funext m
  unfold andThen silent
  split <;> exact List.append_nil _

theorem mem_mark {t : Trace} {deed : Deed} {m : Machine} {mo : Moment} :
    mo ∈ t.mark deed m ↔ mo = ⟨m, deed⟩ ∨ mo ∈ t m :=
  List.mem_cons

theorem andThen_of_ok {t : Trace} {a : Action α} {u : α → Trace} {m m₁ : Machine} {value : α}
    (first : a m = some (.ok value, m₁)) : t.andThen a u m = t m ++ u value m₁ := by
  simp only [andThen, first]

theorem andThen_of_error {t : Trace} {a : Action α} {u : α → Trace} {m m₁ : Machine}
    {e : RuntimeError} (first : a m = some (.error e, m₁)) : t.andThen a u m = t m := by
  simp only [andThen, first, List.append_nil]

theorem andThen_of_none {t : Trace} {a : Action α} {u : α → Trace} {m : Machine}
    (first : a m = none) : t.andThen a u m = t m := by
  simp only [andThen, first, List.append_nil]

theorem thenFlush_of_some {t : Trace} {a : Action α} {line : Nat} {m m₁ : Machine}
    {r : Except RuntimeError α} (first : a m = some (r, m₁)) :
    t.thenFlush line a m = t m ++ [⟨m₁, .flush line⟩] := by
  simp only [thenFlush, first]
  rfl

theorem thenFlush_of_none {t : Trace} {a : Action α} {line : Nat} {m : Machine}
    (first : a m = none) : t.thenFlush line a m = t m := by
  simp only [thenFlush, first, List.append_nil]

theorem asking_run (f : Machine → β) (t : β → Trace) (m : Machine) :
    asking f t m = t (f m) m := rfl

theorem withFunction_silent (name : String) : (withFunction name fun _ => silent) = silent := by
  funext m
  dsimp only [withFunction, asking]
  cases m.functions.get? name <;> rfl

end Trace

/-! ## The traces of programs -/

def Action.takeAnswer (line : Nat) : Action Value := do
  return .text (← Action.readLine line)

def printed (values : List Value) : String :=
  " ".intercalate (values.map Value.render) ++ "\n"

mutual

def Expr.trace : Nat → Expr → Trace
  | 0, _ => .silent
  | fuel + 1, e =>
    match e with
    | .literal .. | .var .. => .silent
    | .binary _ _ lhs rhs | .logical _ _ lhs rhs =>
      (lhs.trace fuel).andThen (lhs.eval fuel) fun _ => rhs.trace fuel
    | .assign _ _ value => value.trace fuel
    | .call line name args =>
      (Expr.traceAll fuel args).andThen (Expr.evalAll fuel args) fun values =>
        if name = printName then .only (.write line (printed values))
        else .withFunction name fun f => f.trace fuel line name values
    | .prompt line text =>
      (Trace.only (.write line text)).andThen (Action.write line text) fun _ =>
        (Trace.only (.flush line)).andThen (Action.flush line) fun _ =>
          .outcome (.answer line) (Action.takeAnswer line)

def Expr.traceAll : Nat → List Expr → Trace
  | 0, _ => .silent
  | fuel + 1, es =>
    match es with
    | [] => .silent
    | e :: es => (e.trace fuel).andThen (e.eval fuel) fun _ => Expr.traceAll fuel es

def Function.trace : Nat → Nat → String → Function → List Value → Trace
  | 0, _, _, _, _ => .silent
  | fuel + 1, line, name, f, args =>
    .mark (.call line name args) <|
      if args.length ≠ f.params.length then .silent
      else .inCall <| Trace.silent.andThen (Action.defineAll (f.params.zip args)) fun _ =>
        Stmt.traceBlock fuel f.body

def Stmt.trace : Nat → Stmt → Trace
  | 0, _ => .silent
  | fuel + 1, s =>
    .mark (.statement s) <|
      match s with
      | .declare _ _ _ init => init.trace fuel
      | .print line value =>
        (value.trace fuel).andThen (value.eval fuel) fun v =>
          .only (.write line (v.render ++ "\n"))
      | .cond _ condition yes no =>
        (condition.trace fuel).andThen (condition.eval fuel) fun c =>
          if c.truthy then yes.trace fuel
          else
            match no with
            | some s => s.trace fuel
            | none => .silent
      | .loop _ condition body => Stmt.traceLoop fuel condition body
      | .function .. | .comment .. => .silent
      | .ret _ value => .insideCall (value.trace fuel)
      | .block _ body => Stmt.traceBlock fuel body
      | .expr _ value => value.trace fuel

def Stmt.traceLoop : Nat → Expr → Stmt → Trace
  | 0, _, _ => .silent
  | fuel + 1, condition, body =>
    (condition.trace fuel).andThen (condition.eval fuel) fun c =>
      if c.truthy then
        (body.trace fuel).andThen (body.run fuel) fun flow =>
          match flow with
          | .normal => Stmt.traceLoop fuel condition body
          | .returned _ => .silent
      else .silent

def Stmt.traceBlock : Nat → List Stmt → Trace
  | 0, _ => .silent
  | fuel + 1, body => .inBlock (Stmt.traceAll fuel body)

def Stmt.traceAll : Nat → List Stmt → Trace
  | 0, _ => .silent
  | fuel + 1, body =>
    match body with
    | [] => .silent
    | s :: ss =>
      (s.trace fuel).andThen (s.run fuel) fun flow =>
        match flow with
        | .normal => Stmt.traceAll fuel ss
        | .returned _ => .silent

end

def Stmt.traceProgram (fuel : Nat) : List Stmt → Trace
  | [] => .silent
  | s :: ss =>
    (s.trace fuel).andThen (s.run fuel) fun flow =>
      match flow with
      | .normal => Stmt.traceProgram fuel ss
      | .returned _ => .silent

/-- What the statements of a program do.  The flush at its end is not told. -/
def Program.trace (fuel : Nat) (p : Program) : Trace :=
  Stmt.traceProgram fuel p.statements

/-- What a program does with the flush at its end. -/
def Program.wholeTrace (fuel : Nat) (p : Program) : Trace :=
  (p.trace fuel).thenFlush 0 (Stmt.runProgram fuel p.statements)

def Session.Step.trace (fuel : Nat) : Session.Step → Trace
  | source text =>
    match compile text with
    | .ok p => p.wholeTrace fuel
    | .error _ => .silent
  | program p => p.wholeTrace fuel
  | statement s => s.trace fuel
  | expression e => e.trace fuel

/-! ## Properties of everything that runs -/

def Overflowed {α : Type} (result : Except RuntimeError α) : Prop :=
  ∃ limit line, result = .error ⟨.stackOverflow limit, line⟩

theorem overflowed_error {α : Type} {e : RuntimeError} :
    Overflowed (.error e : Except RuntimeError α) ↔
      ∃ limit line, e = ⟨.stackOverflow limit, line⟩ := by
  simp [Overflowed]

theorem not_overflowed_ok {α : Type} (value : α) : ¬Overflowed (.ok value) :=
  nofun

theorem Operator.not_overflowed_apply (op : Operator) (x y : Value) (line : Nat) :
    ¬Overflowed ((op.apply x y).mapError fun cause => ⟨cause, line⟩) := by
  rintro ⟨limit, line', same⟩
  cases applied : op.apply x y with
  | ok value =>
    rw [applied] at same
    cases same
  | error cause =>
    rw [applied] at same
    cases same
    obtain about | about := apply_error applied <;> cases about

namespace Trace

variable {P : (α : Type) → Action α → Trace → Prop}

/-- What is asked of a property of actions and their traces, calls of functions apart. -/
structure Stepwise (P : (α : Type) → Action α → Trace → Prop) : Prop where
  outOfFuel : ∀ {α : Type}, P α .outOfFuel silent
  /-- A step that leaves the machine as it is, with a value or an error. -/
  say : ∀ {α : Type} (result : Except RuntimeError α), ¬Overflowed result →
    P α (.step fun m => (result, m)) silent
  lookUp : ∀ line name, P Value (.lookUp line name) silent
  define : ∀ name value, P Unit (.define name value) silent
  assign : ∀ line name value, P Unit (.assign line name value) silent
  defineFunction : ∀ name f, P Unit (.defineFunction name f) silent
  write : ∀ line text, P Unit (.write line text) (only (.write line text))
  flush : ∀ line, P Unit (.flush line) (only (.flush line))
  takeAnswer : ∀ line,
    P Value (.takeAnswer line) (outcome (.answer line) (.takeAnswer line))
  bind : ∀ {α β : Type} {a : Action α} {f : α → Action β} {t : Trace} {u : α → Trace},
    P α a t → (∀ value, P β (f value) (u value)) → P β (a >>= f) (t.andThen a u)
  statement : ∀ {a : Action Flow} {t : Trace} (s : Stmt),
    P Flow a t → P Flow a (mark (.statement s) t)
  inBlock : ∀ {α : Type} {a : Action α} {t : Trace}, P α a t → P α (.inBlock a) t.inBlock
  insideCall : ∀ {α : Type} {a : Action α} {t : Trace} (line : Nat),
    P α a t → P α (.insideCall line a) t.insideCall

/-- What the induction over programs asks of a property.  A call is asked about as a
whole, from where the function is looked up to where it returns. -/
structure Closed (P : (α : Type) → Action α → Trace → Prop) : Prop extends Stepwise P where
  /-- The function is looked up, and there is no fuel to call it. -/
  notCalled : ∀ {α : Type} line name,
    P α (.withFunction line name fun _ => .outOfFuel) silent
  called : ∀ {body : Function → Action Flow} {t : Function → Trace} line name args,
    name ≠ printName → (∀ f, P Flow (body f) (t f)) →
    P Value
      (.withFunction line name fun f =>
        if args.length ≠ f.params.length then
          .fail line (.wrongArity name f.params.length args.length)
        else do
          let flow ← Action.inCall line (body f)
          return flow.value)
      (withFunction name fun f =>
        mark (.call line name args)
          (if args.length ≠ f.params.length then silent else (t f).inCall))

/-- What suffices if the parts of a call can be looked at one by one. -/
structure Partwise (P : (α : Type) → Action α → Trace → Prop) : Prop extends Stepwise P where
  withFunction : ∀ {α : Type} {use : Function → Action α} {t : Function → Trace} line name,
    (∀ f, P α (use f) (t f)) → P α (.withFunction line name use) (withFunction name t)
  call : ∀ {a : Action Value} {t : Trace} line name args,
    P Value a t → P Value a (mark (.call line name args) t)
  inCall : ∀ {α : Type} {a : Action α} {t : Trace} (line : Nat),
    P α a t → P α (.inCall line a) t.inCall

structure Everywhere (P : (α : Type) → Action α → Trace → Prop) (fuel : Nat) : Prop where
  eval : ∀ e : Expr, P Value (e.eval fuel) (e.trace fuel)
  evalAll : ∀ es, P (List Value) (Expr.evalAll fuel es) (Expr.traceAll fuel es)
  call : ∀ line name args, name ≠ printName →
    P Value (.withFunction line name fun f => f.call fuel line name args)
      (withFunction name fun f => f.trace fuel line name args)
  run : ∀ s : Stmt, P Flow (s.run fuel) (s.trace fuel)
  runLoop : ∀ condition body,
    P Flow (Stmt.runLoop fuel condition body) (Stmt.traceLoop fuel condition body)
  runBlock : ∀ body, P Flow (Stmt.runBlock fuel body) (Stmt.traceBlock fuel body)
  runAll : ∀ body, P Flow (Stmt.runAll fuel body) (Stmt.traceAll fuel body)

theorem holds_ite (c : Prop) [Decidable c] {α : Type} {a b : Action α} {t u : Trace}
    (ha : P α a t) (hb : P α b u) : P α (if c then a else b) (if c then t else u) := by
  split <;> assumption

namespace Stepwise

theorem done (h : Stepwise P) {α : Type} (value : α) : P α (.done value) silent :=
  h.say (.ok value) (not_overflowed_ok value)

/-- What comes next does nothing worth telling. -/
theorem last (h : Stepwise P) {α β : Type} {a : Action α} {f : α → Action β} {t : Trace}
    (ha : P α a t) (hf : ∀ value, P β (f value) silent) : P β (a >>= f) t := by
  have both := h.bind ha hf
  rwa [andThen_silent] at both

theorem defineAll (h : Stepwise P) (bindings : List (String × Value)) :
    P Unit (Action.defineAll bindings) silent := by
  induction bindings with
  | nil => exact h.done ()
  | cons b bs ih => exact h.last (h.define b.1 b.2) fun _ => ih

end Stepwise

theorem Partwise.closed (h : Partwise P) : Closed P where
  toStepwise := h.toStepwise
  notCalled line name := by
    rw [← withFunction_silent name]
    exact h.withFunction line name fun _ => h.outOfFuel
  called line name args _ body := by
    refine h.withFunction line name fun f => h.call line name args ?_
    exact holds_ite _ (h.say _ nofun) (h.last (h.inCall line (body f)) fun _ => h.done _)

namespace Closed

variable {fuel : Nat}

theorem eval (h : Closed P) (ih : Everywhere P fuel) (e : Expr) :
    P Value (e.eval (fuel + 1)) (e.trace (fuel + 1)) := by
  cases e with
  | literal => exact h.done _
  | binary line op =>
    refine h.bind (ih.eval _) fun x => h.last (ih.eval _) fun y => ?_
    exact h.say _ (op.not_overflowed_apply x y line)
  | logical => exact h.bind (ih.eval _) fun _ => h.last (ih.eval _) fun _ => h.done _
  | var => exact h.lookUp _ _
  | assign => exact h.last (ih.eval _) fun _ => h.last (h.assign _ _ _) fun _ => h.done _
  | call line name args =>
    refine h.bind (ih.evalAll args) fun values => ?_
    by_cases native : name = printName
    · simp only [native, if_true]
      exact h.last (h.write _ _) fun _ => h.done _
    · simp only [native, if_false]
      exact ih.call line name values native
  | prompt =>
    refine h.bind (h.write _ _) fun _ => h.bind (h.flush _) fun _ => ?_
    exact h.takeAnswer _

theorem evalAll (h : Closed P) (ih : Everywhere P fuel) (es : List Expr) :
    P (List Value) (Expr.evalAll (fuel + 1) es) (Expr.traceAll (fuel + 1) es) := by
  cases es with
  | nil => exact h.done _
  | cons => exact h.bind (ih.eval _) fun _ => h.last (ih.evalAll _) fun _ => h.done _

theorem call (h : Closed P) (ih : Everywhere P fuel) (line : Nat) (name : String)
    (args : List Value) (other : name ≠ printName) :
    P Value (.withFunction line name fun f => f.call (fuel + 1) line name args)
      (withFunction name fun f => f.trace (fuel + 1) line name args) :=
  h.called line name args other fun _ => h.bind (h.defineAll _) fun _ => ih.runBlock _

theorem run (h : Closed P) (ih : Everywhere P fuel) (s : Stmt) :
    P Flow (s.run (fuel + 1)) (s.trace (fuel + 1)) := by
  refine h.statement s ?_
  cases s with
  | declare => exact h.last (ih.eval _) fun _ => h.last (h.define _ _) fun _ => h.done _
  | print => exact h.bind (ih.eval _) fun _ => h.last (h.write _ _) fun _ => h.done _
  | cond _ _ _ no =>
    refine h.bind (ih.eval _) fun _ => holds_ite _ (ih.run _) ?_
    cases no with
    | none => exact h.done _
    | some s => exact ih.run s
  | loop => exact ih.runLoop _ _
  | function => exact h.last (h.defineFunction _ _) fun _ => h.done _
  | ret => exact h.insideCall _ (h.last (ih.eval _) fun _ => h.done _)
  | block => exact ih.runBlock _
  | expr => exact h.last (ih.eval _) fun _ => h.done _
  | comment => exact h.done _

theorem runLoop (h : Closed P) (ih : Everywhere P fuel) (condition : Expr) (body : Stmt) :
    P Flow (Stmt.runLoop (fuel + 1) condition body) (Stmt.traceLoop (fuel + 1) condition body) := by
  refine h.bind (ih.eval _) fun _ => holds_ite _ (h.bind (ih.run _) fun flow => ?_) (h.done _)
  cases flow with
  | normal => exact ih.runLoop _ _
  | returned => exact h.done _

theorem runAll (h : Closed P) (ih : Everywhere P fuel) (body : List Stmt) :
    P Flow (Stmt.runAll (fuel + 1) body) (Stmt.traceAll (fuel + 1) body) := by
  cases body with
  | nil => exact h.done _
  | cons =>
    refine h.bind (ih.run _) fun flow => ?_
    cases flow with
    | normal => exact ih.runAll _
    | returned => exact h.done _

theorem everywhere (h : Closed P) (fuel : Nat) : Everywhere P fuel := by
  induction fuel with
  | zero =>
    have looked (line : Nat) (name : String) (args : List Value) (_ : name ≠ printName) :
        P Value (.withFunction line name fun f => f.call 0 line name args)
          (withFunction name fun f => f.trace 0 line name args) := by
      have nothing := h.notCalled (α := Value) line name
      rwa [← withFunction_silent name] at nothing
    exact {
      eval := fun _ => h.outOfFuel
      evalAll := fun _ => h.outOfFuel
      call := looked
      run := fun _ => h.outOfFuel
      runLoop := fun _ _ => h.outOfFuel
      runBlock := fun _ => h.outOfFuel
      runAll := fun _ => h.outOfFuel }
  | succ fuel ih =>
    exact ⟨h.eval ih, h.evalAll ih, h.call ih, h.run ih, h.runLoop ih,
      fun _ => h.inBlock (ih.runAll _), h.runAll ih⟩

theorem runProgram (h : Closed P) (fuel : Nat) (ss : List Stmt) :
    P Unit (Stmt.runProgram fuel ss) (Stmt.traceProgram fuel ss) := by
  induction ss with
  | nil => exact h.done _
  | cons s ss ih =>
    refine h.bind ((h.everywhere fuel).run s) fun flow => ?_
    cases flow with
    | normal => exact ih
    | returned => exact h.say _ nofun

end Closed
end Trace
end Betik
