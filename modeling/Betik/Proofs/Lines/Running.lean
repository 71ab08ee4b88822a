/-
Running relabelled programs.

Lines are carried along and never looked at.  So a relabelled program does on a
relabelled machine, whose functions have other lines in their bodies, exactly what the
program does, with the same fuel, and only its errors are about other lines.
-/
import Betik.Proofs.Lines.Relabel

namespace Betik

variable {f : Nat → Nat}

def Function.relabel (f : Nat → Nat) (g : Function) : Function :=
  ⟨g.params, Stmt.relabelAll f g.body⟩

def Machine.relabel (f : Nat → Nat) (m : Machine) : Machine :=
  { m with functions := m.functions.map (Function.relabel f) }

namespace Action

variable {α β : Type}

def relabelEnd (f : Nat → Nat) : Except RuntimeError α × Machine → Except RuntimeError α × Machine
  | (r, m) => (r.mapError (RuntimeError.relabel f), m.relabel f)

/-- The second action does on relabelled machines what the first does on machines. -/
def Relabels (f : Nat → Nat) (a b : Action α) : Prop :=
  ∀ m : Machine, b.run (m.relabel f) = (a.run m).map (relabelEnd f)

theorem Relabels.step {g g' : Machine → Except RuntimeError α × Machine}
    (h : ∀ m : Machine, g' (m.relabel f) = relabelEnd f (g m)) :
    Relabels f (step g) (step g') :=
  fun m => congrArg some (h m)

theorem relabels_outOfFuel : Relabels f (α := α) outOfFuel outOfFuel :=
  fun _ => rfl

theorem relabels_pure (value : α) : Relabels f (pure value) (pure value) :=
  .step fun _ => rfl

theorem relabels_fail (line : Nat) (cause : RuntimeError.Cause) :
    Relabels f (α := α) (fail line cause) (fail (f line) cause) :=
  .step fun _ => rfl

theorem Relabels.bind {a b : Action α} {k k' : α → Action β} (h : Relabels f a b)
    (next : ∀ value, Relabels f (k value) (k' value)) : Relabels f (a >>= k) (b >>= k') := by
  intro m
  simp only [Bind.bind, andThen, h m]
  cases a.run m with
  | none => rfl
  | some p =>
    obtain ⟨r, m'⟩ := p
    cases r with
    | error e => rfl
    | ok value => exact next value m'

theorem Relabels.ite {c : Prop} [Decidable c] {a b a' b' : Action α} (h : Relabels f a b)
    (h' : Relabels f a' b') : Relabels f (if c then a else a') (if c then b else b') := by
  split <;> assumption

theorem Relabels.within {a b : Action α} (h : Relabels f a b) {enter leave : Machine → Machine}
    (entered : ∀ m : Machine, enter (m.relabel f) = (enter m).relabel f)
    (left : ∀ m : Machine, leave (m.relabel f) = (leave m).relabel f) :
    Relabels f (within enter leave a) (within enter leave b) := by
  intro m
  simp only [Action.within, entered, h (enter m)]
  cases a.run (enter m) with
  | none => rfl
  | some p =>
    obtain ⟨r, m'⟩ := p
    cases r <;> simp [relabelEnd, left]

theorem Relabels.inBlock {a b : Action α} (h : Relabels f a b) :
    Relabels f (inBlock a) (inBlock b) :=
  h.within (fun _ => rfl) fun _ => rfl

theorem Relabels.inCall {a b : Action α} (h : Relabels f a b) (line : Nat) :
    Relabels f (inCall line a) (inCall (f line) b) :=
  (Relabels.step fun _ => rfl).bind fun _ =>
    .ite (relabels_fail _ _) (h.within (fun _ => rfl) fun _ => rfl)

theorem Relabels.insideCall {a b : Action α} (h : Relabels f a b) (line : Nat) :
    Relabels f (insideCall line a) (insideCall (f line) b) :=
  (Relabels.step fun _ => rfl).bind fun _ => .ite (relabels_fail _ _) h

theorem Relabels.withFunction {use use' : Function → Action α}
    (h : ∀ g : Function, Relabels f (use g) (use' (g.relabel f))) (line : Nat) (name : String) :
    Relabels f (withFunction line name use) (withFunction (f line) name use') := by
  intro m
  have found : (m.relabel f).functions.get? name =
      (m.functions.get? name).map (Function.relabel f) := Table.get?_map _ _ _
  rw [withFunction_run, withFunction_run, found]
  cases m.functions.get? name with
  | none => rfl
  | some g => exact h g m

theorem relabels_defineFunction (name : String) (g : Function) :
    Relabels f (defineFunction name g) (defineFunction name (g.relabel f)) := by
  refine .step fun m => ?_
  simp only [relabelEnd, Machine.relabel, Table.put_map]
  rfl

theorem relabels_lookUp (line : Nat) (name : String) :
    Relabels f (lookUp line name) (lookUp (f line) name) := by
  refine .step fun m => ?_
  simp only [Machine.relabel]
  cases m.environment.get? name <;> rfl

theorem relabels_assign (line : Nat) (name : String) (value : Value) :
    Relabels f (assign line name value) (assign (f line) name value) := by
  refine .step fun m => ?_
  simp only [Machine.relabel]
  cases m.environment.assign? name value <;> rfl

theorem relabels_lift (line : Nat) (result : Except RuntimeError.Cause α) :
    Relabels f (lift line result) (lift (f line) result) := by
  refine .step fun m => ?_
  cases result <;> rfl

theorem relabels_write (line : Nat) (text : String) :
    Relabels f (write line text) (write (f line) text) := by
  refine .step fun m => ?_
  simp only [Machine.relabel]
  cases (m.sink.write text).1 <;> rfl

theorem relabels_flush (line : Nat) : Relabels f (flush line) (flush (f line)) := by
  refine .step fun m => ?_
  have left : (m.relabel f).flushed = m.flushed.relabel f := rfl
  rw [left]
  simp only [Machine.relabel]
  cases m.sink.flush.1 <;> rfl

theorem relabels_readLine (line : Nat) : Relabels f (readLine line) (readLine (f line)) := by
  refine .step fun m => ?_
  simp only [Machine.relabel]
  cases m.input.readLine.1 <;> rfl

theorem relabels_defineAll (bindings : List (String × Value)) :
    Relabels f (defineAll bindings) (defineAll bindings) := by
  induction bindings with
  | nil => exact relabels_pure ()
  | cons binding bindings ih => exact (Relabels.step fun _ => rfl).bind fun _ => ih

end Action

open Betik.Action

structure Relabelling (f : Nat → Nat) (fuel : Nat) : Prop where
  eval : ∀ e : Expr, Relabels f (e.eval fuel) ((e.relabel f).eval fuel)
  evalAll : ∀ es, Relabels f (Expr.evalAll fuel es) (Expr.evalAll fuel (Expr.relabelAll f es))
  call : ∀ line name (g : Function) args,
    Relabels f (g.call fuel line name args) ((g.relabel f).call fuel (f line) name args)
  run : ∀ s : Stmt, Relabels f (s.run fuel) ((s.relabel f).run fuel)
  runLoop : ∀ condition s, Relabels f (Stmt.runLoop fuel condition s)
    (Stmt.runLoop fuel (condition.relabel f) (s.relabel f))
  runBlock : ∀ ss, Relabels f (Stmt.runBlock fuel ss) (Stmt.runBlock fuel (Stmt.relabelAll f ss))
  runAll : ∀ ss, Relabels f (Stmt.runAll fuel ss) (Stmt.runAll fuel (Stmt.relabelAll f ss))

namespace Relabelling

variable {fuel : Nat}

theorem eval_succ (ih : Relabelling f fuel) (e : Expr) :
    Relabels f (e.eval (fuel + 1)) ((e.relabel f).eval (fuel + 1)) := by
  cases e with
  | literal => exact relabels_pure _
  | binary => exact (ih.eval _).bind fun _ => (ih.eval _).bind fun _ => relabels_lift _ _
  | logical => exact (ih.eval _).bind fun _ => (ih.eval _).bind fun _ => relabels_pure _
  | var => exact relabels_lookUp _ _
  | assign =>
    exact (ih.eval _).bind fun _ => (relabels_assign _ _ _).bind fun _ => relabels_pure _
  | call =>
    refine (ih.evalAll _).bind fun _ => .ite ?_ (.withFunction (fun g => ih.call _ _ g _) _ _)
    exact (relabels_write _ _).bind fun _ => relabels_pure _
  | prompt =>
    refine (relabels_write _ _).bind fun _ => (relabels_flush _).bind fun _ => ?_
    exact (relabels_readLine _).bind fun _ => relabels_pure _

theorem evalAll_succ (ih : Relabelling f fuel) (es : List Expr) :
    Relabels f (Expr.evalAll (fuel + 1) es) (Expr.evalAll (fuel + 1) (Expr.relabelAll f es)) := by
  cases es with
  | nil => exact relabels_pure _
  | cons => exact (ih.eval _).bind fun _ => (ih.evalAll _).bind fun _ => relabels_pure _

theorem call_succ (ih : Relabelling f fuel) (line : Nat) (name : String) (g : Function)
    (args : List Value) : Relabels f (g.call (fuel + 1) line name args)
      ((g.relabel f).call (fuel + 1) (f line) name args) := by
  refine .ite (relabels_fail _ _) (Relabels.bind (.inCall ?_ line) fun _ => relabels_pure _)
  exact (relabels_defineAll _).bind fun _ => ih.runBlock _

theorem run_succ (ih : Relabelling f fuel) (s : Stmt) :
    Relabels f (s.run (fuel + 1)) ((s.relabel f).run (fuel + 1)) := by
  cases s with
  | declare =>
    exact (ih.eval _).bind fun _ => (Relabels.step fun _ => rfl).bind fun _ => relabels_pure _
  | print => exact (ih.eval _).bind fun _ => (relabels_write _ _).bind fun _ => relabels_pure _
  | cond line condition yes no =>
    rw [Stmt.relabel_cond]
    refine (ih.eval _).bind fun _ => .ite (ih.run _) ?_
    cases no with
    | none => exact relabels_pure _
    | some no => exact ih.run no
  | loop => exact ih.runLoop _ _
  | function => exact (relabels_defineFunction _ _).bind fun _ => relabels_pure _
  | ret => exact .insideCall ((ih.eval _).bind fun _ => relabels_pure _) _
  | block => exact ih.runBlock _
  | expr => exact (ih.eval _).bind fun _ => relabels_pure _
  | comment => exact relabels_pure _

theorem runLoop_succ (ih : Relabelling f fuel) (condition : Expr) (s : Stmt) :
    Relabels f (Stmt.runLoop (fuel + 1) condition s)
      (Stmt.runLoop (fuel + 1) (condition.relabel f) (s.relabel f)) := by
  refine (ih.eval _).bind fun _ => .ite ((ih.run _).bind fun flow => ?_) (relabels_pure _)
  cases flow with
  | normal => exact ih.runLoop _ _
  | returned => exact relabels_pure _

theorem runAll_succ (ih : Relabelling f fuel) (ss : List Stmt) :
    Relabels f (Stmt.runAll (fuel + 1) ss) (Stmt.runAll (fuel + 1) (Stmt.relabelAll f ss)) := by
  cases ss with
  | nil => exact relabels_pure _
  | cons =>
    refine (ih.run _).bind fun flow => ?_
    cases flow with
    | normal => exact ih.runAll _
    | returned => exact relabels_pure _

end Relabelling

theorem relabelling (f : Nat → Nat) (fuel : Nat) : Relabelling f fuel := by
  induction fuel with
  | zero => constructor <;> intros <;> exact relabels_outOfFuel
  | succ fuel ih =>
    exact {
      eval := ih.eval_succ
      evalAll := ih.evalAll_succ
      call := ih.call_succ
      run := ih.run_succ
      runLoop := ih.runLoop_succ
      runBlock := fun _ => (ih.runAll _).inBlock
      runAll := ih.runAll_succ }

/-- Lines never influence what the statements of a program do. -/
theorem relabels_runProgram (f : Nat → Nat) (fuel : Nat) (ss : List Stmt) :
    Relabels f (Stmt.runProgram fuel ss) (Stmt.runProgram fuel (Stmt.relabelAll f ss)) := by
  induction ss with
  | nil => exact relabels_pure ()
  | cons s ss ih =>
    refine ((relabelling f fuel).run s).bind fun flow => ?_
    cases flow with
    | normal => exact ih
    | returned =>
      have fails := relabels_fail (f := f) (α := Unit) s.line .returnOutsideFunction
      rwa [← Stmt.relabel_line f s] at fails

end Betik
