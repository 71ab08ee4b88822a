/-
Properties of running anything at all, from properties of the single steps.

`Action.Closed P` says that `P` holds of every step the interpreter can make and is
kept by every way it has of putting actions together.  Such a `P` holds of running
expressions, statements, blocks, loops and calls, with any fuel: `Closed.everywhere`.
The induction is the one for properties of actions and their traces.
-/
import Betik.Proofs.Trace.Basic

namespace Betik
namespace Action

variable {P : (α : Type) → Action α → Prop}

/-- What the induction over programs asks of a property of actions.  Frames and
the count of calls are changed by the last three alone. -/
structure Closed (P : (α : Type) → Action α → Prop) : Prop where
  outOfFuel : ∀ {α : Type}, P α outOfFuel
  /-- A step that leaves the machine as it is, with a value or an error. -/
  say : ∀ {α : Type} (result : Except RuntimeError α), P α (step fun m => (result, m))
  lookUp : ∀ line name, P Value (lookUp line name)
  define : ∀ name value, P Unit (define name value)
  assign : ∀ line name value, P Unit (assign line name value)
  defineFunction : ∀ name f, P Unit (defineFunction name f)
  write : ∀ line text, P Unit (write line text)
  flush : ∀ line, P Unit (flush line)
  readLine : ∀ line, P String (readLine line)
  bind : ∀ {α β : Type} {a : Action α} {f : α → Action β},
    P α a → (∀ value, P β (f value)) → P β (a >>= f)
  withFunction : ∀ {α : Type} {use : Function → Action α} (line : Nat) (name : String),
    (∀ f, P α (use f)) → P α (withFunction line name use)
  inBlock : ∀ {α : Type} {a : Action α}, P α a → P α (inBlock a)
  inCall : ∀ {α : Type} {a : Action α} (line : Nat), P α a → P α (inCall line a)
  insideCall : ∀ {α : Type} {a : Action α} (line : Nat), P α a → P α (insideCall line a)

structure Everywhere (P : (α : Type) → Action α → Prop) (fuel : Nat) : Prop where
  eval : ∀ e : Expr, P Value (e.eval fuel)
  evalAll : ∀ es, P (List Value) (Expr.evalAll fuel es)
  call : ∀ line name f args, P Value (Function.call fuel line name f args)
  run : ∀ s : Stmt, P Flow (s.run fuel)
  runLoop : ∀ condition body, P Flow (Stmt.runLoop fuel condition body)
  runBlock : ∀ body, P Flow (Stmt.runBlock fuel body)
  runAll : ∀ body, P Flow (Stmt.runAll fuel body)

namespace Closed

theorem ite (c : Prop) [Decidable c] {α : Type} {a b : Action α} (ha : P α a) (hb : P α b) :
    P α (if c then a else b) := by
  split <;> assumption

theorem defineAll (h : Closed P) (bindings : List (String × Value)) :
    P Unit (defineAll bindings) := by
  induction bindings with
  | nil => exact h.say (.ok ())
  | cons b bs ih => exact h.bind (h.define b.1 b.2) fun _ => ih

/-- What is told of an action is nothing to a property of the action alone. -/
theorem partwise (h : Closed P) : Trace.Partwise fun α a _ => P α a where
  outOfFuel := h.outOfFuel
  say result _ := h.say result
  lookUp := h.lookUp
  define := h.define
  assign := h.assign
  defineFunction := h.defineFunction
  write := h.write
  flush := h.flush
  takeAnswer line := h.bind (h.readLine line) fun _ => h.say (.ok _)
  bind := h.bind
  statement _ ha := ha
  inBlock := h.inBlock
  insideCall := h.insideCall
  withFunction := h.withFunction
  call _ _ _ ha := ha
  inCall := h.inCall

theorem call (h : Closed P) (fuel line : Nat) (name : String) (f : Function)
    (args : List Value) : P Value (Function.call fuel line name f args) := by
  cases fuel with
  | zero => exact h.outOfFuel
  | succ fuel =>
    refine ite _ (h.say (.error _)) (h.bind (h.inCall _ ?_) fun _ => h.say (.ok _))
    exact h.bind (h.defineAll _) fun _ => (h.partwise.closed.everywhere fuel).runBlock _

theorem everywhere (h : Closed P) (fuel : Nat) : Everywhere P fuel := by
  have all := h.partwise.closed.everywhere fuel
  exact ⟨all.eval, all.evalAll, h.call fuel, all.run, all.runLoop, all.runBlock, all.runAll⟩

theorem runProgram (h : Closed P) (fuel : Nat) (ss : List Stmt) :
    P Unit (Stmt.runProgram fuel ss) :=
  h.partwise.closed.runProgram fuel ss

end Closed
end Action
end Betik
