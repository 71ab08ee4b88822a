/-
Fuel only ever decides whether an action ends.  An action that ended ends in the
same way with more of it, so "the program ends with this result" can be said
without a number; and more of it does not take the action another way, so neither
does "the program comes through this machine" need one.
-/
import Betik.Machine.Run

namespace Betik
namespace Action

variable {α β : Type}

/-- The second action ends wherever the first does, and then in the same way. -/
def Below (a b : Action α) : Prop :=
  ∀ m r, a.run m = some r → b.run m = some r

theorem Below.refl (a : Action α) : Below a a := fun _ _ h => h

theorem Below.trans {a b c : Action α} (h : Below a b) (k : Below b c) : Below a c :=
  fun m r hr => k m r (h m r hr)

theorem Below.bind {a b : Action α} {f g : α → Action β} (h : Below a b)
    (k : ∀ x, Below (f x) (g x)) : Below (a >>= f) (b >>= g) := by
  rintro m ⟨r, m'⟩ ended
  obtain ⟨e, failed, rfl⟩ | ⟨value, m₁, done, ended⟩ := bind_ended ended
  · exact bind_of_error (h m _ failed)
  · exact (bind_of_ok (h m _ done)).trans (k value m₁ _ ended)

theorem Below.within {a b : Action α} (h : Below a b) (enter leave : Machine → Machine) :
    Below (within enter leave a) (within enter leave b) := by
  rintro m ⟨r, m'⟩ ended
  obtain ⟨m₁, inside, rfl⟩ := within_ended ended
  exact within_of_some (h _ _ inside)

theorem Below.thenFlush {a b : Action α} (h : Below a b) (line : Nat) :
    Below (thenFlush line a) (thenFlush line b) := by
  rintro m ⟨r, m'⟩ ended
  obtain ⟨r₁, m₁, first, rfl, rfl⟩ := thenFlush_ended ended
  exact thenFlush_of_some (h m _ first)

/-- The second action goes the way of the first, and further if that had not ended. -/
structure Extended (a b : Action α) : Prop where
  below : Below a b
  passes : ∀ m s, a.passes m s → b.passes m s

theorem Extended.refl (a : Action α) : Extended a a := ⟨.refl a, fun _ _ h => h⟩

theorem Extended.trans {a b c : Action α} (h : Extended a b) (k : Extended b c) :
    Extended a c :=
  ⟨h.below.trans k.below, fun m s hs => k.passes m s (h.passes m s hs)⟩

theorem outOfFuel_extended (a : Action α) : Extended outOfFuel a where
  below _ _ h := by cases h
  passes m s h := by
    cases h
    exact a.passes_start m

theorem Extended.bind {a b : Action α} {f g : α → Action β} (h : Extended a b)
    (k : ∀ x, Extended (f x) (g x)) : Extended (a >>= f) (b >>= g) where
  below := h.below.bind fun x => (k x).below
  passes m s := by
    rintro (first | ⟨value, m₁, done, second⟩)
    · exact .inl (h.passes m s first)
    · exact .inr ⟨value, m₁, h.below m _ done, (k value).passes m₁ s second⟩

theorem Extended.within {a b : Action α} (h : Extended a b) (enter leave : Machine → Machine) :
    Extended (within enter leave a) (within enter leave b) where
  below := h.below.within enter leave
  passes m s := by
    rintro (start | inside | ⟨r, m₁, done, left⟩)
    · exact .inl start
    · exact .inr (.inl (h.passes _ s inside))
    · exact .inr (.inr ⟨r, m₁, h.below _ _ done, left⟩)

theorem Extended.ite {c : Prop} [Decidable c] {a b a' b' : Action α} (h : Extended a b)
    (h' : Extended a' b') : Extended (if c then a else a') (if c then b else b') := by
  split <;> assumption

theorem Extended.withFunction {f g : Function → Action α} (h : ∀ x, Extended (f x) (g x))
    (line : Nat) (name : String) :
    Extended (withFunction line name f) (withFunction line name g) := by
  refine (Extended.refl _).bind fun found => ?_
  cases found with
  | none => exact .refl _
  | some f => exact h f

theorem Extended.inBlock {a b : Action α} (h : Extended a b) :
    Extended (inBlock a) (inBlock b) :=
  h.within _ _

theorem Extended.inCall {a b : Action α} (h : Extended a b) (line : Nat) :
    Extended (inCall line a) (inCall line b) :=
  (Extended.refl _).bind fun _ => .ite (.refl _) (h.within _ _)

theorem Extended.insideCall {a b : Action α} (h : Extended a b) (line : Nat) :
    Extended (insideCall line a) (insideCall line b) :=
  (Extended.refl _).bind fun _ => .ite (.refl _) h

end Action

open Betik.Action

/-- One more unit of fuel, for all the functions that call each other. -/
theorem fuel_step (n : Nat) :
    (∀ e, Extended (Expr.eval n e) (Expr.eval (n + 1) e)) ∧
    (∀ es, Extended (Expr.evalAll n es) (Expr.evalAll (n + 1) es)) ∧
    (∀ line name f args,
      Extended (Function.call n line name f args) (Function.call (n + 1) line name f args)) ∧
    (∀ s, Extended (Stmt.run n s) (Stmt.run (n + 1) s)) ∧
    (∀ c b, Extended (Stmt.runLoop n c b) (Stmt.runLoop (n + 1) c b)) ∧
    (∀ ss, Extended (Stmt.runBlock n ss) (Stmt.runBlock (n + 1) ss)) ∧
    (∀ ss, Extended (Stmt.runAll n ss) (Stmt.runAll (n + 1) ss)) := by
  induction n with
  | zero =>
    refine ⟨?_, ?_, ?_, ?_, ?_, ?_, ?_⟩ <;> intros <;> exact outOfFuel_extended _
  | succ n ih =>
    obtain ⟨eval, evalAll, call, run, runLoop, runBlock, runAll⟩ := ih
    refine ⟨fun e => ?_, fun es => ?_, fun line name f args => ?_, fun s => ?_,
      fun c b => ?_, fun ss => ?_, fun ss => ?_⟩
    · cases e <;> simp only [Expr.eval]
      · exact .refl _
      · exact (eval _).bind fun _ => (eval _).bind fun _ => .refl _
      · exact (eval _).bind fun _ => (eval _).bind fun _ => .refl _
      · exact .refl _
      · exact (eval _).bind fun _ => .refl _
      · exact (evalAll _).bind fun _ => .ite (.refl _) (.withFunction (fun _ => call _ _ _ _) _ _)
      · exact .refl _
    · cases es <;> simp only [Expr.evalAll]
      · exact .refl _
      · exact (eval _).bind fun _ => (evalAll _).bind fun _ => .refl _
    · simp only [Function.call]
      refine .ite (.refl _) (Extended.bind ?_ fun _ => .refl _)
      exact ((Extended.refl _).bind fun _ => runBlock _).inCall _
    · cases s <;> simp only [Stmt.run]
      · exact (eval _).bind fun _ => .refl _
      · exact (eval _).bind fun _ => .refl _
      · refine (eval _).bind fun _ => .ite (run _) ?_
        split
        · exact run _
        · exact .refl _
      · exact runLoop _ _
      · exact .refl _
      · exact ((eval _).bind fun _ => .refl _).insideCall _
      · exact runBlock _
      · exact (eval _).bind fun _ => .refl _
      · exact .refl _
    · simp only [Stmt.runLoop]
      refine (eval _).bind fun _ => .ite ((run _).bind fun flow => ?_) (.refl _)
      cases flow
      · exact runLoop _ _
      · exact .refl _
    · simp only [Stmt.runBlock]
      exact (runAll _).inBlock
    · cases ss <;> simp only [Stmt.runAll]
      · exact .refl _
      · refine (run _).bind fun flow => ?_
        cases flow
        · exact runAll _
        · exact .refl _

theorem Expr.eval_extended {n k : Nat} (h : n ≤ k) (e : Expr) :
    Extended (e.eval n) (e.eval k) := by
  induction h with
  | refl => exact .refl _
  | step _ ih => exact ih.trans ((fuel_step _).1 e)

theorem Stmt.run_extended {n k : Nat} (h : n ≤ k) (s : Stmt) :
    Extended (s.run n) (s.run k) := by
  induction h with
  | refl => exact .refl _
  | step _ ih => exact ih.trans ((fuel_step _).2.2.2.1 s)

theorem Expr.eval_below {n k : Nat} (h : n ≤ k) (e : Expr) : Below (e.eval n) (e.eval k) :=
  (e.eval_extended h).below

theorem Stmt.run_below {n k : Nat} (h : n ≤ k) (s : Stmt) : Below (s.run n) (s.run k) :=
  (s.run_extended h).below

theorem Stmt.runAll_below {n k : Nat} (h : n ≤ k) (ss : List Stmt) :
    Below (Stmt.runAll n ss) (Stmt.runAll k ss) := by
  induction h with
  | refl => exact .refl _
  | step _ ih => exact ih.trans ((fuel_step _).2.2.2.2.2.2 ss).below

theorem Stmt.runProgram_extended {n k : Nat} (h : n ≤ k) (ss : List Stmt) :
    Extended (Stmt.runProgram n ss) (Stmt.runProgram k ss) := by
  induction ss with
  | nil => exact .refl _
  | cons s ss ih =>
    refine (Stmt.run_extended h s).bind fun flow => ?_
    cases flow
    · exact ih
    · exact .refl _

theorem Stmt.runProgram_below {n k : Nat} (h : n ≤ k) (ss : List Stmt) :
    Below (Stmt.runProgram n ss) (Stmt.runProgram k ss) :=
  (Stmt.runProgram_extended h ss).below

theorem Program.run_below {n k : Nat} (h : n ≤ k) (p : Program) : Below (p.run n) (p.run k) :=
  (Stmt.runProgram_below h p.statements).thenFlush 0

end Betik
