/-
Comments and what programs do.

Functions keep their bodies with the comments in them, so a program and the same one
without comments leave different machines.  Two machines are taken to be the same here
if they are equal without comments.  A sequence with more comments needs more fuel,
which is why an action is compared with a family of actions that have more and more of
it.
-/
import Betik.Machine.Fuel
import Betik.Proofs.Comments.Tree

namespace Betik

def Function.withoutComments (f : Function) : Function :=
  ⟨f.params, Stmt.dropComments f.body⟩

def Machine.withoutComments (m : Machine) : Machine :=
  { m with functions := m.functions.map Function.withoutComments }

namespace Action

variable {α β : Type}

/-- However the action ends on a machine, the actions of the family end in the same way
on one that is the same without comments, as soon as they have enough fuel. -/
def Simulated (a : Action α) (b : Nat → Action α) : Prop :=
  ∀ m n r m', m.withoutComments = n.withoutComments → a.run m = some (r, m') →
    ∃ n', m'.withoutComments = n'.withoutComments ∧
      ∃ enough, ∀ fuel, enough ≤ fuel → (b fuel).run n = some (r, n')

theorem Simulated.outOfFuel (b : Nat → Action α) : Simulated outOfFuel b :=
  fun _ _ _ _ _ h => by cases h

theorem Simulated.succ {a : Action α} {b : Nat → Action α}
    (h : Simulated a fun fuel => b (fuel + 1)) : Simulated a b := by
  intro m n r m' same ran
  obtain ⟨n', same', enough, all⟩ := h m n r m' same ran
  refine ⟨n', same', enough + 1, fun fuel le => ?_⟩
  obtain ⟨k, rfl⟩ : ∃ k, fuel = k + 1 := ⟨fuel - 1, by omega⟩
  exact all k (by omega)

theorem Simulated.of_below {a a' : Action α} {b : Nat → Action α} (h : Simulated a b)
    (below : Below a' a) : Simulated a' b :=
  fun m n r m' same ran => h m n r m' same (below m _ ran)

theorem Simulated.later {a : Action α} {b b' : Nat → Action α} (h : Simulated a b)
    (below : ∀ fuel, ∃ k, fuel ≤ k ∧ Below (b k) (b' (fuel + 2))) : Simulated a b' := by
  refine .succ (.succ fun m n r m' same ran => ?_)
  obtain ⟨n', same', enough, all⟩ := h m n r m' same ran
  refine ⟨n', same', enough, fun fuel le => ?_⟩
  obtain ⟨k, more, below⟩ := below fuel
  exact below n _ (all k (Nat.le_trans le more))

/-- A single step that does not look into functions. -/
theorem Simulated.step {f : Machine → Except RuntimeError α × Machine}
    (h : ∀ m : Machine, f m.withoutComments = ((f m).1, (f m).2.withoutComments)) :
    Simulated (step f) fun _ => step f := by
  intro m n r m' same ran
  have steps := (h m).symm.trans ((congrArg f same).trans (h n))
  injection steps with result left
  injection ran with ran
  rw [ran] at result left
  exact ⟨(f n).2, left, 0, fun _ _ => congrArg some (Prod.ext result.symm rfl)⟩

theorem Simulated.bind {a : Action α} {b : Nat → Action α} {f : α → Action β}
    {g : α → Nat → Action β} (h : Simulated a b) (k : ∀ value, Simulated (f value) (g value)) :
    Simulated (a >>= f) fun fuel => b fuel >>= fun value => g value fuel := by
  intro m n r m' same ran
  obtain ⟨e, failed, rfl⟩ | ⟨value, m₁, done, ran⟩ := bind_ended ran
  · obtain ⟨n₁, same₁, enough, all⟩ := h m n _ m' same failed
    exact ⟨n₁, same₁, enough, fun fuel le => bind_of_error (all fuel le)⟩
  · obtain ⟨n₁, same₁, enough₁, all₁⟩ := h m n _ m₁ same done
    obtain ⟨n₂, same₂, enough₂, all₂⟩ := k value m₁ n₁ r m' same₁ ran
    refine ⟨n₂, same₂, max enough₁ enough₂, fun fuel le => ?_⟩
    rw [bind_of_ok (all₁ fuel (by omega))]
    exact all₂ fuel (by omega)

theorem Simulated.ite {c : Prop} [Decidable c] {a a' : Action α} {b b' : Nat → Action α}
    (h : Simulated a b) (h' : Simulated a' b') :
    Simulated (if c then a else a') fun fuel => if c then b fuel else b' fuel := by
  split <;> assumption

theorem Simulated.within {a : Action α} {b : Nat → Action α} (h : Simulated a b)
    {enter leave : Machine → Machine}
    (entered : ∀ m : Machine, (enter m).withoutComments = enter m.withoutComments)
    (left : ∀ m : Machine, (leave m).withoutComments = leave m.withoutComments) :
    Simulated (within enter leave a) fun fuel => within enter leave (b fuel) := by
  intro m n r m' same ran
  obtain ⟨m₁, ran₁, rfl⟩ := within_ended ran
  have same₀ : (enter m).withoutComments = (enter n).withoutComments := by
    rw [entered, entered, same]
  obtain ⟨n₁, same₁, enough, all⟩ := h _ _ r m₁ same₀ ran₁
  exact ⟨leave n₁, by rw [left, left, same₁], enough, fun fuel le => within_of_some (all fuel le)⟩

theorem Simulated.thenFlush {a : Action α} {b : Nat → Action α} (h : Simulated a b) (line : Nat) :
    Simulated (thenFlush line a) fun fuel => thenFlush line (b fuel) := by
  intro m n r m' same ran
  obtain ⟨r₁, m₁, first, rfl, rfl⟩ := thenFlush_ended ran
  obtain ⟨n₁, same₁, enough, all⟩ := h m n r₁ m₁ same first
  have sinks : m₁.sink = n₁.sink := (congrArg Machine.sink same₁ :)
  refine ⟨n₁.flushed, (congrArg Machine.flushed same₁ :), enough, fun fuel le => ?_⟩
  rw [sinks]
  exact thenFlush_of_some (all fuel le)

theorem Simulated.inBlock {a : Action α} {b : Nat → Action α} (h : Simulated a b) :
    Simulated (inBlock a) fun fuel => inBlock (b fuel) :=
  h.within (fun _ => rfl) fun _ => rfl

theorem Simulated.inCall {a : Action α} {b : Nat → Action α} (h : Simulated a b) (line : Nat) :
    Simulated (inCall line a) fun fuel => inCall line (b fuel) :=
  (Simulated.step fun _ => rfl).bind fun _ =>
    .ite (.step fun _ => rfl) (h.within (fun _ => rfl) fun _ => rfl)

theorem Simulated.insideCall {a : Action α} {b : Nat → Action α} (h : Simulated a b)
    (line : Nat) : Simulated (insideCall line a) fun fuel => insideCall line (b fuel) :=
  (Simulated.step fun _ => rfl).bind fun _ => .ite (.step fun _ => rfl) h

theorem Simulated.withFunction {use : Function → Action α} {use' : Function → Nat → Action α}
    (h : ∀ f g : Function, f.withoutComments = g.withoutComments → Simulated (use f) (use' g))
    (line : Nat) (name : String) :
    Simulated (withFunction line name use) fun fuel => withFunction line name (use' · fuel) := by
  intro m n r m' same ran
  have tables := congrArg (·.functions.get? name) same
  simp only [Machine.withoutComments, Table.get?_map] at tables
  simp only [withFunction_run] at ran ⊢
  cases hm : m.functions.get? name with
  | none =>
    rw [hm] at tables ran
    rw [Option.map_eq_none_iff.1 tables.symm]
    exact Simulated.step (fun _ => rfl) m n r m' same ran
  | some f =>
    rw [hm] at tables ran
    obtain ⟨g, found, bodies⟩ := Option.map_eq_some_iff.1 tables.symm
    rw [found]
    exact h f g bodies.symm m n r m' same ran

theorem Simulated.defineFunction {f g : Function} (h : f.withoutComments = g.withoutComments)
    (name : String) : Simulated (defineFunction name f) fun _ => defineFunction name g := by
  intro m n r m' same ran
  cases ran
  refine ⟨{ n with functions := n.functions.put name g }, ?_, 0, fun _ _ => rfl⟩
  simp only [Machine.withoutComments, Machine.mk.injEq, Table.put_map] at same ⊢
  obtain ⟨environment, functions, others⟩ := same
  exact ⟨environment, by rw [functions, h], others⟩

theorem simulated_pure (value : α) : Simulated (pure value) fun _ => pure value :=
  .step fun _ => rfl

theorem simulated_lookUp (line : Nat) (name : String) :
    Simulated (lookUp line name) fun _ => lookUp line name := by
  refine .step fun m => ?_
  simp only [Machine.withoutComments]
  split <;> rfl

theorem simulated_assign (line : Nat) (name : String) (value : Value) :
    Simulated (assign line name value) fun _ => assign line name value := by
  refine .step fun m => ?_
  simp only [Machine.withoutComments]
  split <;> rfl

theorem simulated_readLine (line : Nat) : Simulated (readLine line) fun _ => readLine line := by
  refine .step fun m => ?_
  simp only [Machine.withoutComments]
  split <;> rfl

theorem simulated_defineAll (bindings : List (String × Value)) :
    Simulated (defineAll bindings) fun _ => defineAll bindings := by
  induction bindings with
  | nil => exact simulated_pure ()
  | cons binding bindings ih => exact (Simulated.step fun _ => rfl).bind fun _ => ih

end Action

open Betik.Action

/-! A comment in front of a sequence takes nothing but fuel. -/

section

variable {s : Stmt} (comment : s.isComment) (fuel : Nat) (ss : List Stmt)

include comment

theorem runAll_comment_below : Below (Stmt.runAll (fuel + 1) (s :: ss)) (Stmt.runAll fuel ss) := by
  cases s with
  | comment =>
    cases fuel with
    | zero => exact fun _ _ h => by cases h
    | succ => exact fun _ _ h => h
  | _ => cases comment

theorem below_runAll_comment :
    Below (Stmt.runAll (fuel + 1) ss) (Stmt.runAll (fuel + 2) (s :: ss)) := by
  cases s with
  | comment => exact fun _ _ h => h
  | _ => cases comment

theorem runProgram_comment_below :
    Below (Stmt.runProgram fuel (s :: ss)) (Stmt.runProgram fuel ss) := by
  cases s with
  | comment =>
    cases fuel with
    | zero => exact fun _ _ h => by cases h
    | succ => exact fun _ _ h => h
  | _ => cases comment

theorem below_runProgram_comment :
    Below (Stmt.runProgram (fuel + 1) ss) (Stmt.runProgram (fuel + 1) (s :: ss)) := by
  cases s with
  | comment => exact fun _ _ h => h
  | _ => cases comment

end

structure Simulation (fuel : Nat) : Prop where
  eval : ∀ e : Expr, Simulated (e.eval fuel) fun fuel => e.eval fuel
  evalAll : ∀ es, Simulated (Expr.evalAll fuel es) fun fuel => Expr.evalAll fuel es
  call : ∀ line name (f g : Function) args, f.withoutComments = g.withoutComments →
    Simulated (f.call fuel line name args) fun fuel => g.call fuel line name args
  run : ∀ s t : Stmt, s.withoutComments = t.withoutComments →
    Simulated (s.run fuel) fun fuel => t.run fuel
  runLoop : ∀ condition (s t : Stmt), s.withoutComments = t.withoutComments →
    Simulated (Stmt.runLoop fuel condition s) fun fuel => Stmt.runLoop fuel condition t
  runBlock : ∀ ss ts, Stmt.dropComments ss = Stmt.dropComments ts →
    Simulated (Stmt.runBlock fuel ss) fun fuel => Stmt.runBlock fuel ts
  runAll : ∀ ss ts, Stmt.dropComments ss = Stmt.dropComments ts →
    Simulated (Stmt.runAll fuel ss) fun fuel => Stmt.runAll fuel ts

namespace Simulation

variable {fuel : Nat}

theorem eval_succ (ih : Simulation fuel) (e : Expr) :
    Simulated (e.eval (fuel + 1)) fun fuel => e.eval fuel := by
  refine .succ ?_
  cases e with
  | literal => exact simulated_pure _
  | binary => exact (ih.eval _).bind fun _ => (ih.eval _).bind fun _ => .step fun _ => rfl
  | logical => exact (ih.eval _).bind fun _ => (ih.eval _).bind fun _ => simulated_pure _
  | var => exact simulated_lookUp _ _
  | assign =>
    exact (ih.eval _).bind fun _ => (simulated_assign _ _ _).bind fun _ => simulated_pure _
  | call =>
    refine (ih.evalAll _).bind fun _ => .ite ?_ (.withFunction (fun f g => ih.call _ _ f g _) _ _)
    exact (Simulated.step fun _ => rfl).bind fun _ => simulated_pure _
  | prompt =>
    refine (Simulated.step fun _ => rfl).bind fun _ => ?_
    refine (Simulated.step fun _ => rfl).bind fun _ => ?_
    exact (simulated_readLine _).bind fun _ => simulated_pure _

theorem evalAll_succ (ih : Simulation fuel) (es : List Expr) :
    Simulated (Expr.evalAll (fuel + 1) es) fun fuel => Expr.evalAll fuel es := by
  refine .succ ?_
  cases es with
  | nil => exact simulated_pure _
  | cons => exact (ih.eval _).bind fun _ => (ih.evalAll _).bind fun _ => simulated_pure _

theorem call_succ (ih : Simulation fuel) (line : Nat) (name : String) (f g : Function)
    (args : List Value) (same : f.withoutComments = g.withoutComments) :
    Simulated (f.call (fuel + 1) line name args) fun fuel => g.call fuel line name args := by
  obtain ⟨params, body⟩ := f
  obtain ⟨params', body'⟩ := g
  injection same with params bodies
  subst params
  refine .succ (.ite (.step fun _ => rfl) ?_)
  refine Simulated.bind (.inCall ?_ line) fun _ => simulated_pure _
  exact (simulated_defineAll _).bind fun _ => ih.runBlock _ _ bodies

theorem run_succ (ih : Simulation fuel) (s t : Stmt)
    (same : s.withoutComments = t.withoutComments) :
    Simulated (s.run (fuel + 1)) fun fuel => t.run fuel := by
  refine .succ ?_
  cases s with
  | cond line condition yes no =>
    rw [Stmt.withoutComments_cond] at same
    obtain ⟨yes', no', rfl, yesSame, noSame⟩ := Stmt.cond_of_withoutComments same.symm
    refine (ih.eval _).bind fun _ => .ite (ih.run _ _ yesSame.symm) ?_
    cases no with
    | none =>
      cases Option.map_eq_none_iff.1 noSame
      exact simulated_pure _
    | some no =>
      obtain ⟨no', rfl, noSame'⟩ := Option.map_eq_some_iff.1 noSame
      exact ih.run _ _ noSame'.symm
  | loop line condition body =>
    obtain ⟨body', rfl, bodySame⟩ := Stmt.loop_of_withoutComments same.symm
    exact ih.runLoop _ _ _ bodySame.symm
  | function line name params body =>
    obtain ⟨body', rfl, bodySame⟩ := Stmt.function_of_withoutComments same.symm
    refine (Simulated.defineFunction ?_ name).bind fun _ => simulated_pure _
    simp only [Function.withoutComments, bodySame]
  | block line body =>
    obtain ⟨body', rfl, bodySame⟩ := Stmt.block_of_withoutComments same.symm
    exact ih.runBlock _ _ bodySame.symm
  | declare | print =>
    cases Stmt.simple_of_withoutComments same.symm rfl
    exact (ih.eval _).bind fun _ => (Simulated.step fun _ => rfl).bind fun _ => simulated_pure _
  | ret =>
    cases Stmt.simple_of_withoutComments same.symm rfl
    exact .insideCall ((ih.eval _).bind fun _ => simulated_pure _) _
  | expr =>
    cases Stmt.simple_of_withoutComments same.symm rfl
    exact (ih.eval _).bind fun _ => simulated_pure _
  | comment =>
    cases Stmt.simple_of_withoutComments same.symm rfl
    exact simulated_pure _

theorem runLoop_succ (ih : Simulation fuel) (condition : Expr) (s t : Stmt)
    (same : s.withoutComments = t.withoutComments) :
    Simulated (Stmt.runLoop (fuel + 1) condition s) fun fuel => Stmt.runLoop fuel condition t := by
  refine .succ ((ih.eval _).bind fun _ => .ite ?_ (simulated_pure _))
  refine (ih.run _ _ same).bind fun flow => ?_
  cases flow with
  | normal => exact ih.runLoop _ _ _ same
  | returned => exact simulated_pure _

theorem runBlock_succ (ih : Simulation fuel) (ss ts : List Stmt)
    (same : Stmt.dropComments ss = Stmt.dropComments ts) :
    Simulated (Stmt.runBlock (fuel + 1) ss) fun fuel => Stmt.runBlock fuel ts :=
  .succ (ih.runAll _ _ same).inBlock

theorem runAll_succ (ih : Simulation fuel) (ss ts : List Stmt)
    (same : Stmt.dropComments ss = Stmt.dropComments ts) :
    Simulated (Stmt.runAll (fuel + 1) ss) fun fuel => Stmt.runAll fuel ts := by
  refine Stmt.dropComments_induction ?_ ?_ ?_ ?_ ss ts same
  · exact .succ (simulated_pure _)
  · exact fun comment same _ => (ih.runAll _ _ same).of_below (runAll_comment_below comment _ _)
  · exact fun comment h => h.later fun k => ⟨k + 1, k.le_succ, below_runAll_comment comment _ _⟩
  · refine fun first others _ => .succ ((ih.run _ _ first).bind fun flow => ?_)
    cases flow with
    | normal => exact ih.runAll _ _ others
    | returned => exact simulated_pure _

end Simulation

theorem simulation (fuel : Nat) : Simulation fuel := by
  induction fuel with
  | zero =>
    exact {
      eval := fun _ => .outOfFuel _
      evalAll := fun _ => .outOfFuel _
      call := fun _ _ _ _ _ _ => .outOfFuel _
      run := fun _ _ _ => .outOfFuel _
      runLoop := fun _ _ _ _ => .outOfFuel _
      runBlock := fun _ _ _ => .outOfFuel _
      runAll := fun _ _ _ => .outOfFuel _ }
  | succ fuel ih =>
    exact {
      eval := ih.eval_succ
      evalAll := ih.evalAll_succ
      call := ih.call_succ
      run := ih.run_succ
      runLoop := ih.runLoop_succ
      runBlock := ih.runBlock_succ
      runAll := ih.runAll_succ }

/-- The statements of a program, one after the other. -/
theorem simulated_runProgram (fuel : Nat) (ss ts : List Stmt)
    (same : Stmt.dropComments ss = Stmt.dropComments ts) :
    Simulated (Stmt.runProgram fuel ss) fun fuel => Stmt.runProgram fuel ts := by
  refine Stmt.dropComments_induction ?_ ?_ ?_ ?_ ss ts same
  · exact simulated_pure ()
  · exact fun comment _ h => h.of_below (runProgram_comment_below comment _ _)
  · exact fun comment h => h.later fun k =>
      ⟨k + 2, Nat.le_add_right k 2, below_runProgram_comment comment _ _⟩
  · intro s t ss ts first _ h
    refine ((simulation fuel).run s t first).bind fun flow => ?_
    have line : s.line = t.line := by
      rw [← s.withoutComments_line, first, t.withoutComments_line]
    cases flow with
    | normal => exact h
    | returned =>
      rw [line]
      exact .step fun _ => rfl

/-- From the same machine the programs end in the same way if they end at all, and
leave the same machine.  Comments in the bodies of functions are not compared. -/
def Program.SameAs (p q : Program) : Prop :=
  ∀ m r n, (∃ fuel m', p.run fuel m = some (r, m') ∧ m'.withoutComments = n) ↔
    ∃ fuel m', q.run fuel m = some (r, m') ∧ m'.withoutComments = n

theorem Program.sameAs_withoutComments (p : Program) : p.SameAs p.withoutComments := by
  have simulated (fuel : Nat) (p q : Program) (same : p.withoutComments = q.withoutComments) :
      Simulated (p.run fuel) fun fuel => q.run fuel := by
    injection same with same
    exact (simulated_runProgram fuel _ _ same).thenFlush 0
  have idempotent : p.withoutComments.withoutComments = p.withoutComments := by
    simp only [Program.withoutComments, Stmt.dropComments_dropComments]
  intro m r n
  constructor
  · rintro ⟨fuel, m', ran, rfl⟩
    have sim := simulated fuel p p.withoutComments idempotent.symm
    obtain ⟨n', same, enough, all⟩ := sim m m r m' rfl ran
    exact ⟨enough, n', all enough (Nat.le_refl _), same.symm⟩
  · rintro ⟨fuel, m', ran, rfl⟩
    have sim := simulated fuel p.withoutComments p idempotent
    obtain ⟨n', same, enough, all⟩ := sim m m r m' rfl ran
    exact ⟨enough, n', all enough (Nat.le_refl _), same.symm⟩

end Betik
