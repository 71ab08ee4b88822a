/-
Returns and the calls that catch them.

A return is stray if no call is active where it stands.  The check for it comes before
anything of the return is evaluated, so a stray return ends the run and never becomes a
flow, while in a call no return is stray, and the call takes it as its value.  `Guarded`
says this of an action, and also where the error of a stray return comes from: from a
return that the run comes to through blocks, branches and loops alone, which is
`ComesToReturn`.
-/
import Betik.Proofs.Machine.Isolation
import Betik.Proofs.Trace.CallLimit

namespace Betik
namespace Action

variable {α β : Type} {a : Action α} {f : α → Action β} {m m' : Machine}

def NoStray (a : Action α) (m : Machine) : Prop :=
  ∀ line, ¬a.Raises m ⟨.returnOutsideFunction, line⟩

theorem noStray_step {g : Machine → Except RuntimeError α × Machine}
    (other : ∀ line, (g m).1 ≠ .error ⟨.returnOutsideFunction, line⟩) : (step g).NoStray m := by
  rintro line ⟨m', ran⟩
  injection ran with ran
  exact other line (congrArg Prod.fst ran)

theorem noStray_ok (value : Machine → α) (left : Machine → Machine) (m : Machine) :
    (step fun m => (.ok (value m), left m)).NoStray m :=
  noStray_step fun _ same => by cases same

theorem noStray_done (value : α) (m : Machine) : (done value).NoStray m :=
  noStray_ok (fun _ => value) id m

theorem noStray_fail {cause : RuntimeError.Cause} (other : cause ≠ .returnOutsideFunction)
    (line : Nat) (m : Machine) : (fail line cause : Action α).NoStray m :=
  noStray_step fun _ same => by
    cases same
    exact other rfl

theorem noStray_lift {result : Except RuntimeError.Cause α}
    (other : result ≠ .error .returnOutsideFunction) (line : Nat) (m : Machine) :
    (lift line result).NoStray m :=
  noStray_step fun _ same => by
    cases result with
    | error cause =>
      cases same
      exact other rfl
    | ok value => cases same

theorem noStray_blame (line : Nat) (result : Machine → Except Failure α)
    (left : Machine → Machine) (m : Machine) :
    (step fun m => (blame line (result m), left m)).NoStray m :=
  noStray_step fun _ same => by
    cases outcome : result m <;> rw [outcome] at same <;> cases same

theorem noStray_lookUp (line : Nat) (name : String) (m : Machine) :
    (lookUp line name).NoStray m :=
  noStray_step fun _ same => by
    cases found : m.environment.get? name <;> rw [found] at same <;> cases same

theorem noStray_assign (line : Nat) (name : String) (value : Value) (m : Machine) :
    (assign line name value).NoStray m :=
  noStray_step fun _ same => by
    cases assigned : m.environment.assign? name value <;> rw [assigned] at same <;> cases same

theorem noStray_readLine (line : Nat) (m : Machine) : (readLine line).NoStray m :=
  noStray_step fun _ same => by
    simp only at same
    split at same <;> cases same

theorem NoStray.bind (first : a.NoStray m)
    (second : ∀ value m₁, a m = some (.ok value, m₁) → (f value).NoStray m₁) :
    (a >>= f).NoStray m := by
  intro line raised
  obtain raised | ⟨value, m₁, done, raised⟩ := raises_bind.1 raised
  · exact first line raised
  · exact second value m₁ done line raised

/-- What is asked of the machine is what the machine says. -/
theorem NoStray.ask {g : Machine → β} {f : β → Action α} (h : (f (g m)).NoStray m) :
    (ask g >>= f).NoStray m :=
  (noStray_done _ m).bind fun value m₁ asked => by
    cases asked
    exact h

theorem NoStray.withFunction {use : Function → Action α} (h : ∀ f, (use f).NoStray m)
    (line : Nat) (name : String) : (withFunction line name use).NoStray m := by
  refine .ask ?_
  cases m.functions.get? name with
  | none => exact noStray_fail (by simp) line m
  | some f => exact h f

theorem noStray_defineAll (bindings : List (String × Value)) (m : Machine) :
    (defineAll bindings).NoStray m := by
  induction bindings generalizing m with
  | nil => exact noStray_done _ m
  | cons b bs ih => exact NoStray.bind (noStray_ok _ _ m) fun _ m₁ _ => ih m₁

/-- A sequence of two has failed: the first statement did, or the rest did after it. -/
theorem next_failed_iff {a : Action Flow} {f : Flow → Action Flow} {m m' : Machine}
    {e : RuntimeError} (passed : ∀ value, f (.returned value) = pure (.returned value)) :
    (a >>= f) m = some (.error e, m') ↔
      a m = some (.error e, m') ∨
        ∃ m₁, a m = some (.ok .normal, m₁) ∧ f .normal m₁ = some (.error e, m') := by
  constructor
  · intro ran
    obtain ⟨_, failed, same⟩ | ⟨flow, m₁, done, ran⟩ := bind_ended ran
    · cases same
      exact .inl failed
    · cases flow with
      | normal => exact .inr ⟨m₁, done, ran⟩
      | returned value =>
        rw [passed] at ran
        cases ran
  · rintro (failed | ⟨m₁, done, ran⟩)
    · exact bind_of_error failed
    · exact (bind_of_ok done).trans ran

end Action

open Betik.Action

theorem Operator.apply_ne_stray (op : Operator) (lhs rhs : Value) :
    op.apply lhs rhs ≠ .error .returnOutsideFunction := by
  intro stray
  obtain about | about := apply_error stray <;> cases about

/-! ## Where a return is stray -/

namespace Stmt

/-- The statements, run in turn from the first machine on, come to a return on the line
without a call around it, through blocks, branches and loops only.  The second machine is
the one it finds, on which its value would be looked at. -/
inductive ComesToReturn (line : Nat) : List Stmt → Machine → Machine → Prop
  | here (value : Expr) (ss : List Stmt) (m : Machine) :
    ComesToReturn line (.ret line value :: ss) m m
  | later {s : Stmt} {ss : List Stmt} {m m₁ m' : Machine} (fuel : Nat)
    (ran : s.run fuel m = some (.ok .normal, m₁)) (comes : ComesToReturn line ss m₁ m') :
    ComesToReturn line (s :: ss) m m'
  | block {body : List Stmt} {m m' : Machine} (blockLine : Nat) (ss : List Stmt)
    (comes : ComesToReturn line body m.enterBlock m') :
    ComesToReturn line (.block blockLine body :: ss) m m'
  | branch {condition : Expr} {c : Value} {yes s : Stmt} {no : Option Stmt} {m m₁ m' : Machine}
    (condLine : Nat) (ss : List Stmt) (fuel : Nat)
    (evaluated : condition.eval fuel m = some (.ok c, m₁))
    (taken : (if c.truthy then some yes else no) = some s)
    (comes : ComesToReturn line [s] m₁ m') :
    ComesToReturn line (.cond condLine condition yes no :: ss) m m'
  | round {condition : Expr} {c : Value} {body : Stmt} {m m₁ m' : Machine}
    (loopLine : Nat) (ss : List Stmt) (fuel : Nat)
    (evaluated : condition.eval fuel m = some (.ok c, m₁)) (holds : c.truthy)
    (comes : ComesToReturn line [body, .loop loopLine condition body] m₁ m') :
    ComesToReturn line (.loop loopLine condition body :: ss) m m'

variable {line : Nat} {m m' : Machine}

theorem ComesToReturn.append {ss : List Stmt} (comes : ComesToReturn line ss m m')
    (ts : List Stmt) : ComesToReturn line (ss ++ ts) m m' := by
  induction comes with
  | here value ss m => exact .here value _ m
  | later fuel ran _ ih => exact .later fuel ran ih
  | block blockLine ss comes => exact .block blockLine _ comes
  | branch condLine ss fuel evaluated taken comes =>
    exact .branch condLine _ fuel evaluated taken comes
  | round loopLine ss fuel evaluated holds comes =>
    exact .round loopLine _ fuel evaluated holds comes

end Stmt

namespace Action

variable {α : Type} {line : Nat} {reach : Machine → Machine → Prop}

/-- What running statements does with returns.  In a call none is stray.  Outside of all
calls none becomes a flow, and a stray one was reached; nothing is done any more then but
to leave the blocks that it stands in. -/
structure Guarded (line : Nat) (reach : Machine → Machine → Prop) (a : Action Flow) : Prop where
  noStray_inside : ∀ m, 0 < m.callDepth → a.NoStray m
  returned_inside : ∀ m value m', a m = some (.ok (.returned value), m') → 0 < m.callDepth
  strays : ∀ m m₁, m.callDepth = 0 → a m = some (.error ⟨.returnOutsideFunction, line⟩, m₁) →
    ∃ m', reach m m' ∧ m₁.outside = m'.outside

theorem Guarded.mono {a : Action Flow} {reach' : Machine → Machine → Prop}
    (h : a.Guarded line reach) (le : ∀ m m', reach m m' → reach' m m') :
    a.Guarded line reach' where
  noStray_inside := h.noStray_inside
  returned_inside := h.returned_inside
  strays m m₁ outside ran := by
    obtain ⟨m', reached, same⟩ := h.strays m m₁ outside ran
    exact ⟨m', le m m' reached, same⟩

theorem guarded_outOfFuel : Guarded line reach outOfFuel where
  noStray_inside := fun _ _ _ ⟨_, ran⟩ => by cases ran
  returned_inside _ _ _ ran := by cases ran
  strays _ _ _ ran := by cases ran

theorem guarded_normal : Guarded line reach (pure .normal) where
  noStray_inside m _ := noStray_done _ m
  returned_inside _ _ _ ran := by cases ran
  strays _ _ _ ran := by cases ran

/-- Something without returns, and then what depends on its value. -/
theorem Guarded.after {a : Action α} {f : α → Action Flow} (kept : a.Disciplined)
    (first : ∀ m, a.NoStray m)
    (second : ∀ value, (f value).Guarded line fun m₁ m' =>
      ∀ m, a m = some (.ok value, m₁) → reach m m') :
    (a >>= f).Guarded line reach where
  noStray_inside m inside := (first m).bind fun value m₁ done =>
    (second value).noStray_inside m₁ (((kept m).restores _ m₁ done).depth ▸ inside)
  returned_inside m value m' ran := by
    obtain ⟨_, _, same⟩ | ⟨found, m₁, done, ran⟩ := bind_ended ran
    · cases same
    · exact ((kept m).restores _ m₁ done).depth ▸ (second found).returned_inside m₁ value m' ran
  strays m m₂ outside ran := by
    obtain ⟨_, failed, same⟩ | ⟨value, m₁, done, ran⟩ := bind_ended ran
    · cases same
      exact (first m line ⟨m₂, failed⟩).elim
    · have depth := ((kept m).restores _ m₁ done).depth
      obtain ⟨m', reached, same⟩ := (second value).strays m₁ m₂ (depth.trans outside) ran
      exact ⟨m', reached m done, same⟩

/-- A statement, and then another one if the first did not return. -/
theorem Guarded.next {a : Action Flow} {f : Flow → Action Flow} (kept : a.Disciplined)
    (first : a.Guarded line reach)
    (second : (f .normal).Guarded line fun m₁ m' =>
      ∀ m, a m = some (.ok .normal, m₁) → reach m m')
    (passed : ∀ value, f (.returned value) = pure (.returned value)) :
    (a >>= f).Guarded line reach where
  noStray_inside m inside := (first.noStray_inside m inside).bind fun flow m₁ done => by
    cases flow with
    | normal => exact second.noStray_inside m₁ (((kept m).restores _ m₁ done).depth ▸ inside)
    | returned value => exact passed value ▸ noStray_done _ m₁
  returned_inside m value m' ran := by
    obtain ⟨_, _, same⟩ | ⟨flow, m₁, done, ran⟩ := bind_ended ran
    · cases same
    · cases flow with
      | normal => exact ((kept m).restores _ m₁ done).depth ▸ second.returned_inside m₁ value m' ran
      | returned found => exact first.returned_inside m found m₁ done
  strays m m₂ outside ran := by
    obtain failed | ⟨m₁, done, ran⟩ := (next_failed_iff passed).1 ran
    · exact first.strays m m₂ outside failed
    · have depth := ((kept m).restores _ m₁ done).depth
      obtain ⟨m', reached, same⟩ := second.strays m₁ m₂ (depth.trans outside) ran
      exact ⟨m', reached m done, same⟩

theorem Guarded.inBlock {a : Action Flow}
    (h : a.Guarded line fun m₁ m' => ∀ m : Machine, m.enterBlock = m₁ → reach m m') :
    (inBlock a).Guarded line reach where
  noStray_inside m inside line raised :=
    h.noStray_inside m.enterBlock inside line (raises_within.1 raised)
  returned_inside m value m' ran := by
    obtain ⟨m₁, ran, -⟩ := within_ended ran
    exact h.returned_inside m.enterBlock value m₁ ran
  strays m m₂ outside ran := by
    obtain ⟨m₁, inside, rfl⟩ := within_ended ran
    obtain ⟨m', reached, same⟩ := h.strays m.enterBlock m₁ outside inside
    exact ⟨m', reached m rfl, same⟩

/-- In a call one more is active than around it. -/
theorem Guarded.noStray_inCall {a : Action Flow} (h : a.Guarded line reach) (callLine : Nat)
    (m : Machine) : (inCall callLine a).NoStray m := by
  rintro line' ⟨m', ran⟩
  by_cases full : m.callLimit ≤ m.callDepth
  · rw [inCall_of_full full] at ran
    cases ran
  · rw [inCall_of_room full] at ran
    exact h.noStray_inside m.enterCall (Nat.succ_pos _) line' (raises_within.1 ⟨m', ran⟩)

/-- The value of a return is looked at if it is not stray. -/
theorem guarded_ret {a : Action Value} (h : ∀ m, a.NoStray m) {retLine : Nat}
    (here : retLine = line → ∀ m, reach m m) :
    (insideCall retLine do return .returned (← a)).Guarded line reach where
  noStray_inside m inside := by
    refine .ask ?_
    rw [if_neg (Nat.ne_of_gt inside)]
    exact (h m).bind fun value m₁ _ => noStray_done _ m₁
  returned_inside m value m' ran := by
    refine Nat.pos_of_ne_zero fun outside => ?_
    rw [insideCall, ask_run, if_pos outside] at ran
    cases ran
  strays m m₁ outside ran := by
    rw [insideCall, ask_run, if_pos outside] at ran
    cases ran
    exact ⟨m, here rfl m, rfl⟩

end Action

structure Guarding (line fuel : Nat) : Prop where
  eval : ∀ (e : Expr) m, (e.eval fuel).NoStray m
  evalAll : ∀ es m, (Expr.evalAll fuel es).NoStray m
  call : ∀ callLine name (f : Function) args m, (f.call fuel callLine name args).NoStray m
  run : ∀ s : Stmt, (s.run fuel).Guarded line (Stmt.ComesToReturn line [s])
  runLoop : ∀ loopLine condition body, (Stmt.runLoop fuel condition body).Guarded line
    (Stmt.ComesToReturn line [.loop loopLine condition body])
  runBlock : ∀ blockLine body, (Stmt.runBlock fuel body).Guarded line
    (Stmt.ComesToReturn line [.block blockLine body])
  runAll : ∀ ss, (Stmt.runAll fuel ss).Guarded line (Stmt.ComesToReturn line ss)

namespace Guarding

variable {line fuel : Nat}

theorem eval_succ (ih : Guarding line fuel) (e : Expr) (m : Machine) :
    (e.eval (fuel + 1)).NoStray m := by
  cases e with
  | literal => exact noStray_done _ m
  | binary line op lhs rhs =>
    refine (ih.eval _ m).bind fun x m₁ _ => (ih.eval _ m₁).bind fun y m₂ _ => ?_
    exact noStray_lift (op.apply_ne_stray x y) line m₂
  | logical =>
    refine (ih.eval _ m).bind fun _ m₁ _ => (ih.eval _ m₁).bind fun _ m₂ _ => ?_
    exact noStray_done _ m₂
  | var => exact noStray_lookUp _ _ m
  | assign =>
    refine (ih.eval _ m).bind fun _ m₁ _ => (noStray_assign _ _ _ m₁).bind fun _ m₂ _ => ?_
    exact noStray_done _ m₂
  | call line name args =>
    refine (ih.evalAll args m).bind fun values m₁ _ => ?_
    split
    · exact (noStray_blame _ _ _ m₁).bind fun _ m₂ _ => noStray_done _ m₂
    · exact .withFunction (fun f => ih.call line name f values m₁) line name
  | prompt =>
    refine (noStray_blame _ _ _ m).bind fun _ m₁ _ => ?_
    refine (noStray_blame _ _ _ m₁).bind fun _ m₂ _ => ?_
    exact (noStray_readLine _ m₂).bind fun _ m₃ _ => noStray_done _ m₃

theorem evalAll_succ (ih : Guarding line fuel) (es : List Expr) (m : Machine) :
    (Expr.evalAll (fuel + 1) es).NoStray m := by
  cases es with
  | nil => exact noStray_done _ m
  | cons =>
    refine (ih.eval _ m).bind fun _ m₁ _ => (ih.evalAll _ m₁).bind fun _ m₂ _ => ?_
    exact noStray_done _ m₂

/-- Whatever the body comes to, it comes to it in a call. -/
theorem call_succ (ih : Guarding line fuel) (callLine : Nat) (name : String) (f : Function)
    (args : List Value) (m : Machine) : (f.call (fuel + 1) callLine name args).NoStray m := by
  simp only [Function.call]
  split
  · exact noStray_fail (by simp) callLine m
  · have body : (do
        Action.defineAll (f.params.zip args)
        Stmt.runBlock fuel f.body).Guarded line fun _ _ => True := by
      refine .after (closed_disciplined.defineAll _) (noStray_defineAll _) fun _ => ?_
      exact (ih.runBlock callLine f.body).mono fun _ _ _ _ _ => trivial
    exact (body.noStray_inCall callLine m).bind fun _ m₁ _ => noStray_done _ m₁

theorem run_succ (ih : Guarding line fuel) (s : Stmt) :
    (s.run (fuel + 1)).Guarded line (Stmt.ComesToReturn line [s]) := by
  have kept := closed_disciplined.everywhere fuel
  cases s with
  | declare =>
    refine .after (kept.eval _) (ih.eval _) fun _ => ?_
    exact .after (closed_disciplined.define _ _) (noStray_ok _ _) fun _ => guarded_normal
  | print =>
    refine .after (kept.eval _) (ih.eval _) fun _ => ?_
    exact .after (closed_disciplined.write _ _) (noStray_blame _ _ _) fun _ => guarded_normal
  | cond condLine condition yes no =>
    refine .after (kept.eval _) (ih.eval _) fun c => ?_
    by_cases holds : c.truthy
    · rw [if_pos holds]
      refine (ih.run yes).mono fun m₁ m' comes m evaluated => ?_
      exact .branch condLine [] fuel evaluated (if_pos holds) comes
    · rw [if_neg holds]
      cases no with
      | none => exact guarded_normal
      | some no =>
        refine (ih.run no).mono fun m₁ m' comes m evaluated => ?_
        exact .branch condLine [] fuel evaluated (if_neg holds) comes
  | loop => exact ih.runLoop _ _ _
  | function =>
    exact .after (closed_disciplined.defineFunction _ _) (noStray_ok _ _) fun _ => guarded_normal
  | ret retLine value => exact guarded_ret (ih.eval value) fun same m => same ▸ .here value [] m
  | block => exact ih.runBlock _ _
  | expr => exact .after (kept.eval _) (ih.eval _) fun _ => guarded_normal
  | comment => exact guarded_normal

theorem runLoop_succ (ih : Guarding line fuel) (loopLine : Nat) (condition : Expr)
    (body : Stmt) : (Stmt.runLoop (fuel + 1) condition body).Guarded line
      (Stmt.ComesToReturn line [.loop loopLine condition body]) := by
  have kept := closed_disciplined.everywhere fuel
  refine .after (kept.eval _) (ih.eval _) fun c => ?_
  by_cases holds : c.truthy
  · rw [if_pos holds]
    refine .next (kept.run body) ?_ ?_ fun _ => rfl
    · refine (ih.run body).mono fun m₁ m' comes m evaluated => ?_
      exact .round loopLine [] fuel evaluated holds (comes.append _)
    · refine (ih.runLoop loopLine condition body).mono fun m₂ m' comes m₁ ran m evaluated => ?_
      exact .round loopLine [] fuel evaluated holds (.later fuel ran comes)
  · rw [if_neg holds]
    exact guarded_normal

theorem runBlock_succ (ih : Guarding line fuel) (blockLine : Nat) (body : List Stmt) :
    (Stmt.runBlock (fuel + 1) body).Guarded line
      (Stmt.ComesToReturn line [.block blockLine body]) := by
  refine .inBlock ((ih.runAll body).mono fun m₁ m' comes m entered => ?_)
  cases entered
  exact .block blockLine [] comes

theorem runAll_succ (ih : Guarding line fuel) (ss : List Stmt) :
    (Stmt.runAll (fuel + 1) ss).Guarded line (Stmt.ComesToReturn line ss) := by
  cases ss with
  | nil => exact guarded_normal
  | cons s ss =>
    refine .next ((closed_disciplined.everywhere fuel).run s) ?_ ?_ fun _ => rfl
    · exact (ih.run s).mono fun m m' comes => comes.append ss
    · exact (ih.runAll ss).mono fun m₁ m' comes m ran => .later fuel ran comes

end Guarding

theorem guarding (line fuel : Nat) : Guarding line fuel := by
  induction fuel with
  | zero =>
    have never {α : Type} (m : Machine) : (outOfFuel : Action α).NoStray m := by
      rintro line ⟨m', ran⟩
      cases ran
    exact ⟨fun _ => never, fun _ => never, fun _ _ _ _ => never, fun _ => guarded_outOfFuel,
      fun _ _ _ => guarded_outOfFuel, fun _ _ => guarded_outOfFuel, fun _ => guarded_outOfFuel⟩
  | succ fuel ih =>
    exact {
      eval := ih.eval_succ
      evalAll := ih.evalAll_succ
      call := ih.call_succ
      run := ih.run_succ
      runLoop := ih.runLoop_succ
      runBlock := ih.runBlock_succ
      runAll := ih.runAll_succ }

/-! ## Programs -/

theorem Expr.eval_callDepth {fuel : Nat} {e : Expr} {m m' : Machine}
    {r : Except RuntimeError Value} (ended : e.eval fuel m = some (r, m')) :
    m'.callDepth = m.callDepth :=
  ((closed_disciplined.everywhere fuel).eval e m |>.restores r m' ended).depth

theorem Stmt.run_callDepth {fuel : Nat} {s : Stmt} {m m' : Machine}
    {r : Except RuntimeError Flow} (ended : s.run fuel m = some (r, m')) :
    m'.callDepth = m.callDepth :=
  ((closed_disciplined.everywhere fuel).run s m |>.restores r m' ended).depth

namespace Stmt

variable {line : Nat} {m m' : Machine}

theorem runAll_cons_failed_iff {fuel : Nat} {s : Stmt} {ss : List Stmt} {e : RuntimeError} :
    Stmt.runAll (fuel + 1) (s :: ss) m = some (.error e, m') ↔
      s.run fuel m = some (.error e, m') ∨
        ∃ m₁, s.run fuel m = some (.ok .normal, m₁) ∧
          Stmt.runAll fuel ss m₁ = some (.error e, m') :=
  next_failed_iff fun _ => rfl

/-- The only one of some statements has failed. -/
theorem run_of_runAll_singleton {fuel : Nat} {s : Stmt} {e : RuntimeError}
    (failed : Stmt.runAll fuel [s] m = some (.error e, m')) :
    ∃ k, k < fuel ∧ s.run k m = some (.error e, m') := by
  cases fuel with
  | zero => cases failed
  | succ fuel =>
    obtain first | ⟨m₁, -, nothing⟩ := runAll_cons_failed_iff.1 failed
    · exact ⟨fuel, Nat.lt_succ_self fuel, first⟩
    · cases fuel <;> cases nothing

/-- A return that is come to outside of all calls is stray. -/
theorem ComesToReturn.fails {ss : List Stmt} (comes : ComesToReturn line ss m m')
    (outside : m.callDepth = 0) :
    ∃ fuel m₁, Stmt.runAll fuel ss m = some (.error ⟨.returnOutsideFunction, line⟩, m₁) ∧
      m₁.outside = m'.outside := by
  induction comes with
  | here value ss m =>
    have failed : (Stmt.ret line value).run 1 m =
        some (.error ⟨.returnOutsideFunction, line⟩, m) := by
      rw [Stmt.run, insideCall, ask_run, if_pos outside]
      rfl
    exact ⟨2, m, runAll_cons_failed_iff.2 (.inl failed), rfl⟩
  | @later s ss m m₁ m' n ran comes ih =>
    have depth := run_callDepth ran
    obtain ⟨k, m₂, failed, same⟩ := ih (depth.trans outside)
    refine ⟨max n k + 1, m₂, runAll_cons_failed_iff.2 (.inr ⟨m₁, ?_, ?_⟩), same⟩
    · exact s.run_below (Nat.le_max_left n k) m _ ran
    · exact runAll_below (Nat.le_max_right n k) ss m₁ _ failed
  | block blockLine ss comes ih =>
    obtain ⟨k, m₁, failed, same⟩ := ih outside
    exact ⟨k + 3, m₁.leaveBlock, runAll_cons_failed_iff.2 (.inl (within_of_some failed)), same⟩
  | @branch condition c yes s no m m₁ m' condLine ss n evaluated taken comes ih =>
    have depth := Expr.eval_callDepth evaluated
    obtain ⟨j, m₂, failed, same⟩ := ih (depth.trans outside)
    obtain ⟨k, -, failed⟩ := run_of_runAll_singleton failed
    refine ⟨max n k + 2, m₂, runAll_cons_failed_iff.2 (.inl ?_), same⟩
    have evaluated := condition.eval_below (Nat.le_max_left n k) m _ evaluated
    have failed := s.run_below (Nat.le_max_right n k) m₁ _ failed
    refine (bind_of_ok evaluated).trans ?_
    split at taken
    · rename_i holds
      cases taken
      rwa [if_pos holds]
    · rename_i fails
      cases taken
      rwa [if_neg fails]
  | @round condition c body m m₁ m' loopLine ss n evaluated holds comes ih =>
    have depth := Expr.eval_callDepth evaluated
    obtain ⟨k, m₂, failed, same⟩ := ih (depth.trans outside)
    obtain ⟨j, rfl⟩ : ∃ j, k = j + 1 := Nat.exists_eq_succ_of_ne_zero (by rintro rfl; cases failed)
    refine ⟨max n j + 3, m₂, runAll_cons_failed_iff.2 (.inl ?_), same⟩
    have evaluated := condition.eval_below (Nat.le_max_left n j) m _ evaluated
    have enough := Nat.le_max_right n j
    refine (bind_of_ok evaluated).trans ?_
    rw [if_pos holds]
    refine (next_failed_iff ?_).2 ?_
    · exact fun _ => rfl
    -- the return is in this round of the loop, or in one that the loop makes after it
    obtain first | ⟨m₃, ran, again⟩ := runAll_cons_failed_iff.1 failed
    · exact .inl (body.run_below enough m₁ _ first)
    · obtain ⟨i, less, again⟩ := run_of_runAll_singleton again
      refine .inr ⟨m₃, body.run_below enough m₁ _ ran, ?_⟩
      exact run_below (k := max n j + 1) (by omega) (.loop loopLine condition body) m₃ _ again

/-- Outside of all calls the statements of a program are a sequence like others. -/
theorem runProgram_of_runAll {ss : List Stmt} {fuel : Nat} {e : RuntimeError}
    (failed : Stmt.runAll fuel ss m = some (.error e, m')) :
    Stmt.runProgram fuel ss m = some (.error e, m') := by
  induction ss generalizing fuel m with
  | nil => cases fuel <;> cases failed
  | cons s ss ih =>
    cases fuel with
    | zero => cases failed
    | succ fuel =>
      have more := Nat.le_succ fuel
      obtain first | ⟨m₁, ran, others⟩ := runAll_cons_failed_iff.1 failed
      · exact bind_of_error (s.run_below more m _ first)
      · exact (bind_of_ok (s.run_below more m _ ran)).trans
          (runProgram_below more ss m₁ _ (ih others))

/-- The statements of a program do not return, so the check for it between them is for
nothing and the error of a stray return comes from one of them. -/
theorem comesToReturn_of_runProgram {ss : List Stmt} {fuel : Nat} {m₁ : Machine}
    (outside : m.callDepth = 0)
    (failed : Stmt.runProgram fuel ss m = some (.error ⟨.returnOutsideFunction, line⟩, m₁)) :
    ∃ m', ComesToReturn line ss m m' ∧ m₁.outside = m'.outside := by
  induction ss generalizing m with
  | nil => cases failed
  | cons s ss ih =>
    have guarded := (guarding line fuel).run s
    obtain ⟨_, first, same⟩ | ⟨flow, m₂, ran, others⟩ := bind_ended failed
    · cases same
      obtain ⟨m', comes, same⟩ := guarded.strays m m₁ outside first
      exact ⟨m', comes.append ss, same⟩
    · cases flow with
      | normal =>
        have depth := run_callDepth ran
        obtain ⟨m', comes, same⟩ := ih (depth.trans outside) others
        exact ⟨m', .later fuel ran comes, same⟩
      | returned value =>
        exact absurd outside (Nat.ne_of_gt (guarded.returned_inside m value m₂ ran))

end Stmt

/-- A machine between the steps of a session has nothing to leave. -/
theorem Machine.AtRest.outside_of_sameStack {m m' : Machine} (rest : m.AtRest)
    (same : m.SameStack m') : m'.outside = m' := by
  obtain ⟨locals, bases, -⟩ := rest.stack
  have locals' : m'.environment.locals = [] :=
    List.eq_nil_of_length_eq_zero (by rw [same.shape.frames, locals]; rfl)
  rw [outside, ← locals', ← same.shape.bases.trans bases]

/-- A return is caught by its own call.  No expression fails with the error of a stray one,
whatever it calls, and a statement returns only in a call.  Between the steps of a session a
program fails with that error just if it comes to a return outside of calls.  Then the line
is the return's, and what is left is what the return found, with the flush at the end, so
nothing of its value was evaluated.  The check for statements of a program that return is
never true. -/
theorem return_caught_by_call :
    (∀ fuel (e : Expr) m line, ¬(e.eval fuel).Raises m ⟨.returnOutsideFunction, line⟩) ∧
    (∀ fuel (s : Stmt) m value m', s.run fuel m = some (.ok (.returned value), m') →
      0 < m.callDepth) ∧
    (∀ (p : Program) m, m.AtRest → ∀ line m₁,
      (∃ fuel, p.run fuel m = some (.error ⟨.returnOutsideFunction, line⟩, m₁)) ↔
        ∃ m', Stmt.ComesToReturn line p.statements m m' ∧ m₁ = m'.outside.flushed) ∧
    ∀ fuel before (s : Stmt) m, m.AtRest → ∀ m₁,
      Stmt.runProgram fuel before m = some (.ok (), m₁) →
        ∀ value m₂, s.run fuel m₁ ≠ some (.ok (.returned value), m₂) := by
  have returned fuel (s : Stmt) := ((guarding 0 fuel).run s).returned_inside
  refine ⟨fun fuel => (guarding 0 fuel).eval, returned, fun p m rest line m₁ => ⟨?_, ?_⟩, ?_⟩
  · rintro ⟨fuel, ran⟩
    obtain ⟨m₂, rfl, failed | ⟨-, failure, -, -, error⟩⟩ := thenFlush_failed ran
    · have same := (closed_disciplined.runProgram fuel p.statements m).restores _ m₂ failed
      obtain ⟨m', comes, left⟩ := Stmt.comesToReturn_of_runProgram rest.stack.2.2 failed
      exact ⟨m', comes, congrArg Machine.flushed ((rest.outside_of_sameStack same).symm.trans left)⟩
    · cases error
  · rintro ⟨m', comes, rfl⟩
    obtain ⟨fuel, m₂, failed, left⟩ := comes.fails rest.stack.2.2
    replace failed := Stmt.runProgram_of_runAll failed
    have same := (closed_disciplined.runProgram fuel p.statements m).restores _ m₂ failed
    rw [rest.outside_of_sameStack same] at left
    exact ⟨fuel, left ▸ thenFlush_of_error failed⟩
  · intro fuel before s m rest m₁ ran value m₂ ends
    have depth := ((closed_disciplined.runProgram fuel before m).restores _ m₁ ran).depth
    exact absurd (depth.trans rest.stack.2.2) (Nat.ne_of_gt (returned fuel s m₁ value m₂ ends))

/-- A function returns from a loop.  Behind the first two statements there is a return in a
branch without a call around it, whose value would print something. -/
theorem return_caught_by_call_in_branch :
    let truth : Expr := .literal 1 (.boolean true)
    let seven : Stmt := .ret 1 (.literal 1 (.integer 7))
    let loop : Stmt := .loop 1 truth (.block 1 [seven])
    let before : List Stmt := [.function 1 "f" [] [loop], .print 2 (.call 2 "f" [])]
    let branch : Stmt := .cond 3 truth (.block 3 [.expr 3 (.call 3 "f" []),
      .ret 4 (.call 4 printName [.literal 4 (.text "no")])]) none
    let m := Machine.new .lexical defaultCallLimit ⟨[]⟩ {}
    m.AtRest ∧
      (∃ fuel m₁, Program.run fuel ⟨before ++ [branch]⟩ m =
        some (.error ⟨.returnOutsideFunction, 4⟩, m₁) ∧ m₁.sink.written = "7\n".toUTF8) ∧
      (∃ m₁, Stmt.runProgram 20 before m = some (.ok (), m₁) ∧
        ∀ value m₂, branch.run 20 m₁ ≠ some (.ok (.returned value), m₂)) ∧
      ∃ m₁, loop.run 20 m.enterCall = some (.ok (.returned (.integer 7)), m₁) ∧
        0 < m.enterCall.callDepth := by
  intro truth seven loop before branch m
  have rest : m.AtRest := .new _ _ _ _
  obtain ⟨-, inside, strays, never⟩ := return_caught_by_call
  let printed : Machine :=
    { m with
      functions := ⟨[("f", ⟨[], [loop]⟩)]⟩
      sink := { written := "7\n".toUTF8, requests := [.write "7\n"] } }
  have comes : Stmt.ComesToReturn 4 (before ++ [branch]) m printed.enterBlock := by
    refine .later 1 rfl (.later 20 rfl ?_)
    exact .branch 3 [] 1 rfl rfl (.block 3 [] (.later 20 rfl (.here _ [] _)))
  obtain ⟨fuel, ran⟩ := (strays ⟨before ++ [branch]⟩ m rest 4 _).2 ⟨_, comes, rfl⟩
  have ran' : Stmt.runProgram 20 before m = some (.ok (), printed) := rfl
  have returned : loop.run 20 m.enterCall = some (.ok (.returned (.integer 7)), m.enterCall) := rfl
  exact ⟨rest, ⟨fuel, _, ran, rfl⟩, ⟨_, ran', never 20 before branch m rest printed ran'⟩,
    ⟨_, returned, inside 20 loop _ _ _ returned⟩⟩

end Betik
