/-
Where the integers of a run come from.

Arithmetic makes doubles, a sum with a text makes a text, and whatever else gives a value
passes on one that was there.  So the only way for an integer to come into a run is a literal
of the tree that is run, or of a function that was kept from an earlier one.  `Machine.From P`
says that all integers of a machine are in `P`, and `Action.Draws` that an action keeps this:
`draws_everywhere`.  Over the steps of a session `P` grows by the literals of each tree.
-/
import Betik.Proofs.Lines.Errors
import Betik.Proofs.Literals.Agreement
import Betik.Session

namespace Betik

variable {P Q : Int64 → Prop}

/-! ## Integers of trees and of machines -/

def Written (es : List Expr) (n : Int64) : Prop :=
  ∃ line, .literal line (.integer n) ∈ es

def LiteralsFrom (P : Int64 → Prop) (es : List Expr) : Prop :=
  ∀ n, Written es n → P n

/-- If the value is an integer, it is one of these. -/
def Value.From (P : Int64 → Prop) : Value → Prop
  | integer n => P n
  | _ => True

def Flow.From (P : Int64 → Prop) : Flow → Prop
  | normal => True
  | returned value => value.From P

def RuntimeError.From (P : Int64 → Prop) (e : RuntimeError) : Prop :=
  match e.cause with
  | .illegalOperation _ lhs rhs => lhs.From P ∧ rhs.From P
  | _ => True

def Frame.From (P : Int64 → Prop) (frame : Frame) : Prop :=
  ∀ entry ∈ frame.entries, entry.2.From P

structure Environment.From (P : Int64 → Prop) (env : Environment) : Prop where
  globals : Frame.From P env.globals
  locals : ∀ frame ∈ env.locals, Frame.From P frame

/-- The integers in the frames and in the bodies of the functions are among these. -/
structure Machine.From (P : Int64 → Prop) (m : Machine) : Prop where
  environment : m.environment.From P
  functions : ∀ entry ∈ m.functions.entries, LiteralsFrom P (Stmt.literalsAll entry.2.body)

namespace Table

variable {α : Type} {t : Table α} {name : String}

theorem mem_of_get? {value : α} (found : t.get? name = some value) : (name, value) ∈ t.entries := by
  obtain ⟨es⟩ := t
  simp only [get?] at found
  induction es with
  | nil => cases found
  | cons e es ih =>
    obtain ⟨n, v⟩ := e
    simp only [findEntry] at found
    split at found
    · rename_i same
      cases found
      exact same ▸ List.mem_cons_self ..
    · exact List.mem_cons_of_mem _ (ih found)

theorem mem_put {value : α} {entry : String × α} (mem : entry ∈ (t.put name value).entries) :
    entry ∈ t.entries ∨ entry.2 = value := by
  obtain ⟨es⟩ := t
  simp only [put] at mem
  induction es with
  | nil => exact .inr (by rw [List.mem_singleton.1 mem])
  | cons e es ih =>
    obtain ⟨n, v⟩ := e
    simp only [putEntry] at mem
    split at mem
    · obtain rfl | mem := List.mem_cons.1 mem
      · exact .inr rfl
      · exact .inl (List.mem_cons_of_mem _ mem)
    · obtain rfl | mem := List.mem_cons.1 mem
      · exact .inl (List.mem_cons_self ..)
      · exact (ih mem).imp_left (List.mem_cons_of_mem _)

end Table

/-! ## Frames -/

theorem Frame.From.put {frame : Frame} {value : Value} (h : Frame.From P frame)
    (given : value.From P) (name : String) : Frame.From P (frame.put name value) := by
  intro entry mem
  obtain mem | same := Table.mem_put mem
  · exact h entry mem
  · rwa [same]

namespace Environment.From

variable {env env' : Environment} {name : String} {value : Value}

theorem get? (h : env.From P) (found : env.get? name = some value) : value.From P := by
  have first : ∀ frames : List Frame, (∀ frame ∈ frames, Frame.From P frame) →
      getFirst? name frames = some value → value.From P := by
    intro frames given found
    induction frames with
    | nil => cases found
    | cons frame frames ih =>
      obtain ⟨own, others⟩ := List.forall_mem_cons.1 given
      simp only [getFirst?] at found
      split at found
      · rename_i there
        cases found
        exact own _ (Table.mem_of_get? there)
      · exact ih others found
  refine first env.visible (fun frame mem => ?_) (get?_eq_getFirst?_visible env name ▸ found)
  obtain seen | last := List.mem_append.1 mem
  · exact h.locals frame (env.seen_append_hidden ▸ List.mem_append_left _ seen)
  · exact List.mem_singleton.1 last ▸ h.globals

theorem define (h : env.From P) (given : value.From P) : (env.define name value).From P := by
  unfold Environment.define
  split
  · exact ⟨h.globals.put given name, h.locals⟩
  · rename_i frame frames split
    obtain ⟨own, others⟩ := List.forall_mem_cons.1 (split ▸ h.locals)
    exact ⟨h.globals, List.forall_mem_cons.2 ⟨own.put given name, others⟩⟩

theorem assign? (h : env.From P) (given : value.From P)
    (assigned : env.assign? name value = some env') : env'.From P := by
  have first : ∀ frames frames' : List Frame, (∀ frame ∈ frames, Frame.From P frame) →
      assignFirst? name value frames = some frames' → ∀ frame ∈ frames', Frame.From P frame := by
    intro frames frames' given' assigned
    induction frames generalizing frames' with
    | nil => cases assigned
    | cons frame frames ih =>
      obtain ⟨own, others⟩ := List.forall_mem_cons.1 given'
      simp only [assignFirst?] at assigned
      split at assigned
      · cases assigned
        exact List.forall_mem_cons.2 ⟨own.put given name, others⟩
      · obtain ⟨changed, assigned', rfl⟩ := Option.map_eq_some_iff.1 assigned
        exact List.forall_mem_cons.2 ⟨own, ih changed others assigned'⟩
  have locals := h.locals
  rw [← env.seen_append_hidden, List.forall_mem_append] at locals
  unfold Environment.assign? at assigned
  split at assigned
  · rename_i frames changed
    cases assigned
    exact ⟨h.globals, List.forall_mem_append.2 ⟨first _ _ locals.1 changed, locals.2⟩⟩
  · split at assigned
    · cases assigned
      exact ⟨h.globals.put given name, h.locals⟩
    · cases assigned

/-- An empty frame has no integers. -/
theorem enter (h : env.From P) (bases : List Nat) :
    Environment.From P { env with locals := .empty :: env.locals, bases := bases } :=
  ⟨h.globals, List.forall_mem_cons.2 ⟨nofun, h.locals⟩⟩

theorem drop (h : env.From P) (k : Nat) (bases : List Nat) :
    Environment.From P { env with locals := env.locals.drop k, bases := bases } :=
  ⟨h.globals, fun frame mem => h.locals frame (List.mem_of_mem_drop mem)⟩

theorem leaveCall (h : env.From P) : env.leaveCall.From P := by
  unfold Environment.leaveCall
  split
  · exact h
  · exact h.drop _ _

theorem leaveBlock (h : env.From P) : env.leaveBlock.From P := by
  have dropped := h.drop 1 env.bases
  rwa [List.drop_one] at dropped

end Environment.From

theorem Operator.Gives.from {op : Operator} {value : Value} (h : op.Gives value) :
    value.From P := by
  cases op with
  | add => obtain ⟨_, rfl⟩ | ⟨_, rfl⟩ := h <;> trivial
  | _ =>
    obtain ⟨_, rfl⟩ := h
    trivial

/-! ## Actions -/

namespace Action

variable {α β : Type} {good : α → Prop} {good' : β → Prop} {a : Action α} {f : α → Action β}
  {m : Machine}

/-- A value that is good, or an error about such integers. -/
def Drawn (P : Int64 → Prop) (good : α → Prop) : Except RuntimeError α → Prop
  | .ok value => good value
  | .error e => e.From P

/-- On the machine the action comes only through machines with such integers, and what it ends
with is drawn from them. -/
structure DrawsOn (P : Int64 → Prop) (good : α → Prop) (a : Action α) (m : Machine) : Prop where
  passes : ∀ s, a.passes m s → s.From P
  ends : ∀ r m', a m = some (r, m') → Drawn P good r

def Draws (P : Int64 → Prop) (good : α → Prop) (a : Action α) : Prop :=
  ∀ m : Machine, m.From P → a.DrawsOn P good m

theorem DrawsOn.left (h : a.DrawsOn P good m) {r : Except RuntimeError α} {m' : Machine}
    (ran : a m = some (r, m')) : m'.From P :=
  h.passes m' (a.passes_end _ _ _ ran)

theorem drawsOn_step {g : Machine → Except RuntimeError α × Machine} (before : m.From P)
    (after : (g m).2.From P) (drawn : Drawn P good (g m).1) : (step g).DrawsOn P good m where
  passes := by
    rintro s (rfl | rfl)
    · exact before
    · exact after
  ends r m' ran := by
    injection ran with ran
    have same : (g m).1 = r := congrArg Prod.fst ran
    exact same ▸ drawn

theorem draws_outOfFuel : (outOfFuel : Action α).Draws P good := fun _ from_ =>
  ⟨fun _ passed => passed ▸ from_, fun _ _ ran => by cases ran⟩

theorem draws_done {value : α} (h : good value) : (done value).Draws P good := fun _ from_ =>
  drawsOn_step from_ from_ h

theorem draws_fail (line : Nat) {cause : RuntimeError.Cause}
    (h : RuntimeError.From P ⟨cause, line⟩) : (fail line cause : Action α).Draws P good :=
  fun _ from_ => drawsOn_step from_ from_ h

theorem Draws.bind (first : a.Draws P good) (second : ∀ value, good value →
    (f value).Draws P good') : (a >>= f).Draws P good' := by
  intro m from_
  have h := first m from_
  refine ⟨?_, fun r m' ran => ?_⟩
  · rintro s (passed | ⟨value, m₁, done, passed⟩)
    · exact h.passes s passed
    · exact (second value (h.ends _ m₁ done) m₁ (h.left done)).passes s passed
  · obtain ⟨e, failed, rfl⟩ | ⟨value, m₁, done, ran⟩ := bind_ended ran
    · exact h.ends _ m' failed
    · exact (second value (h.ends _ m₁ done) m₁ (h.left done)).ends r m' ran

theorem Draws.thenFlush (h : a.Draws P good) (line : Nat) : (thenFlush line a).Draws P good := by
  intro m from_
  have inner := h m from_
  refine ⟨?_, fun r m' ran => ?_⟩
  · rintro s (passed | ⟨r, m₁, ran, rfl⟩)
    · exact inner.passes s passed
    · have left := inner.left ran
      exact ⟨left.environment, left.functions⟩
  · obtain ⟨r₁, m₁, first, rfl, -⟩ := thenFlush_ended ran
    have drawn := inner.ends r₁ m₁ first
    cases r₁ with
    | error e => exact drawn
    | ok value =>
      cases m₁.sink.flush.1 with
      | ok => exact drawn
      | error failure => trivial

/-- What is asked of the machine is what the machine says. -/
theorem Draws.ask {g : Machine → β} {f : β → Action α}
    (h : ∀ m, m.From P → (f (g m)).DrawsOn P good m) : (ask g >>= f).Draws P good := by
  intro m from_
  refine ⟨?_, (h m from_).ends⟩
  rintro s ((rfl | rfl) | ⟨value, m₁, asked, passed⟩)
  · exact from_
  · exact from_
  · cases asked
    exact (h m from_).passes s passed

theorem Draws.within {enter leave : Machine → Machine} (h : a.Draws P good)
    (entering : ∀ m, m.From P → (enter m).From P)
    (leaving : ∀ m, m.From P → (leave m).From P) : (within enter leave a).Draws P good := by
  intro m from_
  have inner := h (enter m) (entering m from_)
  refine ⟨?_, fun r m' ran => ?_⟩
  · rintro s (rfl | inside | ⟨r, m₁, inside, rfl⟩)
    · exact from_
    · exact inner.passes s inside
    · exact leaving m₁ (inner.left inside)
  · obtain ⟨m₁, inside, -⟩ := within_ended ran
    exact inner.ends r m₁ inside

theorem Draws.inBlock (h : a.Draws P good) : (inBlock a).Draws P good :=
  h.within (fun _ from_ => ⟨from_.environment.enter _, from_.functions⟩)
    fun _ from_ => ⟨from_.environment.leaveBlock, from_.functions⟩

theorem Draws.inCall (h : a.Draws P good) (line : Nat) : (inCall line a).Draws P good := by
  refine .ask fun m from_ => ?_
  by_cases full : m.callLimit ≤ m.callDepth
  · simp only [full, if_true]
    exact draws_fail line (by trivial) m from_
  · simp only [full, if_false]
    have inside : (Action.within Machine.enterCall Machine.leaveCall a).Draws P good :=
      h.within (fun _ from_ => ⟨from_.environment.enter _, from_.functions⟩)
        fun _ from_ => ⟨from_.environment.leaveCall, from_.functions⟩
    exact inside m from_

theorem Draws.insideCall (h : a.Draws P good) (line : Nat) : (insideCall line a).Draws P good := by
  refine .ask fun m from_ => ?_
  split
  · exact draws_fail line (by trivial) m from_
  · exact h m from_

/-- A function that is found is one that the machine kept. -/
theorem Draws.withFunction {use : Function → Action α}
    (h : ∀ f : Function, (LiteralsFrom P (Stmt.literalsAll f.body)) → (use f).Draws P good)
    (line : Nat) (name : String) : (withFunction line name use).Draws P good := by
  refine .ask fun m from_ => ?_
  cases found : m.functions.get? name with
  | none => exact draws_fail line (by trivial) m from_
  | some f => exact h f (from_.functions _ (Table.mem_of_get? found)) m from_

theorem draws_define (name : String) {value : Value} (given : value.From P) :
    (define name value).Draws P fun _ => True := fun _ from_ =>
  drawsOn_step from_ ⟨from_.environment.define given, from_.functions⟩ trivial

theorem draws_defineAll {bindings : List (String × Value)}
    (given : ∀ b ∈ bindings, b.2.From P) : (defineAll bindings).Draws P fun _ => True := by
  induction bindings with
  | nil => exact draws_done trivial
  | cons b bs ih =>
    obtain ⟨first, others⟩ := List.forall_mem_cons.1 given
    exact (draws_define b.1 first).bind fun _ _ => ih others

theorem draws_lookUp (line : Nat) (name : String) : (lookUp line name).Draws P (Value.From P) := by
  intro m from_
  cases found : m.environment.get? name with
  | none =>
    refine drawsOn_step from_ ?_ ?_ <;> simp only [found]
    · exact from_
    · trivial
  | some value =>
    refine drawsOn_step from_ ?_ ?_ <;> simp only [found]
    · exact from_
    · exact from_.environment.get? found

theorem draws_assign (line : Nat) (name : String) {value : Value} (given : value.From P) :
    (assign line name value).Draws P fun _ => True := by
  intro m from_
  cases assigned : m.environment.assign? name value with
  | none =>
    refine drawsOn_step from_ ?_ ?_ <;> simp only [assigned]
    · exact from_
    · trivial
  | some env =>
    refine drawsOn_step from_ ?_ ?_ <;> simp only [assigned]
    · exact ⟨from_.environment.assign? given assigned, from_.functions⟩
    · trivial

theorem draws_defineFunction (name : String) {f : Function}
    (body : LiteralsFrom P (Stmt.literalsAll f.body)) :
    (defineFunction name f).Draws P fun _ => True := by
  refine fun _ from_ => drawsOn_step from_ ⟨from_.environment, fun entry mem => ?_⟩ trivial
  obtain mem | same := Table.mem_put mem
  · exact from_.functions entry mem
  · rwa [same]

/-- Something done with the world outside, which has no integers. -/
theorem draws_blame (line : Nat) (result : Machine → Except Failure α) (left : Machine → Machine)
    (same : ∀ m, (left m).environment = m.environment ∧ (left m).functions = m.functions) :
    (step fun m => (blame line (result m), left m)).Draws P fun _ => True := by
  intro m from_
  obtain ⟨environment, functions⟩ := same m
  refine drawsOn_step from_ ⟨environment ▸ from_.environment, functions ▸ from_.functions⟩ ?_
  cases result m <;> simp only [blame, Except.mapError] <;> trivial

theorem draws_write (line : Nat) (text : String) : (write line text).Draws P fun _ => True :=
  draws_blame line (fun m => (m.sink.write text).1) _ fun _ => ⟨rfl, rfl⟩

theorem draws_flush (line : Nat) : (flush line).Draws P fun _ => True :=
  draws_blame line (fun m => m.sink.flush.1) Machine.flushed fun _ => ⟨rfl, rfl⟩

theorem draws_readLine (line : Nat) : (readLine line).Draws P fun _ => True := by
  intro m from_
  refine drawsOn_step from_ ?_ ?_
  · simp only
    split <;> exact ⟨from_.environment, from_.functions⟩
  · simp only
    split <;> trivial

end Action

open Betik.Action

theorem literalsFrom_append {es es' : List Expr} :
    LiteralsFrom P (es ++ es') ↔ LiteralsFrom P es ∧ LiteralsFrom P es' := by
  simp only [LiteralsFrom, Written, List.mem_append, exists_or, or_imp, forall_and]

namespace Action

/-- What an operator says about values from machines with such integers. -/
theorem draws_apply (line : Nat) (op : Operator) {lhs rhs : Value} (left : lhs.From P)
    (right : rhs.From P) : (lift line (op.apply lhs rhs)).Draws P (Value.From P) := by
  have answers := op.apply_answers lhs rhs
  cases applied : op.apply lhs rhs with
  | ok value =>
    rw [applied] at answers
    exact fun _ from_ => drawsOn_step from_ from_ answers.from
  | error cause =>
    rw [applied] at answers
    refine fun _ from_ => drawsOn_step from_ from_ ?_
    obtain rfl | rfl := answers
    · trivial
    · exact ⟨left, right⟩

end Action

/-! ## Programs -/

structure DrawsEverywhere (P : Int64 → Prop) (fuel : Nat) : Prop where
  eval : ∀ e : Expr, LiteralsFrom P e.literals → (e.eval fuel).Draws P (Value.From P)
  evalAll : ∀ es, LiteralsFrom P (Expr.literalsAll es) →
    (Expr.evalAll fuel es).Draws P fun values => ∀ value ∈ values, value.From P
  call : ∀ line name (f : Function) args, LiteralsFrom P (Stmt.literalsAll f.body) →
    (∀ value ∈ args, value.From P) → (f.call fuel line name args).Draws P (Value.From P)
  run : ∀ s : Stmt, LiteralsFrom P s.literals → (s.run fuel).Draws P (Flow.From P)
  runLoop : ∀ condition (body : Stmt), LiteralsFrom P condition.literals →
    LiteralsFrom P body.literals → (Stmt.runLoop fuel condition body).Draws P (Flow.From P)
  runBlock : ∀ body, LiteralsFrom P (Stmt.literalsAll body) →
    (Stmt.runBlock fuel body).Draws P (Flow.From P)
  runAll : ∀ body, LiteralsFrom P (Stmt.literalsAll body) →
    (Stmt.runAll fuel body).Draws P (Flow.From P)

namespace DrawsEverywhere

variable {fuel : Nat}

theorem eval_succ (ih : DrawsEverywhere P fuel) (e : Expr) (given : LiteralsFrom P e.literals) :
    (e.eval (fuel + 1)).Draws P (Value.From P) := by
  cases e with
  | literal line value =>
    refine draws_done ?_
    cases value with
    | integer n => exact given n ⟨line, List.mem_singleton_self _⟩
    | _ => trivial
  | binary line op lhs rhs =>
    obtain ⟨left, right⟩ := literalsFrom_append.1 given
    exact (ih.eval lhs left).bind fun x hx => (ih.eval rhs right).bind fun y hy =>
      draws_apply line op hx hy
  | logical line op lhs rhs =>
    obtain ⟨left, right⟩ := literalsFrom_append.1 given
    exact (ih.eval lhs left).bind fun _ _ => (ih.eval rhs right).bind fun _ _ => draws_done trivial
  | var line name => exact draws_lookUp line name
  | assign line name value =>
    refine (ih.eval value given).bind fun v hv => (draws_assign line name hv).bind fun _ _ => ?_
    exact draws_done hv
  | call line name args =>
    refine (ih.evalAll args given).bind fun values hv => ?_
    split
    · exact (draws_write line _).bind fun _ _ => draws_done trivial
    · exact .withFunction (fun f body => ih.call line name f values body hv) line name
  | prompt line text =>
    refine (draws_write line text).bind fun _ _ => (draws_flush line).bind fun _ _ => ?_
    exact (draws_readLine line).bind fun _ _ => draws_done trivial

/-- The arguments go into the frame of the call, and what the body returns is its value. -/
theorem call_succ (ih : DrawsEverywhere P fuel) (line : Nat) (name : String) (f : Function)
    (args : List Value) (body : LiteralsFrom P (Stmt.literalsAll f.body))
    (given : ∀ value ∈ args, value.From P) :
    (f.call (fuel + 1) line name args).Draws P (Value.From P) := by
  simp only [Function.call]
  split
  · exact draws_fail line (by trivial)
  · have bound : ∀ b ∈ f.params.zip args, b.2.From P := fun b mem =>
      given b.2 (List.of_mem_zip mem).2
    have inside : (do
        Action.defineAll (f.params.zip args)
        Stmt.runBlock fuel f.body).Draws P (Flow.From P) :=
      (draws_defineAll bound).bind fun _ _ => ih.runBlock f.body body
    refine (inside.inCall line).bind fun flow returned => draws_done ?_
    cases flow with
    | normal => trivial
    | returned value => exact returned

theorem run_succ (ih : DrawsEverywhere P fuel) (s : Stmt) (given : LiteralsFrom P s.literals) :
    (s.run (fuel + 1)).Draws P (Flow.From P) := by
  cases s with
  | declare line name type init =>
    exact (ih.eval init given).bind fun v hv => (draws_define name hv).bind fun _ _ =>
      draws_done trivial
  | print line value =>
    exact (ih.eval value given).bind fun v _ => (draws_write line _).bind fun _ _ =>
      draws_done trivial
  | cond line condition yes no =>
    cases no with
    | none =>
      obtain ⟨first, branch⟩ := literalsFrom_append.1 given
      refine (ih.eval condition first).bind fun c _ => ?_
      split
      · exact ih.run yes branch
      · exact draws_done trivial
    | some no =>
      obtain ⟨first, branches⟩ := literalsFrom_append.1 given
      obtain ⟨branch, other⟩ := literalsFrom_append.1 branches
      refine (ih.eval condition first).bind fun c _ => ?_
      split
      · exact ih.run yes branch
      · exact ih.run no other
  | loop line condition body =>
    obtain ⟨first, inner⟩ := literalsFrom_append.1 given
    exact ih.runLoop condition body first inner
  | function line name params body =>
    exact (draws_defineFunction name given).bind fun _ _ => draws_done trivial
  | ret line value =>
    have inside : (do return Flow.returned (← value.eval fuel)).Draws P (Flow.From P) :=
      (ih.eval value given).bind fun v hv => draws_done hv
    exact inside.insideCall line
  | block line body => exact ih.runBlock body given
  | expr line value => exact (ih.eval value given).bind fun _ _ => draws_done trivial
  | comment line text => exact draws_done trivial

theorem runLoop_succ (ih : DrawsEverywhere P fuel) (condition : Expr) (body : Stmt)
    (first : LiteralsFrom P condition.literals) (inner : LiteralsFrom P body.literals) :
    (Stmt.runLoop (fuel + 1) condition body).Draws P (Flow.From P) := by
  refine (ih.eval condition first).bind fun c _ => ?_
  split
  · refine (ih.run body inner).bind fun flow returned => ?_
    cases flow with
    | normal => exact ih.runLoop condition body first inner
    | returned value => exact draws_done returned
  · exact draws_done trivial

theorem runAll_succ (ih : DrawsEverywhere P fuel) (body : List Stmt)
    (given : LiteralsFrom P (Stmt.literalsAll body)) :
    (Stmt.runAll (fuel + 1) body).Draws P (Flow.From P) := by
  cases body with
  | nil => exact draws_done trivial
  | cons s ss =>
    obtain ⟨first, others⟩ := literalsFrom_append.1 given
    refine (ih.run s first).bind fun flow returned => ?_
    cases flow with
    | normal => exact ih.runAll ss others
    | returned value => exact draws_done returned

theorem evalAll_succ (ih : DrawsEverywhere P fuel) (es : List Expr)
    (given : LiteralsFrom P (Expr.literalsAll es)) :
    (Expr.evalAll (fuel + 1) es).Draws P fun values => ∀ value ∈ values, value.From P := by
  cases es with
  | nil => exact draws_done (by simp)
  | cons e es =>
    obtain ⟨first, others⟩ := literalsFrom_append.1 given
    exact (ih.eval e first).bind fun v hv => (ih.evalAll es others).bind fun vs hvs =>
      draws_done (List.forall_mem_cons.2 ⟨hv, hvs⟩)

end DrawsEverywhere

theorem draws_everywhere (P : Int64 → Prop) (fuel : Nat) : DrawsEverywhere P fuel := by
  induction fuel with
  | zero => constructor <;> intros <;> exact draws_outOfFuel
  | succ fuel ih =>
    exact ⟨ih.eval_succ, ih.evalAll_succ, ih.call_succ, ih.run_succ, ih.runLoop_succ,
      fun body given => (ih.runAll body given).inBlock, ih.runAll_succ⟩

theorem draws_program (fuel : Nat) (p : Program)
    (given : LiteralsFrom P (Stmt.literalsAll p.statements)) :
    (p.run fuel).Draws P fun _ => True := by
  have program (ss : List Stmt) (given : LiteralsFrom P (Stmt.literalsAll ss)) :
      (Stmt.runProgram fuel ss).Draws P fun _ => True := by
    induction ss with
    | nil => exact draws_done trivial
    | cons s ss ih =>
      obtain ⟨first, others⟩ := literalsFrom_append.1 given
      refine ((draws_everywhere P fuel).run s first).bind fun flow _ => ?_
      cases flow with
      | normal => exact ih others
      | returned value => exact draws_fail s.line (by trivial)
  exact (program p.statements given).thenFlush 0

/-! ## Sessions -/

theorem Value.From.mono {value : Value} (h : value.From P) (grow : ∀ n, P n → Q n) :
    value.From Q := by
  cases value with
  | integer n => exact grow n h
  | _ => trivial

theorem Machine.From.mono {m : Machine} (h : m.From P) (grow : ∀ n, P n → Q n) : m.From Q where
  environment :=
    ⟨fun entry mem => (h.environment.globals entry mem).mono grow,
      fun frame mem entry mem' => (h.environment.locals frame mem entry mem').mono grow⟩
  functions entry mem n written := grow n (h.functions entry mem n written)

namespace Session.Step

def literals : Step → List Expr
  | source text =>
    match compile text with
    | .ok p => Stmt.literalsAll p.statements
    | .error _ => []
  | program p => Stmt.literalsAll p.statements
  | statement s => s.literals
  | expression e => e.literals

def DrawsOn (P : Int64 → Prop) (fuel : Nat) (m : Machine) : Step → Prop
  | source text => ∀ p, compile text = .ok p → (p.run fuel).DrawsOn P (fun _ => True) m
  | program p => (p.run fuel).DrawsOn P (fun _ => True) m
  | statement s => (s.run fuel).DrawsOn P (Flow.From P) m
  | expression e => (e.eval fuel).DrawsOn P (Value.From P) m

def Parsed : Step → Prop
  | source _ => True
  | program p => ∃ text, parse (tokenize text) = .ok p
  | statement s => ∃ text p, parse (tokenize text) = .ok p ∧ s ∈ p.statements
  | expression e => ∃ text, (Expr.read (tokenize text)).map Betik.Parsed.value = .ok e

variable {fuel : Nat} {step : Step} {m m' : Machine}

theorem drawsOn (fuel : Nat) (given : LiteralsFrom P step.literals) (from_ : m.From P) :
    step.DrawsOn P fuel m := by
  cases step with
  | source text =>
    intro p compiled
    simp only [literals, compiled] at given
    exact draws_program fuel p given m from_
  | program p => exact draws_program fuel p given m from_
  | statement s => exact (draws_everywhere P fuel).run s given m from_
  | expression e => exact (draws_everywhere P fuel).eval e given m from_

theorem DrawsOn.leaves (h : step.DrawsOn P fuel m) (from_ : m.From P)
    (left : step.leaves? fuel m = some m') : m'.From P := by
  cases step with
  | source text =>
    simp only [leaves?, run] at left
    cases compiled : compile text with
    | error e =>
      simp only [compiled] at left
      cases left
      exact from_
    | ok p =>
      simp only [compiled, Option.map_map] at left
      obtain ⟨⟨r, m''⟩, ran, rfl⟩ := Option.map_eq_some_iff.mp left
      exact (h p compiled).left ran
  | program p | statement s | expression e =>
    obtain ⟨⟨r, m''⟩, ran, rfl⟩ := Option.map_eq_some_iff.mp left
    exact h.left ran

end Session.Step

theorem nonneg_of_agree {ts : List Token} {es : List Expr} {n : Int64}
    (agree : List.Forall₂ Token.Denotes ts es) (written : Written es n) : 0 ≤ n.toInt := by
  obtain ⟨line, mem⟩ := written
  induction agree with
  | nil => cases mem
  | cons denotes _ ih =>
    obtain rfl | mem := List.mem_cons.1 mem
    · cases denotes with
      | integer _ _ _ bound => exact bound.1
    · exact ih mem

theorem Stmt.literals_of_mem {s : Stmt} {ss : List Stmt} (mem : s ∈ ss) :
    s.literals ⊆ Stmt.literalsAll ss := by
  induction ss with
  | nil => cases mem
  | cons s' ss ih =>
    obtain rfl | mem := List.mem_cons.1 mem
    · exact List.subset_append_left ..
    · exact fun e inside => List.mem_append_right _ (ih mem inside)

/-- There is no sign in an integer literal. -/
theorem Session.Step.Parsed.nonneg {step : Session.Step} {n : Int64} (h : step.Parsed)
    (written : Written step.literals n) : 0 ≤ n.toInt := by
  cases step with
  | source text =>
    simp only [literals] at written
    cases compiled : compile text with
    | error e =>
      rw [compiled] at written
      exact absurd written.choose_spec List.not_mem_nil
    | ok p =>
      rw [compiled] at written
      exact nonneg_of_agree (agree_of_parse (parse_of_compile compiled)) written
  | program p =>
    obtain ⟨text, parsed⟩ := h
    exact nonneg_of_agree (agree_of_parse parsed) written
  | statement s =>
    obtain ⟨text, p, parsed, mem⟩ := h
    obtain ⟨line, mem'⟩ := written
    exact nonneg_of_agree (agree_of_parse parsed) ⟨line, Stmt.literals_of_mem mem mem'⟩
  | expression e =>
    obtain ⟨text, read⟩ := h
    obtain ⟨us, rest, -, agree⟩ := agree_of_read read
    exact nonneg_of_agree agree written

def Session.literals (steps : List Session.Step) : List Expr :=
  steps.flatMap Session.Step.literals

/-- The machines that a session leaves after these steps, whether they failed or not. -/
inductive Machine.After : List Session.Step → Machine → Prop
  | new (scope : Scope) (callLimit : Nat) (input : Input) (sink : Sink) :
    After [] (.new scope callLimit input sink)
  | step {steps : List Session.Step} {m m' : Machine} (before : After steps m) (fuel : Nat)
    (step : Session.Step) (left : step.leaves? fuel m = some m') : After (steps ++ [step]) m'

theorem Session.literals_append (steps steps' : List Session.Step) :
    literals (steps ++ steps') = literals steps ++ literals steps' :=
  List.flatMap_append

/-- The next step draws on the literals so far and on its own. -/
theorem Machine.From.next {steps : List Session.Step} {m : Machine}
    (from_ : m.From (Written (Session.literals steps))) (fuel : Nat) (step : Session.Step) :
    m.From (Written (Session.literals (steps ++ [step]))) ∧
      step.DrawsOn (Written (Session.literals (steps ++ [step]))) fuel m := by
  have grown := from_.mono fun n ⟨line, mem⟩ =>
    (⟨line, Session.literals_append steps [step] ▸ List.mem_append_left _ mem⟩ :
      Written (Session.literals (steps ++ [step])) n)
  refine ⟨grown, Session.Step.drawsOn fuel (fun n ⟨line, mem⟩ => ⟨line, ?_⟩) grown⟩
  rw [Session.literals_append]
  exact List.mem_append_right _ (List.mem_flatMap_of_mem (List.mem_singleton_self step) mem)

theorem Machine.After.from {steps : List Session.Step} {m : Machine} (h : m.After steps) :
    m.From (Written (Session.literals steps)) := by
  induction h with
  | new => exact ⟨⟨nofun, nofun⟩, nofun⟩
  | step _ fuel step left ih =>
    obtain ⟨grown, draws⟩ := ih.next fuel step
    exact draws.leaves grown left

/-- No integer is computed.  Those of a session, in its frames, as results, as arguments and
in its errors, are literals of the trees that it has run, and not negative if these come from
sources.  Operators give none at all. -/
theorem integers_are_literals :
    (∀ P fuel, DrawsEverywhere P fuel) ∧
    (∀ steps (m : Machine), m.After steps → m.From (Written (Session.literals steps)) ∧
      ∀ fuel (step : Session.Step),
        step.DrawsOn (Written (Session.literals (steps ++ [step]))) fuel m) ∧
    (∀ steps : List Session.Step, (∀ step ∈ steps, step.Parsed) →
      ∀ n, Written (Session.literals steps) n → 0 ≤ n.toInt) ∧
    ∀ (op : Operator) lhs rhs, op.Answers lhs rhs (op.apply lhs rhs) := by
  refine ⟨draws_everywhere, fun steps m after => ⟨after.from, fun fuel step => ?_⟩,
    fun steps parsed n written => ?_, Operator.apply_answers⟩
  · exact (after.from.next fuel step).2
  · obtain ⟨line, mem⟩ := written
    obtain ⟨step, mem, here⟩ := List.mem_flatMap.1 mem
    exact (parsed step mem).nonneg ⟨line, here⟩

/-- A source that fails after its declaration, and the variable asked for afterwards. -/
theorem integers_are_literals_seven :
    let source := "tanımla x tür tamsayı başlangıç 7$ yazdır(x - doğru)$"
    let steps : List Session.Step := [.source source]
    let e : RuntimeError := ⟨.illegalOperation .subtract (.integer 7) (.boolean true), 1⟩
    let x : Session.Step := .expression (.var 1 "x")
    ∃ m m' : Machine, run 8 source (.new .lexical defaultCallLimit ⟨[]⟩ {}) =
        some (.error (.runtime e), m) ∧ m.After steps ∧
      m.From (Written (Session.literals steps)) ∧
      Expr.eval 1 (.var 1 "x") m = some (.ok (.integer 7), m') ∧
      x.DrawsOn (Written (Session.literals (steps ++ [x]))) 1 m ∧
      (∀ step ∈ steps, step.Parsed) ∧
      ∀ n, Written (Session.literals steps) n → 0 ≤ n.toInt := by
  intro source steps e x
  have tokens : tokenize source = [⟨.keyword .declare, "tanımla", 1⟩, ⟨.name, "x", 1⟩,
      ⟨.keyword .typed, "tür", 1⟩, ⟨.keyword (.dataType .integer), "tamsayı", 1⟩,
      ⟨.keyword .initially, "başlangıç", 1⟩, ⟨.integer, "7", 1⟩, ⟨.mark .dollar, "$", 1⟩,
      ⟨.keyword .print, "yazdır", 1⟩, ⟨.mark .leftParen, "(", 1⟩, ⟨.name, "x", 1⟩,
      ⟨.operator .subtract, "-", 1⟩, ⟨.keyword (.truth true), "doğru", 1⟩,
      ⟨.mark .rightParen, ")", 1⟩, ⟨.mark .dollar, "$", 1⟩, ⟨.endOfFile, "", 1⟩] := by
    decide +kernel
  have compiled : compile source = .ok ⟨[.declare 1 "x" .integer (.literal 1 (.integer 7)),
      .print 1 (.binary 1 .subtract (.var 1 "x") (.literal 1 (.boolean true)))]⟩ := by
    rw [compile, tokens]
    with_unfolding_all rfl
  let new := Machine.new .lexical defaultCallLimit ⟨[]⟩ {}
  let m := { new.flushed with environment := new.environment.define "x" (.integer 7) }
  have ran : run 8 source new = some (.error (.runtime e), m) := by
    rw [run, compiled]
    rfl
  have after : m.After steps := .step (.new _ _ _ _) 8 (.source source) (by
    rw [Session.Step.leaves?, ran]
    rfl)
  have parsed : ∀ step ∈ steps, step.Parsed := by
    intro step mem
    rw [List.mem_singleton.1 mem]
    trivial
  obtain ⟨-, sessions, sources, -⟩ := integers_are_literals
  obtain ⟨kept, next⟩ := sessions steps m after
  exact ⟨m, m, ran, after, kept, rfl, next 1 x, parsed, sources steps parsed⟩

end Betik
