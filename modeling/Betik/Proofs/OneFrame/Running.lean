/-
One frame for each call is enough.

An interpreter whose calls run the body in the frame of the parameters goes along with the
one that gives the body a block: on machines that are alike both end in the same way, if at
all, on machines that are alike.  This is one lemma for each step and one for each way of
putting actions together, and the only two that are not the same on both sides are the call
and its body (`MergesInCall`).  Outside of all calls machines that are alike are equal.
-/
import Betik.Proofs.OneFrame.Frames
import Betik.Proofs.OneFrame.Interpreter
import Betik.Proofs.Trace.CallLimit

namespace Betik
namespace Machine

def MergesTo (ks : List Nat) (m m' : Machine) : Prop :=
  ∃ env, m.environment.MergesTo ks env ∧ m' = { m with environment := env }

def called (params : Frame) (m : Machine) : Machine :=
  { m.enterCall with environment := m.environment.called params }

variable {k : Nat} {ks : List Nat} {m m' : Machine}

theorem MergesTo.nonempty (h : MergesTo ks m m') : ∃ k ks', ks = k :: ks' := by
  obtain ⟨env, merges, -⟩ := h
  exact merges.nonempty

theorem MergesTo.eq_of_outside (h : MergesTo [k] m m') : m' = m := by
  obtain ⟨env, merges, rfl⟩ := h
  rw [merges.eq_of_outside]

theorem MergesTo.sink (h : MergesTo ks m m') : m'.sink = m.sink := by
  obtain ⟨env, merges, rfl⟩ := h
  rfl

theorem MergesTo.flushed (h : MergesTo ks m m') : MergesTo ks m.flushed m'.flushed := by
  obtain ⟨env, merges, rfl⟩ := h
  exact ⟨env, merges, rfl⟩

theorem MergesTo.enterBlock (h : MergesTo (k :: ks) m m') :
    MergesTo ((k + 1) :: ks) m.enterBlock m'.enterBlock := by
  obtain ⟨env, merges, rfl⟩ := h
  exact ⟨_, merges.enterBlock, rfl⟩

theorem MergesTo.leaveBlock (h : MergesTo ((k + 1) :: ks) m m') :
    MergesTo (k :: ks) m.leaveBlock m'.leaveBlock := by
  obtain ⟨env, merges, rfl⟩ := h
  exact ⟨_, merges.leaveBlock, rfl⟩

theorem MergesTo.called (h : MergesTo ks m m') (params : Frame) :
    MergesTo (0 :: ks) (m.called params).enterBlock (m'.called params) := by
  obtain ⟨env, merges, rfl⟩ := h
  exact ⟨_, merges.called params, rfl⟩

theorem MergesTo.leaveCall (h : MergesTo (0 :: k :: ks) m m') :
    MergesTo (k :: ks) m.leaveBlock.leaveCall m'.leaveCall := by
  obtain ⟨env, merges, rfl⟩ := h
  exact ⟨_, merges.leaveCall, rfl⟩

end Machine

namespace Action

variable {α β : Type}

def SameOutcome (ks : List Nat) (out out' : Except RuntimeError α × Machine) : Prop :=
  out'.1 = out.1 ∧ out.2.MergesTo ks out'.2

/-- The second action does on machines with one frame for each call what the first does on
machines with two. -/
def MergesTo (a a' : Action α) : Prop :=
  ∀ ks m m', m.MergesTo ks m' → Option.Rel (SameOutcome ks) (a m) (a' m')

theorem mergesTo_outOfFuel : (outOfFuel : Action α).MergesTo outOfFuel :=
  fun _ _ _ _ => .none

/-- A step that has nothing to do with variables. -/
theorem mergesTo_step {f : Machine → Except RuntimeError α × Machine}
    (blind : ∀ (m : Machine) env,
      f { m with environment := env } = ((f m).1, { (f m).2 with environment := env })) :
    (step f).MergesTo (step f) := by
  rintro ks m _ ⟨env, merges, rfl⟩
  have kept : (f m).2.environment = m.environment :=
    congrArg (·.2.environment) (blind m m.environment)
  refine .some ?_
  rw [blind m env]
  exact ⟨rfl, env, kept ▸ merges, rfl⟩

theorem mergesTo_say (result : Except RuntimeError α) :
    (step fun m => (result, m)).MergesTo (step fun m => (result, m)) :=
  mergesTo_step fun _ _ => rfl

theorem mergesTo_pure (value : α) : (pure value : Action α).MergesTo (pure value) :=
  mergesTo_say (.ok value)

theorem mergesTo_readLine (line : Nat) : (readLine line).MergesTo (readLine line) :=
  mergesTo_step fun m env => by
    simp only
    split <;> rfl

theorem mergesTo_lookUp (line : Nat) (name : String) :
    (lookUp line name).MergesTo (lookUp line name) := by
  rintro ks m _ ⟨env, merges, rfl⟩
  refine .some ?_
  simp only [merges.get?]
  cases m.environment.get? name <;> exact ⟨rfl, env, merges, rfl⟩

theorem mergesTo_define (name : String) (value : Value) :
    (define name value).MergesTo (define name value) := by
  rintro ks m _ ⟨env, merges, rfl⟩
  exact .some ⟨rfl, _, merges.define name value, rfl⟩

theorem mergesTo_assign (line : Nat) (name : String) (value : Value) :
    (assign line name value).MergesTo (assign line name value) := by
  rintro ks m _ ⟨env, merges, rfl⟩
  refine .some ?_
  simp only
  have assigned := merges.assign? name value
  generalize m.environment.assign? name value = found at assigned ⊢
  generalize env.assign? name value = found' at assigned ⊢
  cases assigned with
  | none => exact ⟨rfl, env, merges, rfl⟩
  | some changed => exact ⟨rfl, _, changed, rfl⟩

theorem MergesTo.bind {a a' : Action α} {f f' : α → Action β} (first : a.MergesTo a')
    (second : ∀ value, (f value).MergesTo (f' value)) : (a >>= f).MergesTo (a' >>= f') := by
  intro ks m m' merges
  have ended := first ks m m' merges
  simp only [Bind.bind, andThen]
  generalize a.run m = out at ended ⊢
  generalize a'.run m' = out' at ended ⊢
  cases ended with
  | none => exact .none
  | @some out out' same =>
    obtain ⟨r, m₁⟩ := out
    obtain ⟨r', m₁'⟩ := out'
    obtain ⟨rfl, merges₁⟩ := same
    cases r' with
    | error e => exact .some ⟨rfl, merges₁⟩
    | ok value => exact second value ks m₁ m₁' merges₁

theorem MergesTo.ite {c : Prop} [Decidable c] {a a' b b' : Action α} (ha : a.MergesTo a')
    (hb : b.MergesTo b') : (if c then a else b).MergesTo (if c then a' else b') := by
  split <;> assumption

theorem MergesTo.withFunction {use use' : Function → Action α}
    (h : ∀ f, (use f).MergesTo (use' f)) (line : Nat) (name : String) :
    (withFunction line name use).MergesTo (withFunction line name use') := by
  refine .bind (mergesTo_step fun _ _ => rfl) fun found => ?_
  cases found with
  | none => exact mergesTo_say _
  | some f => exact h f

theorem MergesTo.insideCall {a a' : Action α} (h : a.MergesTo a') (line : Nat) :
    (insideCall line a).MergesTo (insideCall line a') :=
  .bind (mergesTo_step fun _ _ => rfl) fun _ => .ite (mergesTo_say _) h

/-- In a frame it is enough that entering it and leaving it keep machines alike. -/
theorem MergesTo.within {a a' : Action α} {enter enter' leave leave' : Machine → Machine}
    {ks ks' : List Nat} {m m' : Machine} (h : a.MergesTo a')
    (entered : (enter m).MergesTo ks' (enter' m'))
    (left : ∀ m₁ m₁', m₁.MergesTo ks' m₁' → (leave m₁).MergesTo ks (leave' m₁')) :
    Option.Rel (SameOutcome ks) (within enter leave a m) (within enter' leave' a' m') := by
  have ended := h ks' _ _ entered
  simp only [Action.within]
  generalize a.run (enter m) = out at ended ⊢
  generalize a'.run (enter' m') = out' at ended ⊢
  cases ended with
  | none => exact .none
  | some same => exact .some ⟨same.1, left _ _ same.2⟩

theorem MergesTo.thenFlush {a a' : Action α} (h : a.MergesTo a') (line : Nat) :
    (thenFlush line a).MergesTo (thenFlush line a') := by
  intro ks m m' merges
  have ended := h ks m m' merges
  simp only [Action.thenFlush]
  generalize a.run m = out at ended ⊢
  generalize a'.run m' = out' at ended ⊢
  cases ended with
  | none => exact .none
  | some same =>
    refine .some ⟨?_, same.2.flushed⟩
    simp only [same.1, same.2.sink]

theorem MergesTo.inBlock {a a' : Action α} (h : a.MergesTo a') :
    (inBlock a).MergesTo (inBlock a') := by
  intro ks m m' merges
  obtain ⟨k, ks, rfl⟩ := merges.nonempty
  exact h.within merges.enterBlock fun _ _ => .leaveBlock

/-- In a call that was just entered, with whatever parameters, the second action does the
same as the first, as far as can be seen when the call is left. -/
def MergesInCall (a a' : Action α) : Prop :=
  ∀ ks (m m' : Machine) params, m.MergesTo ks m' →
    Option.Rel (SameOutcome ks) (within (Machine.called params) Machine.leaveCall a m)
      (within (Machine.called params) Machine.leaveCall a' m')

theorem mergesInCall_outOfFuel : (outOfFuel : Action α).MergesInCall outOfFuel :=
  fun _ _ _ _ _ => .none

theorem within_within (enter leave enter' leave' : Machine → Machine) (a : Action α)
    (m : Machine) :
    within enter leave (within enter' leave' a) m =
      within (fun m => enter' (enter m)) (fun m => leave (leave' m)) a m := by
  simp only [within]
  cases a.run (enter' (enter m)) <;> rfl

/-- The block around a body makes up for the frame that it does not share with the
parameters. -/
theorem MergesTo.inBlock_inCall {a a' : Action α} (h : a.MergesTo a') :
    (Action.inBlock a).MergesInCall a' := by
  intro ks m m' params merges
  obtain ⟨k, ks, rfl⟩ := merges.nonempty
  rw [Action.inBlock, within_within]
  exact h.within (merges.called params) fun _ _ => .leaveCall

/-- A call starts with a frame that the parameters make, whatever the machine. -/
theorem defineAll_called (bindings : List (String × Value)) (frame : Frame) :
    ∃ params, ∀ m : Machine,
      defineAll bindings (m.called frame) = some (.ok (), m.called params) := by
  induction bindings generalizing frame with
  | nil => exact ⟨frame, fun _ => rfl⟩
  | cons b bs ih =>
    obtain ⟨params, bound⟩ := ih (frame.put b.1 b.2)
    exact ⟨params, fun m => bound m⟩

theorem MergesInCall.inCall {a a' : Action α} (h : a.MergesInCall a') (line : Nat)
    (bindings : List (String × Value)) :
    (Action.inCall line do defineAll bindings; a).MergesTo
      (Action.inCall line do defineAll bindings; a') := by
  intro ks m m' merges
  obtain ⟨params, bound⟩ := defineAll_called bindings .empty
  have body (b : Action α) (m : Machine) :
      within Machine.enterCall Machine.leaveCall (do defineAll bindings; b) m =
        within (Machine.called params) Machine.leaveCall b m := by
    have started : (do defineAll bindings; b) m.enterCall = b (m.called params) :=
      bind_of_ok (bound m)
    simp only [within, started]
  have depth : m'.callDepth = m.callDepth ∧ m'.callLimit = m.callLimit := by
    obtain ⟨env, -, rfl⟩ := merges
    exact ⟨rfl, rfl⟩
  by_cases full : m.callLimit ≤ m.callDepth
  · rw [inCall_of_full full, inCall_of_full (by rwa [depth.1, depth.2]), depth.2]
    exact .some ⟨rfl, merges⟩
  · rw [inCall_of_room full, inCall_of_room (by rwa [depth.1, depth.2]), body, body]
    exact h ks m m' params merges

end Action

open Betik.Action

structure Interpreter.MergesTo (i i' : Interpreter) : Prop where
  eval : ∀ e, (i.eval e).MergesTo (i'.eval e)
  evalAll : ∀ es, (i.evalAll es).MergesTo (i'.evalAll es)
  call : ∀ line name f args, (i.call line name f args).MergesTo (i'.call line name f args)
  run : ∀ s, (i.run s).MergesTo (i'.run s)
  runLoop : ∀ condition body, (i.runLoop condition body).MergesTo (i'.runLoop condition body)
  runBlock : ∀ body, (i.runBlock body).MergesTo (i'.runBlock body)
  runAll : ∀ body, (i.runAll body).MergesTo (i'.runAll body)
  runBody : ∀ body, (i.runBody body).MergesInCall (i'.runBody body)

namespace Interpreter

variable {i i' : Interpreter}

theorem MergesTo.next (h : i.MergesTo i') :
    (i.next Action.inBlock).MergesTo (i'.next id) where
  eval e := by
    cases e with
    | literal => exact mergesTo_pure _
    | binary => exact (h.eval _).bind fun _ => (h.eval _).bind fun _ => mergesTo_say _
    | logical => exact (h.eval _).bind fun _ => (h.eval _).bind fun _ => mergesTo_pure _
    | var => exact mergesTo_lookUp _ _
    | assign =>
      exact (h.eval _).bind fun _ => (mergesTo_assign _ _ _).bind fun _ => mergesTo_pure _
    | call line name args =>
      refine (h.evalAll args).bind fun values => .ite ?_ ?_
      · exact (mergesTo_step fun _ _ => rfl).bind fun _ => mergesTo_pure _
      · exact .withFunction (fun f => h.call line name f values) line name
    | prompt =>
      refine (mergesTo_step fun _ _ => rfl).bind fun _ => ?_
      refine (mergesTo_step fun _ _ => rfl).bind fun _ => ?_
      exact (mergesTo_readLine _).bind fun _ => mergesTo_pure _
  evalAll es := by
    cases es with
    | nil => exact mergesTo_pure _
    | cons => exact (h.eval _).bind fun _ => (h.evalAll _).bind fun _ => mergesTo_pure _
  call line name f args := by
    refine .ite (mergesTo_say _) (.bind ?_ fun _ => mergesTo_pure _)
    exact (h.runBody f.body).inCall line (f.params.zip args)
  run s := by
    cases s with
    | declare =>
      exact (h.eval _).bind fun _ => (mergesTo_define _ _).bind fun _ => mergesTo_pure _
    | print =>
      exact (h.eval _).bind fun _ => (mergesTo_step fun _ _ => rfl).bind fun _ => mergesTo_pure _
    | cond line condition yes no =>
      refine (h.eval _).bind fun _ => .ite (h.run yes) ?_
      cases no with
      | none => exact mergesTo_pure _
      | some no => exact h.run no
    | loop => exact h.runLoop _ _
    | function => exact (mergesTo_step fun _ _ => rfl).bind fun _ => mergesTo_pure _
    | ret => exact ((h.eval _).bind fun _ => mergesTo_pure _).insideCall _
    | block => exact h.runBlock _
    | expr => exact (h.eval _).bind fun _ => mergesTo_pure _
    | comment => exact mergesTo_pure _
  runLoop condition body := by
    refine (h.eval _).bind fun _ => .ite ?_ (mergesTo_pure _)
    refine (h.run body).bind fun flow => ?_
    cases flow with
    | normal => exact h.runLoop condition body
    | returned => exact mergesTo_pure _
  runBlock body := (h.runAll body).inBlock
  runAll body := by
    cases body with
    | nil => exact mergesTo_pure _
    | cons s ss =>
      refine (h.run s).bind fun flow => ?_
      cases flow with
      | normal => exact h.runAll ss
      | returned => exact mergesTo_pure _
  runBody body := (h.runAll body).inBlock_inCall

theorem MergesTo.runProgram (h : i.MergesTo i') (ss : List Stmt) :
    (i.runProgram ss).MergesTo (i'.runProgram ss) := by
  induction ss with
  | nil => exact mergesTo_pure _
  | cons s ss ih =>
    refine (h.run s).bind fun flow => ?_
    cases flow with
    | normal => exact ih
    | returned => exact mergesTo_say _

theorem MergesTo.program (h : i.MergesTo i') (p : Program) :
    (i.program p).MergesTo (i'.program p) :=
  (h.runProgram p.statements).thenFlush 0

end Interpreter

theorem interpreter_mergesTo (fuel : Nat) :
    (interpreter Action.inBlock fuel).MergesTo (interpreter id fuel) := by
  induction fuel with
  | zero =>
    have stuck {α : Type} : (outOfFuel : Action α).MergesTo outOfFuel := mergesTo_outOfFuel
    exact ⟨fun _ => stuck, fun _ => stuck, fun _ _ _ _ => stuck, fun _ => stuck, fun _ _ => stuck,
      fun _ => stuck, fun _ => stuck, fun _ => mergesInCall_outOfFuel⟩
  | succ fuel ih => exact ih.next

/-- Calls need no frame for the body besides that of the parameters.  The interpreter that
puts a block around each body is the one that runs programs, and the one that puts nothing
around it ends for the same fuel in the same way: with the same value or error, and with the
same machine, if no call was active at the start. -/
theorem call_in_one_frame :
    (∀ fuel (p : Program), (interpreter Action.inBlock fuel).program p = p.run fuel) ∧
    ∀ (p : Program) (m : Machine), m.environment.bases = [] → ∀ fuel,
      (interpreter id fuel).program p m = p.run fuel m := by
  refine ⟨interpreter_inBlock_program, fun p m outside fuel => ?_⟩
  have alike : m.MergesTo [m.environment.locals.length] m :=
    ⟨m.environment, Environment.mergesTo_self outside, rfl⟩
  have ended := (interpreter_mergesTo fuel).program p _ m m alike
  rw [interpreter_inBlock_program] at ended
  generalize (p.run fuel).run m = out at ended ⊢
  generalize ((interpreter id fuel).program p).run m = out' at ended ⊢
  cases ended with
  | none => rfl
  | some same => exact congrArg some (Prod.ext same.1 same.2.eq_of_outside)

/-- Of two parameters with one name the later counts, until the body declares a variable with
that name.  Then a variable of the caller is changed. -/
theorem call_in_one_frame_redeclared :
    let f : Stmt := .function 1 "f" ["a", "a"] [.print 2 (.var 2 "a"),
      .declare 3 "a" .integer (.literal 3 (.integer 3)), .expr 4 (.assign 4 "x" (.var 4 "a"))]
    let g : Stmt := .function 5 "g" [] [.declare 6 "x" .integer (.literal 6 (.integer 5)),
      .expr 7 (.call 7 "f" [.literal 7 (.integer 1), .literal 7 (.integer 2)]),
      .print 8 (.var 8 "x")]
    let p : Program := ⟨[f, g, .expr 9 (.call 9 "g" [])]⟩
    let m := Machine.new .dynamic defaultCallLimit ⟨[]⟩ {}
    m.environment.bases = [] ∧ ∃ m', (interpreter id 20).program p m = some (.ok (), m') ∧
      m'.sink.written = "2\n3\n".toUTF8 := by
  intro f g p m
  exact ⟨rfl, _, (call_in_one_frame.2 p m rfl 20).trans rfl, rfl⟩

end Betik
