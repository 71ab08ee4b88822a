/-
The stack of frames and calls.

A machine is balanced when every active call has its frame and is counted.  Running
anything on a balanced machine passes through balanced machines only, and whichever
way it ends, the frames and calls are those it started with.  This is
`stack_discipline`, which comes down to one lemma for each step and one for each way
of putting actions together.
-/
import Betik.Proofs.Machine.Closure
import Betik.Session

namespace Betik
namespace Environment

structure SameShape (env env' : Environment) : Prop where
  frames : env'.locals.length = env.locals.length
  bases : env'.bases = env.bases
  scope : env'.scope = env.scope

variable {env env' env'' : Environment}

theorem SameShape.refl (env : Environment) : env.SameShape env := ⟨rfl, rfl, rfl⟩

theorem SameShape.trans (h : env.SameShape env') (k : env'.SameShape env'') :
    env.SameShape env'' :=
  ⟨k.frames.trans h.frames, k.bases.trans h.bases, k.scope.trans h.scope⟩

theorem define_sameShape (env : Environment) (name : String) (value : Value) :
    env.SameShape (env.define name value) := by
  unfold define
  split
  · exact ⟨rfl, rfl, rfl⟩
  · rename_i h
    exact ⟨by simp [h], rfl, rfl⟩

theorem length_assignFirst? {name : String} {value : Value} {fs gs : List Frame}
    (h : assignFirst? name value fs = some gs) : gs.length = fs.length := by
  induction fs generalizing gs with
  | nil => cases h
  | cons f fs ih =>
    simp only [assignFirst?] at h
    split at h
    · cases h
      rfl
    · obtain ⟨gs', hgs', rfl⟩ := Option.map_eq_some_iff.mp h
      simp [ih hgs']

theorem assign?_sameShape {name : String} {value : Value}
    (h : env.assign? name value = some env') : env.SameShape env' := by
  unfold assign? at h
  split at h
  · rename_i frames hf
    cases h
    refine ⟨?_, rfl, rfl⟩
    rw [← env.seen_append_hidden, List.length_append, List.length_append, length_assignFirst? hf]
  · split at h
    · cases h
      exact ⟨rfl, rfl, rfl⟩
    · cases h

/-- Leaving a block undoes entering it, whatever happened to the variables. -/
theorem SameShape.leaveBlock (h : env.enterBlock.SameShape env') :
    env.SameShape env'.leaveBlock := by
  have frames : env'.locals.length = env.locals.length + 1 := h.frames
  exact ⟨by simp [Environment.leaveBlock, frames], h.bases, h.scope⟩

/-- Leaving a call undoes entering it.  The base on top is the number of frames
there were, and what is above it goes. -/
theorem SameShape.leaveCall (h : env.enterCall.SameShape env') :
    env.SameShape env'.leaveCall := by
  have frames : env'.locals.length = env.locals.length + 1 := h.frames
  have bases : env'.bases = env.locals.length :: env.bases := h.bases
  have scope : env'.scope = env.scope := h.scope
  constructor <;> simp [Environment.leaveCall, bases, frames, scope]

end Environment

namespace Machine

/-- Each active call has a frame of its own, above those of the calls around it, and
is counted, and there are no more calls than the limit allows.  The global frame is
no part of `locals`, so a call's own frame is never that one. -/
structure Balanced (m : Machine) : Prop where
  nested : m.environment.bases.Pairwise (· > ·)
  framed : ∀ base ∈ m.environment.bases, base < m.environment.locals.length
  counted : m.callDepth = m.environment.bases.length
  limited : m.callDepth ≤ m.callLimit

structure SameStack (m m' : Machine) : Prop where
  shape : m.environment.SameShape m'.environment
  depth : m'.callDepth = m.callDepth
  limit : m'.callLimit = m.callLimit

variable {m m' m'' : Machine}

theorem SameStack.refl (m : Machine) : m.SameStack m := ⟨.refl _, rfl, rfl⟩

theorem SameStack.trans (h : m.SameStack m') (k : m'.SameStack m'') : m.SameStack m'' :=
  ⟨h.shape.trans k.shape, k.depth.trans h.depth, k.limit.trans h.limit⟩

theorem SameStack.balanced (h : m.SameStack m') (b : m.Balanced) : m'.Balanced where
  nested := h.shape.bases ▸ b.nested
  framed := by rw [h.shape.bases, h.shape.frames]; exact b.framed
  counted := by rw [h.depth, h.shape.bases]; exact b.counted
  limited := by rw [h.depth, h.limit]; exact b.limited

theorem sameStack_flushed (m : Machine) : m.SameStack m.flushed := ⟨.refl _, rfl, rfl⟩

theorem SameStack.leaveBlock (h : m.enterBlock.SameStack m') : m.SameStack m'.leaveBlock :=
  ⟨h.shape.leaveBlock, h.depth, h.limit⟩

theorem SameStack.leaveCall (h : m.enterCall.SameStack m') : m.SameStack m'.leaveCall := by
  have depth : m'.callDepth = m.callDepth + 1 := h.depth
  exact ⟨h.shape.leaveCall, by simp [Machine.leaveCall, depth], h.limit⟩

theorem Balanced.enterBlock (b : m.Balanced) : m.enterBlock.Balanced where
  nested := b.nested
  framed base h := Nat.lt_succ_of_lt (b.framed base h)
  counted := b.counted
  limited := b.limited

/-- The frame of a new call lies above all that are there, so its base is above the
bases of the other calls. -/
theorem Balanced.enterCall (b : m.Balanced) (room : m.callDepth < m.callLimit) :
    m.enterCall.Balanced where
  nested := List.pairwise_cons.mpr ⟨b.framed, b.nested⟩
  framed base h := by
    rcases List.mem_cons.mp h with rfl | h
    · exact Nat.lt_succ_self _
    · exact Nat.lt_succ_of_lt (b.framed base h)
  counted := congrArg (· + 1) b.counted
  limited := room

end Machine

namespace Action

variable {α β : Type}

/-- Passes from a balanced machine through balanced ones only, and ends with the
stack it started with.  The latter does not need the balance. -/
structure DisciplinedOn (a : Action α) (m : Machine) : Prop where
  balanced : m.Balanced → ∀ s, a.passes m s → s.Balanced
  restores : ∀ r m', a.run m = some (r, m') → m.SameStack m'

def Disciplined (a : Action α) : Prop :=
  ∀ m, a.DisciplinedOn m

theorem disciplined_step {f : Machine → Except RuntimeError α × Machine}
    (h : ∀ m : Machine, m.SameStack (f m).2) : (step f).Disciplined := by
  intro m
  constructor
  · rintro b s (rfl | rfl)
    · exact b
    · exact (h m).balanced b
  · intro r m' run
    have : f m = (r, m') := Option.some.inj run
    simpa [this] using h m

theorem Disciplined.bind {a : Action α} {f : α → Action β} (ha : a.Disciplined)
    (hf : ∀ value, (f value).Disciplined) : (a >>= f).Disciplined := by
  intro m
  constructor
  · rintro b s (first | ⟨value, m', run, second⟩)
    · exact (ha m).balanced b s first
    · exact (hf value m').balanced (((ha m).restores _ _ run).balanced b) s second
  · intro r m' run
    obtain ⟨e, failed, -⟩ | ⟨value, m₁, done, run⟩ := bind_ended run
    · exact (ha m).restores _ _ failed
    · exact ((ha m).restores _ _ done).trans ((hf value m₁).restores _ _ run)

/-- What is asked of the machine is what the machine says. -/
theorem DisciplinedOn.ask {f : Machine → β} {g : β → Action α} {m : Machine}
    (h : (g (f m)).DisciplinedOn m) : (ask f >>= g).DisciplinedOn m := by
  constructor
  · rintro b s ((rfl | rfl) | ⟨value, m', run, second⟩)
    · exact b
    · exact b
    · cases run
      exact h.balanced b s second
  · exact h.restores

/-- In a frame it is enough that entering it keeps the balance and that leaving it
takes back what entering did. -/
theorem DisciplinedOn.within {a : Action α} {enter leave : Machine → Machine} {m : Machine}
    (ha : a.DisciplinedOn (enter m)) (entering : m.Balanced → (enter m).Balanced)
    (leaving : ∀ m', (enter m).SameStack m' → m.SameStack (leave m')) :
    (within enter leave a).DisciplinedOn m := by
  constructor
  · rintro b s (rfl | inside | ⟨result, m', run, rfl⟩)
    · exact b
    · exact ha.balanced (entering b) s inside
    · exact (leaving _ (ha.restores _ _ run)).balanced b
  · intro r m' run
    obtain ⟨m₁, inside, rfl⟩ := within_ended run
    exact leaving _ (ha.restores _ _ inside)

theorem disciplined_lookUp (line : Nat) (name : String) : (lookUp line name).Disciplined :=
  disciplined_step fun m => by cases m.environment.get? name <;> exact .refl m

theorem disciplined_assign (line : Nat) (name : String) (value : Value) :
    (assign line name value).Disciplined :=
  disciplined_step fun m => by
    cases h : m.environment.assign? name value with
    | none => exact .refl m
    | some env => exact ⟨Environment.assign?_sameShape h, rfl, rfl⟩

theorem disciplined_readLine (line : Nat) : (readLine line).Disciplined :=
  disciplined_step fun m => by
    simp only
    split <;> exact ⟨.refl _, rfl, rfl⟩

theorem Disciplined.withFunction {use : Function → Action α} (h : ∀ f, (use f).Disciplined)
    (line : Nat) (name : String) : (withFunction line name use).Disciplined := by
  refine fun m => .ask ?_
  cases m.functions.get? name with
  | none => exact disciplined_step .refl m
  | some f => exact h f m

/-- The limit is what leaves room for one more call. -/
theorem Disciplined.inCall {a : Action α} (h : a.Disciplined) (line : Nat) :
    (inCall line a).Disciplined := by
  refine fun m => .ask ?_
  by_cases full : m.callLimit ≤ m.callDepth
  · simp only [full, if_true]
    exact disciplined_step .refl m
  · simp only [full, if_false]
    exact (h _).within (fun b => b.enterCall (Nat.lt_of_not_le full)) fun _ => .leaveCall

theorem Disciplined.insideCall {a : Action α} (h : a.Disciplined) (line : Nat) :
    (insideCall line a).Disciplined := by
  refine fun m => .ask ?_
  split
  · exact disciplined_step .refl m
  · exact h m

theorem Disciplined.thenFlush {a : Action α} (h : a.Disciplined) (line : Nat) :
    (thenFlush line a).Disciplined := by
  intro m
  constructor
  · rintro b s (inside | ⟨r, m₁, run, rfl⟩)
    · exact (h m).balanced b s inside
    · exact (((h m).restores r m₁ run).trans m₁.sameStack_flushed).balanced b
  · intro r m' ended
    obtain ⟨r₁, m₁, run, -, rfl⟩ := thenFlush_ended ended
    exact ((h m).restores r₁ m₁ run).trans m₁.sameStack_flushed

theorem closed_disciplined : Closed fun _ a => a.Disciplined where
  outOfFuel := fun _ => ⟨fun b _ h => h ▸ b, fun _ _ h => nomatch h⟩
  say _ := disciplined_step .refl
  lookUp := disciplined_lookUp
  define _ _ := disciplined_step fun m => ⟨m.environment.define_sameShape _ _, rfl, rfl⟩
  assign := disciplined_assign
  defineFunction _ _ := disciplined_step fun _ => ⟨.refl _, rfl, rfl⟩
  write _ _ := disciplined_step fun _ => ⟨.refl _, rfl, rfl⟩
  flush _ := disciplined_step Machine.sameStack_flushed
  readLine := disciplined_readLine
  bind := Disciplined.bind
  withFunction line name h := Disciplined.withFunction h line name
  inBlock h _ := (h _).within .enterBlock fun _ => .leaveBlock
  inCall line h := h.inCall line
  insideCall line h := h.insideCall line

end Action

theorem Program.disciplined_run (fuel : Nat) (p : Program) : (p.run fuel).Disciplined :=
  (Action.closed_disciplined.runProgram fuel p.statements).thenFlush 0

/-- A step of a session, whatever it is, leaves the stack as it found it. -/
theorem Session.Step.leaves?_sameStack {fuel : Nat} {step : Session.Step} {m m' : Machine}
    (left : step.leaves? fuel m = some m') : m.SameStack m' := by
  have everywhere := Action.closed_disciplined.everywhere fuel
  have program := Program.disciplined_run fuel
  cases step with
  | source text =>
    simp only [leaves?, run] at left
    cases hc : compile text with
    | error e =>
      simp only [hc] at left
      cases left
      exact .refl m
    | ok p =>
      simp only [hc, Option.map_map] at left
      obtain ⟨⟨r, m''⟩, run, rfl⟩ := Option.map_eq_some_iff.mp left
      exact (program p m).restores _ _ run
  | program p =>
    obtain ⟨⟨r, m''⟩, run, rfl⟩ := Option.map_eq_some_iff.mp left
    exact (program p m).restores _ _ run
  | statement s =>
    obtain ⟨⟨r, m''⟩, run, rfl⟩ := Option.map_eq_some_iff.mp left
    exact (everywhere.run s m).restores _ _ run
  | expression e =>
    obtain ⟨⟨r, m''⟩, run, rfl⟩ := Option.map_eq_some_iff.mp left
    exact (everywhere.eval e m).restores _ _ run

/-- Between the steps of a session there is the global frame only, and no call. -/
theorem Machine.AtRest.stack {m : Machine} (h : m.AtRest) :
    m.environment.locals = [] ∧ m.environment.bases = [] ∧ m.callDepth = 0 := by
  induction h with
  | new => exact ⟨rfl, rfl, rfl⟩
  | step fuel step _ left ih =>
    have same := Session.Step.leaves?_sameStack left
    obtain ⟨locals, bases, depth⟩ := ih
    refine ⟨?_, same.shape.bases.trans bases, same.depth.trans depth⟩
    exact List.eq_nil_of_length_eq_zero (by rw [same.shape.frames, locals]; rfl)

/-- Running anything, on any machine and with any fuel, passes from a balanced
machine through balanced ones only and restores the stack however it ends.  So a
session is at rest between its steps. -/
theorem stack_discipline :
    (∀ fuel, Action.Everywhere (fun _ a => a.Disciplined) fuel) ∧
    (∀ fuel (p : Program), (p.run fuel).Disciplined) ∧
    (∀ m : Machine, m.AtRest →
      m.environment.locals = [] ∧ m.environment.bases = [] ∧ m.callDepth = 0) :=
  ⟨Action.closed_disciplined.everywhere, Program.disciplined_run,
    fun _ => Machine.AtRest.stack⟩

/-- A call inside of a call that fails because it is one too many. -/
theorem stack_discipline_beyond_limit :
    let m : Machine :=
      { environment := ⟨.empty, [.empty, .empty], [0], .dynamic⟩
        functions := ⟨[("f", ⟨[], []⟩)]⟩, callDepth := 1, callLimit := 1 }
    m.Balanced ∧
      ∃ m', Expr.eval 5 (.call 3 "f" []) m = some (.error ⟨.stackOverflow 1, 3⟩, m') ∧
        m.SameStack m' := by
  intro m
  refine ⟨⟨by decide, by decide, rfl, by decide⟩, m, rfl, ?_⟩
  exact ((stack_discipline.1 5).eval (.call 3 "f" []) m).restores _ m rfl

end Betik
