/-
Under lexical scope a call does not depend on who calls.

Inside a call only the frames of that call and the global frame can be seen.  So
running anything there commutes with putting other frames, and other calls, between
the two: `closed_framed`.  A call in two machines that differ in nothing but such
frames therefore ends in the same way, and leaves the frames alone:
`call_isolated`.
-/
import Betik.Proofs.Machine.Stack

namespace Betik
namespace Environment

/-- The environment with more frames above the global one and more calls around its
own.  Its own bases count the new frames too. -/
def above (env : Environment) (frames : List Frame) (bases : List Nat) : Environment :=
  { env with
    locals := env.locals ++ frames
    bases := env.bases.map (· + frames.length) ++ bases }

/-- A call is running whose own frame is there, and it sees no frame of its caller. -/
structure Inside (env : Environment) : Prop where
  lexical : env.scope = .lexical
  framed : ∃ base bases, env.bases = base :: bases ∧ base < env.locals.length

variable {env env' : Environment}

theorem Inside.of_sameShape (h : env.SameShape env') (i : env.Inside) : env'.Inside := by
  obtain ⟨base, bases, hb, hlt⟩ := i.framed
  exact ⟨h.scope.trans i.lexical, base, bases, h.bases.trans hb, h.frames ▸ hlt⟩

theorem Inside.enterBlock (i : env.Inside) : env.enterBlock.Inside := by
  obtain ⟨base, bases, hb, hlt⟩ := i.framed
  exact ⟨i.lexical, base, bases, hb, Nat.lt_succ_of_lt hlt⟩

theorem inside_enterCall (h : env.scope = .lexical) : env.enterCall.Inside :=
  ⟨h, _, _, rfl, Nat.lt_succ_self _⟩

theorem Inside.locals_ne_nil (i : env.Inside) : env.locals ≠ [] := by
  obtain ⟨base, bases, -, hlt⟩ := i.framed
  intro h
  simp [h] at hlt

variable (frames : List Frame) (bases : List Nat)

/-- The new frames cannot be seen: they lie below the base of the running call. -/
theorem Inside.seen_above (i : env.Inside) : (env.above frames bases).seen = env.seen := by
  obtain ⟨base, rest, hb, hlt⟩ := i.framed
  have hle : env.locals.length - base ≤ env.locals.length := Nat.sub_le _ _
  simp [seen, above, i.lexical, hb, Nat.add_sub_add_right, List.take_append_of_le_length hle]

theorem Inside.hidden_above (i : env.Inside) :
    (env.above frames bases).hidden = env.hidden ++ frames := by
  obtain ⟨base, rest, hb, hlt⟩ := i.framed
  have hle : env.locals.length - base ≤ env.locals.length := Nat.sub_le _ _
  simp [hidden, above, i.lexical, hb, Nat.add_sub_add_right, List.drop_append_of_le_length hle]

theorem Inside.get?_above (i : env.Inside) (name : String) :
    (env.above frames bases).get? name = env.get? name := by
  simp only [get?, i.seen_above]
  rfl

theorem Inside.define_above (i : env.Inside) (name : String) (value : Value) :
    (env.above frames bases).define name value = (env.define name value).above frames bases := by
  cases h : env.locals with
  | nil => exact absurd h i.locals_ne_nil
  | cons f fs => simp [define, above, h]

theorem Inside.assign?_above (i : env.Inside) (name : String) (value : Value) :
    (env.above frames bases).assign? name value =
      (env.assign? name value).map (·.above frames bases) := by
  simp only [assign?, i.seen_above, i.hidden_above]
  cases assignFirst? name value env.seen with
  | some fs => simp [above]
  | none =>
    by_cases h : env.globals.contains name <;> simp [above, h]

theorem enterCall_above : (env.above frames bases).enterCall =
    env.enterCall.above frames bases := by
  simp [enterCall, above]

theorem Inside.leaveBlock_above (i : env.Inside) :
    (env.above frames bases).leaveBlock = env.leaveBlock.above frames bases := by
  cases h : env.locals with
  | nil => exact absurd h i.locals_ne_nil
  | cons f fs => simp [leaveBlock, above, h]

theorem Inside.leaveCall_above (i : env.Inside) :
    (env.above frames bases).leaveCall = env.leaveCall.above frames bases := by
  obtain ⟨base, rest, hb, hlt⟩ := i.framed
  have hle : env.locals.length - base ≤ env.locals.length := Nat.sub_le _ _
  simp [leaveCall, above, hb, Nat.add_sub_add_right, List.drop_append_of_le_length hle]

end Environment

def Machine.above (m : Machine) (frames : List Frame) (bases : List Nat) : Machine :=
  { m with environment := m.environment.above frames bases }

namespace Action

variable {α β : Type}

def above (frames : List Frame) (bases : List Nat) :
    Except RuntimeError α × Machine → Except RuntimeError α × Machine
  | (result, m) => (result, m.above frames bases)

/-- Started with other frames under those of the running call, the action does what
it does without them. -/
def FramedOn (a : Action α) (m : Machine) : Prop :=
  ∀ frames bases, a.run (m.above frames bases) = (a.run m).map (above frames bases)

/-- The property for the induction.  That the stack is restored is part of it, since
the second of two actions starts on what the first leaves. -/
structure Framed (a : Action α) : Prop where
  disciplined : a.Disciplined
  framed : ∀ m, m.environment.Inside → a.FramedOn m

theorem framedOn_step {f : Machine → Except RuntimeError α × Machine} {m : Machine}
    (h : ∀ frames bases, f (m.above frames bases) = above frames bases (f m)) :
    (step f).FramedOn m :=
  fun frames bases => congrArg some (h frames bases)

theorem FramedOn.bind {a : Action α} {f : α → Action β} {m : Machine} (ha : a.FramedOn m)
    (hf : ∀ value m', a.run m = some (.ok value, m') → (f value).FramedOn m') :
    (a >>= f).FramedOn m := by
  intro frames bases
  simp only [Bind.bind, andThen, ha frames bases]
  cases run : a.run m with
  | none => rfl
  | some outcome =>
    obtain ⟨result, m'⟩ := outcome
    cases result with
    | error e => rfl
    | ok value => exact hf value m' run frames bases

theorem Framed.bind {a : Action α} {f : α → Action β} (ha : a.Framed)
    (hf : ∀ value, (f value).Framed) : (a >>= f).Framed where
  disciplined := ha.disciplined.bind fun value => (hf value).disciplined
  framed m i := (ha.framed m i).bind fun value m' run =>
    (hf value).framed m' (i.of_sameShape ((ha.disciplined m).restores _ _ run).shape)

theorem FramedOn.ask {f : Machine → β} {g : β → Action α} {m : Machine}
    (same : ∀ frames bases, f (m.above frames bases) = f m) (h : (g (f m)).FramedOn m) :
    (ask f >>= g).FramedOn m := by
  refine FramedOn.bind (framedOn_step fun frames bases => ?_) fun value m' run => ?_
  · simp [above, same]
  · cases run
    exact h

theorem FramedOn.within {a : Action α} {enter leave : Machine → Machine} {m : Machine}
    (ha : a.FramedOn (enter m))
    (entering : ∀ frames bases, enter (m.above frames bases) = (enter m).above frames bases)
    (leaving : ∀ result m', a.run (enter m) = some (result, m') → ∀ frames bases,
      leave (m'.above frames bases) = (leave m').above frames bases) :
    (within enter leave a).FramedOn m := by
  intro frames bases
  simp only [Action.within, entering, ha frames bases]
  cases run : a.run (enter m) with
  | none => rfl
  | some outcome => simp [above, leaving _ _ run]

theorem Framed.inBlock {a : Action α} (h : a.Framed) : (inBlock a).Framed where
  disciplined := closed_disciplined.inBlock h.disciplined
  framed m i := by
    refine (h.framed _ i.enterBlock).within (fun _ _ => rfl) fun result m' run frames bases => ?_
    have inside : m'.environment.Inside :=
      i.enterBlock.of_sameShape ((h.disciplined _).restores _ _ run).shape
    simp [Machine.leaveBlock, Machine.above, inside.leaveBlock_above]

/-- A call may be made from anywhere: it is inside of itself. -/
theorem Framed.inCall {a : Action α} (h : a.Framed) (line : Nat) {m : Machine}
    (lexical : m.environment.scope = .lexical) : (inCall line a).FramedOn m := by
  refine .ask (fun _ _ => rfl) ?_
  have inside : m.enterCall.environment.Inside := Environment.inside_enterCall lexical
  by_cases full : m.callLimit ≤ m.callDepth
  · simp only [full, if_true]
    exact framedOn_step fun _ _ => rfl
  · simp only [full, if_false]
    refine (h.framed _ inside).within (fun frames bases => ?_) fun result m' run frames bases => ?_
    · simp [Machine.enterCall, Machine.above, Environment.enterCall_above]
    · have inside' := inside.of_sameShape ((h.disciplined _).restores _ _ run).shape
      simp [Machine.leaveCall, Machine.above, inside'.leaveCall_above]

theorem framed_lookUp (line : Nat) (name : String) : (lookUp line name).Framed where
  disciplined := disciplined_lookUp line name
  framed m i := framedOn_step fun frames bases => by
    simp only [Machine.above, i.get?_above]
    cases m.environment.get? name <;> rfl

theorem framed_assign (line : Nat) (name : String) (value : Value) :
    (assign line name value).Framed where
  disciplined := disciplined_assign line name value
  framed m i := framedOn_step fun frames bases => by
    simp only [Machine.above, i.assign?_above]
    cases m.environment.assign? name value <;> rfl

theorem framed_readLine (line : Nat) : (readLine line).Framed where
  disciplined := disciplined_readLine line
  framed m _ := framedOn_step fun frames bases => by
    simp only [Machine.above]
    split <;> rfl

theorem Framed.withFunction {use : Function → Action α} (h : ∀ f, (use f).Framed) (line : Nat)
    (name : String) : (withFunction line name use).Framed where
  disciplined := .withFunction (fun f => (h f).disciplined) line name
  framed m i := by
    refine .ask (fun _ _ => rfl) ?_
    cases m.functions.get? name with
    | none => exact framedOn_step fun _ _ => rfl
    | some f => exact (h f).framed m i

theorem Framed.insideCall {a : Action α} (h : a.Framed) (line : Nat) :
    (insideCall line a).Framed where
  disciplined := h.disciplined.insideCall line
  framed m i := by
    refine .ask (fun _ _ => rfl) ?_
    split
    · exact framedOn_step fun _ _ => rfl
    · exact h.framed m i

theorem closed_framed : Closed fun _ a => a.Framed where
  outOfFuel := ⟨closed_disciplined.outOfFuel, fun _ _ _ _ => rfl⟩
  say _ := ⟨closed_disciplined.say _, fun _ _ => framedOn_step fun _ _ => rfl⟩
  lookUp := framed_lookUp
  define name value :=
    ⟨closed_disciplined.define name value, fun m i => framedOn_step fun frames bases => by
      simp [Machine.above, above, i.define_above]⟩
  assign := framed_assign
  defineFunction name f :=
    ⟨closed_disciplined.defineFunction name f, fun _ _ => framedOn_step fun _ _ => rfl⟩
  write line text := ⟨closed_disciplined.write line text, fun _ _ => framedOn_step fun _ _ => rfl⟩
  flush line := ⟨closed_disciplined.flush line, fun _ _ => framedOn_step fun _ _ => rfl⟩
  readLine := framed_readLine
  bind := Framed.bind
  withFunction line name h := .withFunction h line name
  inBlock := Framed.inBlock
  inCall line h := ⟨h.disciplined.inCall line, fun _ i => h.inCall line i.lexical⟩
  insideCall line h := h.insideCall line

end Action

/-- A call of a function does the same on any frames of others. -/
theorem Function.call_framedOn (fuel line : Nat) (name : String) (f : Function)
    (args : List Value) {m : Machine} (lexical : m.environment.scope = .lexical) :
    (f.call fuel line name args).FramedOn m := by
  cases fuel with
  | zero => exact fun _ _ => rfl
  | succ fuel =>
    simp only [Function.call]
    split
    · exact Action.framedOn_step fun _ _ => rfl
    · have body : (do
          Action.defineAll (f.params.zip args)
          Stmt.runBlock fuel f.body).Framed :=
        Action.closed_framed.bind (Action.closed_framed.defineAll _) fun _ =>
          (Action.closed_framed.everywhere fuel).runBlock _
      exact (body.inCall line lexical).bind fun _ _ _ => Action.framedOn_step fun _ _ => rfl

namespace Machine

/-- Two machines that differ in nothing but the frames above the global one and the
places where calls begin among these. -/
structure AgreeOutside (m₁ m₂ : Machine) : Prop where
  globals : m₁.environment.globals = m₂.environment.globals
  functions : m₁.functions = m₂.functions
  input : m₁.input = m₂.input
  sink : m₁.sink = m₂.sink
  callDepth : m₁.callDepth = m₂.callDepth
  callLimit : m₁.callLimit = m₂.callLimit

def outside (m : Machine) : Machine :=
  { m with environment := { m.environment with locals := [], bases := [] } }

theorem outside_above (m : Machine) :
    m.outside.above m.environment.locals m.environment.bases = m := rfl

theorem AgreeOutside.outside_eq {m₁ m₂ : Machine} (h : m₁.AgreeOutside m₂)
    (scope : m₁.environment.scope = m₂.environment.scope) : m₁.outside = m₂.outside := by
  simp [outside, h.globals, h.functions, h.input, h.sink, h.callDepth, h.callLimit, scope]

end Machine

/-- Under lexical scope a call cannot tell two machines apart that differ only in
the frames of others, and it touches none of these frames: it ends on both machines
or on neither, with the same value or error and the same effects. -/
theorem call_isolated (fuel line : Nat) (name : String) (f : Function) (args : List Value)
    {m₁ m₂ m₁' : Machine} {result : Except RuntimeError Value}
    (lexical₁ : m₁.environment.scope = .lexical) (lexical₂ : m₂.environment.scope = .lexical)
    (agree : m₁.AgreeOutside m₂) (run : f.call fuel line name args m₁ = some (result, m₁')) :
    ∃ m₂', f.call fuel line name args m₂ = some (result, m₂') ∧ m₁'.AgreeOutside m₂' ∧
      m₁'.environment.locals = m₁.environment.locals ∧
      m₂'.environment.locals = m₂.environment.locals := by
  have framed := Function.call_framedOn fuel line name f args (m := m₁.outside) lexical₁
  have stack := (Action.closed_disciplined.everywhere fuel).call line name f args m₁.outside
  have run₁ := framed m₁.environment.locals m₁.environment.bases
  have run₂ := framed m₂.environment.locals m₂.environment.bases
  rw [m₁.outside_above, run] at run₁
  rw [agree.outside_eq (lexical₁.trans lexical₂.symm), m₂.outside_above] at run₂
  obtain ⟨⟨r, m'⟩, run', eq⟩ := Option.map_eq_some_iff.mp run₁.symm
  cases eq
  have locals : m'.environment.locals = [] :=
    List.eq_nil_of_length_eq_zero (stack.restores _ _ run').shape.frames
  rw [← agree.outside_eq (lexical₁.trans lexical₂.symm), run'] at run₂
  refine ⟨_, run₂, ⟨rfl, rfl, rfl, rfl, rfl, rfl⟩, ?_, ?_⟩
  · simp [Machine.above, Environment.above, locals]
  · simp [Machine.above, Environment.above, locals]

/-- The callers have different variables `x`, or none.  The callee sees none of
them; what it did to the global `g` before it failed stays. -/
theorem call_isolated_from_callers :
    let f : Function := ⟨["a"], [.expr 1 (.assign 1 "g" (.var 1 "a")), .ret 2 (.var 2 "x")]⟩
    let machine (locals : List Frame) (g : Value) : Machine :=
      { environment := ⟨⟨[("g", g)]⟩, locals, [0], .lexical⟩, callDepth := 1 }
    let failed : Except RuntimeError Value := .error ⟨.undefinedVariable "x", 2⟩
    let caller : List Frame := [⟨[("x", .boolean true)]⟩]
    let other : List Frame := [.empty, ⟨[("y", .null)]⟩]
    f.call 10 1 "f" [.integer 7] (machine caller .null) =
        some (failed, machine caller (.integer 7)) ∧
      ∃ m', f.call 10 1 "f" [.integer 7] (machine other .null) = some (failed, m') ∧
        (machine caller (.integer 7)).AgreeOutside m' ∧
        (machine caller (.integer 7)).environment.locals = caller ∧
        m'.environment.locals = other := by
  intro f machine failed caller other
  have run : f.call 10 1 "f" [.integer 7] (machine caller .null) =
      some (failed, machine caller (.integer 7)) := rfl
  have agree : (machine caller .null).AgreeOutside (machine other .null) :=
    ⟨rfl, rfl, rfl, rfl, rfl, rfl⟩
  exact ⟨run, call_isolated 10 1 "f" f [.integer 7] rfl rfl agree run⟩

end Betik
