/-
What the deeds of a trace do to the world.

A run reaches the sink and the input by what its trace tells and in no other way: at each
moment they are what the deeds before it have made of them.  So what was printed is what
the trace says was written, and what was read is what it says was answered.  This is
`partwise_accounts`.
-/
import Betik.Proofs.Trace.Basic

namespace Betik

/-- The part of a machine that others than the program know of. -/
def Machine.world (m : Machine) : Sink × Input :=
  (m.sink, m.input)

def Deed.act : Deed → Sink × Input → Sink × Input
  | statement _, world | call .., world => world
  | write _ text, (sink, input) => ((sink.write text).2, input)
  | flush _, (sink, input) => (sink.flush.2, input)
  | answer .., (sink, input) => (sink, input.readLine.2)

def worldAfter (moments : List Moment) (world : Sink × Input) : Sink × Input :=
  moments.foldl (fun world mo => mo.deed.act world) world

@[simp] theorem worldAfter_nil (world : Sink × Input) : worldAfter [] world = world := rfl

@[simp] theorem worldAfter_cons (mo : Moment) (moments : List Moment) (world : Sink × Input) :
    worldAfter (mo :: moments) world = worldAfter moments (mo.deed.act world) := rfl

@[simp] theorem worldAfter_append (before after : List Moment) (world : Sink × Input) :
    worldAfter (before ++ after) world = worldAfter after (worldAfter before world) :=
  List.foldl_append

/-- Each moment finds the world as the deeds before it have left it. -/
def Chained : Sink × Input → List Moment → Prop
  | _, [] => True
  | world, mo :: moments => mo.machine.world = world ∧ Chained (mo.deed.act world) moments

theorem chained_append {world : Sink × Input} {before after : List Moment} :
    Chained world (before ++ after) ↔
      Chained world before ∧ Chained (worldAfter before world) after := by
  induction before generalizing world with
  | nil => simp [Chained]
  | cons mo before ih => simp [Chained, ih, and_assoc]

theorem Chained.at {world : Sink × Input} {before after : List Moment} {mo : Moment}
    (h : Chained world (before ++ mo :: after)) :
    mo.machine.world = worldAfter before world :=
  (chained_append.1 h).2.1

structure Later (world world' : Sink × Input) : Prop where
  written : ∃ more, world'.1.written = world.1.written ++ more
  read : ∃ used, world.2.unread = used ++ world'.2.unread

theorem Later.refl (world : Sink × Input) : Later world world :=
  ⟨⟨.empty, ByteArray.append_empty.symm⟩, [], rfl⟩

theorem Later.trans {first second third : Sink × Input} (h : Later first second)
    (k : Later second third) : Later first third := by
  obtain ⟨⟨more, written⟩, used, read⟩ := h
  obtain ⟨⟨more', written'⟩, used', read'⟩ := k
  refine ⟨⟨more ++ more', ?_⟩, used ++ used', ?_⟩
  · rw [written', written, ByteArray.append_assoc]
  · rw [read, read', List.append_assoc]

/-- A deed takes back nothing that was written, and nothing that was read. -/
theorem later_act (deed : Deed) (world : Sink × Input) : Later world (deed.act world) := by
  cases deed with
  | statement | call => exact .refl world
  | write line text => exact ⟨⟨_, rfl⟩, [], rfl⟩
  | flush line => exact ⟨⟨.empty, ByteArray.append_empty.symm⟩, [], rfl⟩
  | answer =>
    refine ⟨⟨.empty, ByteArray.append_empty.symm⟩, (Input.splitLine world.2.unread).1, ?_⟩
    rw [Deed.act, Input.readLine_rest, Input.splitLine_append]

theorem later_worldAfter (moments : List Moment) (world : Sink × Input) :
    Later world (worldAfter moments world) := by
  induction moments generalizing world with
  | nil => exact .refl world
  | cons mo moments ih => exact (later_act mo.deed world).trans (ih _)

/-- A prompt that turns to the input gives what the input says. -/
def Moment.Truthful (mo : Moment) : Prop :=
  ∀ line result, mo.deed = .answer line result →
    ∃ m, Action.takeAnswer line mo.machine = some (result, m)

namespace Trace

variable {α β : Type}

/-- The trace tells of machines that the action comes through, and all that happens to
their sinks and inputs. -/
structure Accounts (a : Action α) (t : Trace) : Prop where
  passed : ∀ m, ∀ mo ∈ t m, a.passes m mo.machine
  chained : ∀ m, Chained m.world (t m)
  ends : ∀ m r m', a.run m = some (r, m') → m'.world = worldAfter (t m) m.world
  truthful : ∀ m, ∀ mo ∈ t m, mo.Truthful

/-- A step that is not told leaves the world alone. -/
theorem accounts_step {f : Machine → Except RuntimeError α × Machine}
    (h : ∀ m, (f m).2.world = m.world) : Accounts (.step f) silent where
  passed _ _ mem := nomatch mem
  chained _ := trivial
  ends m r m' ran := by
    injection ran with ran
    rw [← h m, ran]
    rfl
  truthful _ _ mem := nomatch mem

theorem accounts_say (result : Except RuntimeError α) :
    Accounts (.step fun m => (result, m)) silent :=
  accounts_step fun _ => rfl

/-- A moment of two actions in a row is one of the first, or one of the second on the
machine that the first leaves. -/
theorem mem_andThen {t : Trace} {a : Action α} {u : α → Trace} {m : Machine} {mo : Moment} :
    mo ∈ t.andThen a u m ↔
      mo ∈ t m ∨ ∃ value m₁, a m = some (.ok value, m₁) ∧ mo ∈ u value m₁ := by
  match first : a m with
  | none => simp [andThen_of_none first]
  | some (.error e, m₁) => simp [andThen_of_error first]
  | some (.ok value, m₁) =>
    rw [andThen_of_ok first, List.mem_append]
    refine or_congr_right ⟨fun mem => ⟨value, m₁, rfl, mem⟩, ?_⟩
    rintro ⟨_, _, same, mem⟩
    cases same
    exact mem

theorem Accounts.bind {a : Action α} {f : α → Action β} {t : Trace} {u : α → Trace}
    (first : Accounts a t) (second : ∀ value, Accounts (f value) (u value)) :
    Accounts (a >>= f) (t.andThen a u) where
  passed m mo mem := by
    rcases mem_andThen.1 mem with mem | ⟨value, m₁, ran, mem⟩
    · exact .inl (first.passed m mo mem)
    · exact .inr ⟨value, m₁, ran, (second value).passed m₁ mo mem⟩
  chained m := by
    match ran : a m with
    | none =>
      rw [andThen_of_none ran]
      exact first.chained m
    | some (.error e, m₁) =>
      rw [andThen_of_error ran]
      exact first.chained m
    | some (.ok value, m₁) =>
      rw [andThen_of_ok ran, chained_append, ← first.ends m _ m₁ ran]
      exact ⟨first.chained m, (second value).chained m₁⟩
  ends m r m' ran := by
    obtain ⟨e, failed, -⟩ | ⟨value, m₁, done, ran⟩ := Action.bind_ended ran
    · rw [andThen_of_error failed]
      exact first.ends m _ m' failed
    · rw [andThen_of_ok done, worldAfter_append, ← first.ends m _ m₁ done]
      exact (second value).ends m₁ r m' ran
  truthful m mo mem := by
    rcases mem_andThen.1 mem with mem | ⟨value, m₁, -, mem⟩
    · exact first.truthful m mo mem
    · exact (second value).truthful m₁ mo mem

/-- A deed that does nothing to the world and is not an answer. -/
theorem Accounts.mark {a : Action α} {t : Trace} (h : Accounts a t) {deed : Deed}
    (idle : ∀ world, deed.act world = world) (other : ∀ line result, deed ≠ .answer line result) :
    Accounts a (t.mark deed) where
  passed m mo mem := by
    rcases mem_mark.1 mem with rfl | mem
    · exact a.passes_start m
    · exact h.passed m mo mem
  chained m := ⟨rfl, by rw [idle]; exact h.chained m⟩
  ends m r m' ran := by
    rw [Trace.mark, worldAfter_cons, idle]
    exact h.ends m r m' ran
  truthful m mo mem := by
    rcases mem_mark.1 mem with rfl | mem
    · exact fun line result same => absurd same (other line result)
    · exact h.truthful m mo mem

theorem Accounts.within {a : Action α} {t : Trace} (h : Accounts a t)
    {enter leave : Machine → Machine} (entered : ∀ m, (enter m).world = m.world)
    (left : ∀ m, (leave m).world = m.world) :
    Accounts (.within enter leave a) fun m => t (enter m) where
  passed m mo mem := .inr (.inl (h.passed (enter m) mo mem))
  chained m := by
    rw [← entered m]
    exact h.chained (enter m)
  ends m r m' ran := by
    obtain ⟨m₁, inside, rfl⟩ := Action.within_ended ran
    rw [left, ← entered m]
    exact h.ends (enter m) r m₁ inside
  truthful m mo mem := h.truthful (enter m) mo mem

/-- Something is asked of the machine first. -/
theorem Accounts.ask {f : Machine → β} {g : β → Action α} {t : β → Trace}
    (h : ∀ answer, Accounts (g answer) (t answer)) :
    Accounts (Action.ask f >>= g) (asking f t) where
  passed m mo mem := .inr ⟨f m, m, rfl, (h (f m)).passed m mo mem⟩
  chained m := (h (f m)).chained m
  ends m := (h (f m)).ends m
  truthful m := (h (f m)).truthful m

/-- A step that is told by one deed, and no answer. -/
theorem accounts_only {f : Machine → Except RuntimeError α × Machine} {deed : Deed}
    (h : ∀ m, (f m).2.world = deed.act m.world)
    (other : ∀ line result, deed ≠ .answer line result) : Accounts (.step f) (only deed) where
  passed m mo mem := by
    cases List.mem_singleton.1 mem
    exact .inl rfl
  chained _ := ⟨rfl, trivial⟩
  ends m r m' ran := by
    injection ran with ran
    have here := h m
    rw [ran] at here
    exact here
  truthful m mo mem line result same := by
    cases List.mem_singleton.1 mem
    exact absurd same (other line result)

theorem accounts_write (line : Nat) (text : String) :
    Accounts (.write line text) (only (.write line text)) :=
  accounts_only (fun _ => rfl) nofun

theorem accounts_flush (line : Nat) : Accounts (.flush line) (only (.flush line)) :=
  accounts_only (fun _ => rfl) nofun

theorem mem_thenFlush {t : Trace} {a : Action α} {line : Nat} {m : Machine} {mo : Moment} :
    mo ∈ t.thenFlush line a m ↔
      mo ∈ t m ∨ ∃ r m₁, a m = some (r, m₁) ∧ mo = ⟨m₁, .flush line⟩ := by
  match first : a m with
  | none => simp [thenFlush_of_none first]
  | some (r, m₁) =>
    rw [thenFlush_of_some first, List.mem_append, List.mem_singleton]
    refine or_congr_right ⟨fun last => ⟨r, m₁, rfl, last⟩, ?_⟩
    rintro ⟨_, _, same, last⟩
    cases same
    exact last

theorem Accounts.thenFlush {a : Action α} {t : Trace} (h : Accounts a t) (line : Nat) :
    Accounts (.thenFlush line a) (t.thenFlush line a) where
  passed m mo mem := by
    obtain mem | ⟨r, m₁, first, rfl⟩ := mem_thenFlush.1 mem
    · exact .inl (h.passed m mo mem)
    · exact .inl (a.passes_end m r m₁ first)
  chained m := by
    match first : a m with
    | none =>
      rw [thenFlush_of_none first]
      exact h.chained m
    | some (r, m₁) =>
      rw [thenFlush_of_some first, chained_append, ← h.ends m r m₁ first]
      exact ⟨h.chained m, rfl, trivial⟩
  ends m r m' ran := by
    obtain ⟨r₁, m₁, first, -, rfl⟩ := Action.thenFlush_ended ran
    rw [thenFlush_of_some first, worldAfter_append, ← h.ends m r₁ m₁ first]
    rfl
  truthful m mo mem := by
    obtain mem | ⟨r, m₁, -, rfl⟩ := mem_thenFlush.1 mem
    · exact h.truthful m mo mem
    · exact nofun

def answerTo (line : Nat) : Input.Line → Except RuntimeError Value
  | .text s => .ok (.text s)
  | .malformed => .error ⟨.io .invalidText, line⟩
  | .closed => .error ⟨.inputClosed, line⟩

theorem takeAnswer_run (line : Nat) (m : Machine) :
    Action.takeAnswer line m =
      some (answerTo line m.input.readLine.1, { m with input := m.input.readLine.2 }) := by
  simp only [Action.takeAnswer, Action.readLine, Bind.bind, Action.andThen, Action.step]
  cases m.input.readLine.1 <;> rfl

theorem outcome_takeAnswer (line : Nat) (m : Machine) :
    outcome (.answer line) (.takeAnswer line) m =
      [⟨m, .answer line (answerTo line m.input.readLine.1)⟩] := by
  rw [outcome, takeAnswer_run]

theorem accounts_takeAnswer (line : Nat) :
    Accounts (.takeAnswer line) (outcome (.answer line) (.takeAnswer line)) where
  passed m mo mem := by
    rw [outcome_takeAnswer] at mem
    cases List.mem_singleton.1 mem
    exact (Action.takeAnswer line).passes_start m
  chained m := by
    rw [outcome_takeAnswer]
    exact ⟨rfl, trivial⟩
  ends m r m' ran := by
    rw [takeAnswer_run] at ran
    cases ran
    rw [outcome_takeAnswer]
    rfl
  truthful m mo mem line' result same := by
    rw [outcome_takeAnswer] at mem
    cases List.mem_singleton.1 mem
    cases same
    exact ⟨_, takeAnswer_run line m⟩

theorem Accounts.withFunction {use : Function → Action α} {t : Function → Trace}
    (h : ∀ f, Accounts (use f) (t f)) (line : Nat) (name : String) :
    Accounts (.withFunction line name use) (withFunction name t) := by
  refine .ask fun found => ?_
  cases found with
  | none => exact accounts_say _
  | some f => exact h f

theorem Accounts.insideCall {a : Action α} {t : Trace} (h : Accounts a t) (line : Nat) :
    Accounts (.insideCall line a) t.insideCall :=
  .ask fun _ => holds_ite _ (accounts_say _) h

theorem Accounts.inCall {a : Action α} {t : Trace} (h : Accounts a t) (line : Nat) :
    Accounts (.inCall line a) t.inCall := by
  refine .ask fun (depth, limit) => holds_ite _ (accounts_say _) ?_
  exact h.within (fun _ => rfl) fun _ => rfl

theorem accounts_outOfFuel : Accounts (α := α) .outOfFuel silent where
  passed _ _ mem := nomatch mem
  chained _ := trivial
  ends _ _ _ ran := nomatch ran
  truthful _ _ mem := nomatch mem

theorem partwise_accounts : Partwise fun _ a t => Accounts a t where
  outOfFuel := accounts_outOfFuel
  say result _ := accounts_say result
  lookUp line name := accounts_step fun m => by cases m.environment.get? name <;> rfl
  define _ _ := accounts_step fun _ => rfl
  assign line name value := accounts_step fun m => by
    cases m.environment.assign? name value <;> rfl
  defineFunction _ _ := accounts_step fun _ => rfl
  write := accounts_write
  flush := accounts_flush
  takeAnswer := accounts_takeAnswer
  bind := Accounts.bind
  statement _ h := h.mark (fun _ => rfl) nofun
  inBlock h := h.within (fun _ => rfl) fun _ => rfl
  insideCall line h := h.insideCall line
  withFunction line name h := .withFunction h line name
  call _ _ _ h := h.mark (fun _ => rfl) nofun
  inCall line h := h.inCall line

end Trace

/-! ## Sessions -/

/-- A session that has led from `m` to a machine, and all that was done in it. -/
inductive Session.Told (m : Machine) : List Moment → Machine → Prop
  | start : Told m [] m
  | step {told : List Moment} {m₁ m₂ : Machine} (fuel : Nat) (step : Session.Step)
    (before : Told m told m₁) (left : step.leaves? fuel m₁ = some m₂) :
    Told m (told ++ step.trace fuel m₁) m₂

theorem Program.accounts_run (fuel : Nat) (p : Program) :
    Trace.Accounts (p.run fuel) (p.wholeTrace fuel) :=
  (Trace.partwise_accounts.closed.runProgram fuel p.statements).thenFlush 0

/-- A step of a session is an action, and its trace is the trace of that. -/
theorem Session.Step.accounts (fuel : Nat) (step : Session.Step) :
    ∃ (α : Type) (a : Action α), Trace.Accounts a (step.trace fuel) ∧
      ∀ m, step.leaves? fuel m = (a m).map Prod.snd := by
  have closed := Trace.partwise_accounts.closed
  cases step with
  | source text =>
    simp only [leaves?, trace, run]
    cases compile text with
    | error e => exact ⟨Unit, .done (), Trace.accounts_say (.ok ()), fun _ => rfl⟩
    | ok p =>
      refine ⟨Unit, p.run fuel, p.accounts_run fuel, fun m => ?_⟩
      rw [Option.map_map]
      rfl
  | program p => exact ⟨Unit, p.run fuel, p.accounts_run fuel, fun _ => rfl⟩
  | statement s => exact ⟨Flow, s.run fuel, (closed.everywhere fuel).run s, fun _ => rfl⟩
  | expression e => exact ⟨Value, e.eval fuel, (closed.everywhere fuel).eval e, fun _ => rfl⟩

/-- What was done in a session accounts for the machine it has led to, also if one more
step is under way. -/
theorem Session.Told.accounts {m m' : Machine} {told : List Moment} (h : Told m told m') :
    m'.world = worldAfter told m.world ∧ ∀ fuel (step : Session.Step),
      Chained m.world (told ++ step.trace fuel m') ∧
        ∀ mo ∈ told ++ step.trace fuel m', mo.Truthful := by
  induction h with
  | start =>
    refine ⟨rfl, fun fuel step => ?_⟩
    obtain ⟨_, a, accounts, -⟩ := step.accounts fuel
    exact ⟨accounts.chained m, accounts.truthful m⟩
  | @step told m₁ m₂ fuel step before left ih =>
    obtain ⟨world, done⟩ := ih
    obtain ⟨chained, truthful⟩ := done fuel step
    obtain ⟨_, a, accounts, leaves⟩ := step.accounts fuel
    rw [leaves] at left
    obtain ⟨⟨r, _⟩, ran, rfl⟩ := Option.map_eq_some_iff.mp left
    have after := accounts.ends m₁ r _ ran
    rw [world, ← worldAfter_append] at after
    refine ⟨after, fun fuel' step' => ?_⟩
    obtain ⟨_, a', accounts', -⟩ := step'.accounts fuel'
    refine ⟨?_, fun mo mem => ?_⟩
    · rw [chained_append, ← after]
      exact ⟨chained, accounts'.chained _⟩
    · rcases List.mem_append.1 mem with mem | mem
      · exact truthful mo mem
      · exact accounts'.truthful _ mo mem

end Betik
