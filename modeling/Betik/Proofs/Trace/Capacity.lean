/-
A full sink cuts a run off.

A run is compared with the same run on a sink that takes only so many bytes.  As long as
what is printed fits, both do the same.  The first write that does not fit fails, its
error is the end of the run, and nothing is done after it: the limited run tells what the
other one tells up to that write, and no more.  This is `partwise_cuts`, and `cut_at_capacity`
is what it says of programs.
-/
import Betik.Proofs.Machine.Globals
import Betik.Proofs.Trace.World

namespace Betik

def Deed.text : Deed → String
  | write _ text => text
  | statement _ | call .. | flush _ | answer .. => ""

def output (moments : List Moment) : String :=
  String.join (moments.map (·.deed.text))

/-! ## Sinks that fail in no other way than by being full -/

theorem extract_of_size_le {bytes : ByteArray} {n : Nat} (h : bytes.size ≤ n) :
    bytes.extract 0 n = bytes := by
  refine ByteArray.ext ?_
  rw [ByteArray.data_extract]
  exact Array.extract_eq_self_of_le h

/-- What does not fit is cut off the last part. -/
theorem extract_append_of_size_le {first second : ByteArray} {n : Nat} (h : first.size ≤ n) :
    (first ++ second).extract 0 n = first ++ second.extract 0 (n - first.size) := by
  rw [ByteArray.extract_append, extract_of_size_le h, Nat.zero_sub]

theorem extract_append_of_le_size {first second : ByteArray} {n : Nat} (h : n ≤ first.size) :
    (first ++ second).extract 0 n = first.extract 0 n := by
  rw [ByteArray.extract_append, Nat.zero_sub, Nat.sub_eq_zero_of_le h, ByteArray.extract_same,
    ByteArray.append_empty]

namespace Sink

variable {n : Nat} {s : Sink} {text : String}

structure Unlimited (s : Sink) : Prop where
  capacity : s.capacity = none
  faultless : ∀ asked, s.faults asked = none

def withCapacity (n : Nat) (s : Sink) : Sink :=
  { s with capacity := some n }

theorem write_unlimited (unlimited : s.Unlimited) :
    s.write text = (.ok (), { s with
      written := s.written ++ text.toUTF8, requests := .write text :: s.requests }) := by
  have all : text.toUTF8.extract 0 text.utf8ByteSize = text.toUTF8 :=
    extract_of_size_le (Nat.le_refl _)
  simp only [write, taking, unlimited.faultless, unlimited.capacity, all]

theorem Unlimited.write (unlimited : s.Unlimited) (text : String) : (s.write text).2.Unlimited := by
  rw [write_unlimited unlimited]
  exact ⟨unlimited.capacity, unlimited.faultless⟩

theorem taking_withCapacity (unlimited : s.Unlimited) :
    (s.withCapacity n).taking text =
      (if text.utf8ByteSize ≤ n - s.written.size then .ok () else .error .sinkFull,
        n - s.written.size) := by
  have faultless : (s.withCapacity n).faults = fun _ => none := funext unlimited.faultless
  rw [taking, faultless]
  rfl

theorem write_of_fits (unlimited : s.Unlimited) (fits : (s.written ++ text.toUTF8).size ≤ n) :
    (s.withCapacity n).write text = (.ok (), { s.withCapacity n with
      written := s.written ++ text.toUTF8, requests := .write text :: s.requests }) := by
  have room : text.utf8ByteSize ≤ n - s.written.size := by
    rw [ByteArray.size_append] at fits
    exact Nat.le_sub_of_add_le' fits
  have all : text.toUTF8.extract 0 (n - s.written.size) = text.toUTF8 := extract_of_size_le room
  rw [Sink.write, taking_withCapacity unlimited, if_pos room]
  simp only [all]
  rfl

theorem write_of_exceeds (unlimited : s.Unlimited) (fits : s.written.size ≤ n)
    (exceeds : n < (s.written ++ text.toUTF8).size) :
    (s.withCapacity n).write text = (.error .sinkFull, { s.withCapacity n with
      written := (s.written ++ text.toUTF8).extract 0 n
      requests := .write text :: s.requests }) := by
  have full : ¬text.utf8ByteSize ≤ n - s.written.size := by
    rw [ByteArray.size_append] at exceeds
    exact fun room => absurd exceeds (Nat.not_lt.2 (Nat.add_le_of_le_sub' fits room))
  rw [Sink.write, taking_withCapacity unlimited, if_neg full, extract_append_of_size_le fits]
  rfl

end Sink

/-- A sink that is never full takes all that is told, and stays so. -/
theorem act_unlimited (deed : Deed) {world : Sink × Input} (unlimited : world.1.Unlimited) :
    (deed.act world).1.written = world.1.written ++ deed.text.toUTF8 ∧
      (deed.act world).1.Unlimited := by
  cases deed with
  | write line text =>
    refine ⟨?_, unlimited.write text⟩
    rw [Deed.act, Sink.write_unlimited unlimited]
    rfl
  | statement | call | flush | answer =>
    exact ⟨ByteArray.append_empty.symm, unlimited.capacity, unlimited.faultless⟩

theorem written_worldAfter (moments : List Moment) {world : Sink × Input}
    (unlimited : world.1.Unlimited) :
    (worldAfter moments world).1.written = world.1.written ++ (output moments).toUTF8 ∧
      (worldAfter moments world).1.Unlimited := by
  induction moments generalizing world with
  | nil => simpa [output] using unlimited
  | cons mo moments ih =>
    obtain ⟨here, still⟩ := act_unlimited mo.deed unlimited
    obtain ⟨written, unlimited⟩ := ih still
    rw [worldAfter_cons, written, here]
    refine ⟨?_, unlimited⟩
    simp [output, String.join_cons, ByteArray.append_assoc]

/-! ## Machines with a limited sink -/

def Machine.withCapacity (n : Nat) (m : Machine) : Machine :=
  { m with sink := m.sink.withCapacity n }

def Moment.withCapacity (n : Nat) (mo : Moment) : Moment :=
  ⟨mo.machine.withCapacity n, mo.deed⟩

namespace Trace

variable {α β : Type} {n : Nat}

/-- Where a run from `m` to `m'` is cut off by a sink that takes `n` bytes: at a write on
`m₁`, after which `m₂` is left. -/
structure CutOff (n : Nat) (a : Action α) (t : Trace) (m m' : Machine)
    (before after : List Moment) (m₁ m₂ : Machine) (line : Nat) (text : String) : Prop where
  told : t m = before ++ Moment.mk m₁ (.write line text) :: after
  fits : m₁.sink.written.size ≤ n
  exceeds : n < m₁.sink.written.size + text.utf8ByteSize
  /-- The error of the write is the end of the run. -/
  fails : a (m.withCapacity n) = some (.error ⟨.io .sinkFull, line⟩, m₂)
  /-- Nothing is done after the write. -/
  last : t (m.withCapacity n) =
    (before ++ [Moment.mk m₁ (.write line text)]).map (Moment.withCapacity n)
  written : m₂.sink.written = m'.sink.written.extract 0 n
  input : m₂.input = m₁.input
  functions : m₂.functions = m₁.functions
  globals : m₂.environment.globals = m₁.environment.globals

/-- With a limited sink the action does the same if all fits, and otherwise is cut off. -/
structure Cuts (n : Nat) (a : Action α) (t : Trace) : Prop where
  accounts : Accounts a t
  whole : ∀ m r m', m.sink.Unlimited → a m = some (r, m') → m'.sink.written.size ≤ n →
    a (m.withCapacity n) = some (r, m'.withCapacity n) ∧
      t (m.withCapacity n) = (t m).map (Moment.withCapacity n)
  cut : ∀ m r m', m.sink.Unlimited → a m = some (r, m') → m.sink.written.size ≤ n →
    n < m'.sink.written.size → ∃ before after m₁ m₂ line text,
      CutOff n a t m m' before after m₁ m₂ line text

/-- A sink that is never full stays so, and keeps what it has. -/
theorem Accounts.grows {a : Action α} {t : Trace} (h : Accounts a t) {m m' : Machine}
    {r : Except RuntimeError α} (unlimited : m.sink.Unlimited)
    (ran : a m = some (r, m')) :
    m'.sink.written = m.sink.written ++ (output (t m)).toUTF8 ∧ m'.sink.Unlimited := by
  have sink : m'.sink = (worldAfter (t m) m.world).1 := congrArg Prod.fst (h.ends m r m' ran)
  rw [sink]
  exact written_worldAfter (t m) unlimited

theorem Accounts.size_le {a : Action α} {t : Trace} (h : Accounts a t) {m m' : Machine}
    {r : Except RuntimeError α} (unlimited : m.sink.Unlimited)
    (ran : a m = some (r, m')) : m.sink.written.size ≤ m'.sink.written.size := by
  rw [(h.grows unlimited ran).1, ByteArray.size_append]
  exact Nat.le_add_right _ _

/-- Something that prints nothing and does the same whatever fits into the sink. -/
theorem Cuts.of_idle {a : Action α} {t : Trace} (accounts : Accounts a t)
    (idle : ∀ m r m', a m = some (r, m') → m'.sink.written = m.sink.written)
    (same : ∀ m r m', a m = some (r, m') → a (m.withCapacity n) = some (r, m'.withCapacity n) ∧
      t (m.withCapacity n) = (t m).map (Moment.withCapacity n)) : Cuts n a t where
  accounts := accounts
  whole m r m' _ ran _ := same m r m' ran
  cut m r m' _ ran fits exceeds := by
    rw [idle m r m' ran] at exceeds
    omega

theorem cuts_step {f : Machine → Except RuntimeError α × Machine}
    (idle : ∀ m, (f m).2.world = m.world)
    (same : ∀ m : Machine, f (m.withCapacity n) = ((f m).1, (f m).2.withCapacity n)) :
    Cuts n (.step f) silent := by
  refine .of_idle (accounts_step idle) (fun m r m' ran => ?_) fun m r m' ran => ?_
  · injection ran with ran
    have same := congrArg (·.1.written) (idle m)
    rwa [ran] at same
  · injection ran with ran
    exact ⟨congrArg some (by rw [same, ran]), rfl⟩

theorem cuts_say (result : Except RuntimeError α) : Cuts n (.step fun m => (result, m)) silent :=
  cuts_step (fun _ => rfl) fun _ => rfl

theorem cuts_write (line : Nat) (text : String) :
    Cuts n (.write line text) (only (.write line text)) where
  accounts := accounts_write line text
  whole m r m' unlimited ran fits := by
    rw [Action.write_run, Sink.write_unlimited unlimited] at ran
    cases ran
    refine ⟨?_, rfl⟩
    rw [Action.write_run, Machine.withCapacity, Sink.write_of_fits unlimited fits]
    rfl
  cut m r m' unlimited ran fits exceeds := by
    rw [Action.write_run, Sink.write_unlimited unlimited] at ran
    cases ran
    have size := exceeds
    rw [ByteArray.size_append] at size
    let left : Sink := { m.sink.withCapacity n with
      written := (m.sink.written ++ text.toUTF8).extract 0 n
      requests := .write text :: m.sink.requests }
    refine ⟨[], [], m, { m with sink := left }, line, text, ?_⟩
    exact {
      told := rfl
      fits := fits
      exceeds := size
      fails := by
        rw [Action.write_run, Machine.withCapacity, Sink.write_of_exceeds unlimited fits exceeds]
        rfl
      last := rfl
      written := rfl
      input := rfl
      functions := rfl
      globals := rfl }

theorem Cuts.bind {a : Action α} {f : α → Action β} {t : Trace} {u : α → Trace}
    (first : Cuts n a t) (second : ∀ value, Cuts n (f value) (u value)) :
    Cuts n (a >>= f) (t.andThen a u) where
  accounts := first.accounts.bind fun value => (second value).accounts
  whole m r m' unlimited ran fits := by
    obtain ⟨e, failed, rfl⟩ | ⟨value, m₁, done, ran⟩ := Action.bind_ended ran
    · obtain ⟨same, told⟩ := first.whole m _ m' unlimited failed fits
      rw [Action.bind_of_error same, andThen_of_error same, andThen_of_error failed, told]
      exact ⟨rfl, rfl⟩
    · have still := (first.accounts.grows unlimited done).2
      have size := (second value).accounts.size_le still ran
      obtain ⟨same₁, told₁⟩ := first.whole m _ m₁ unlimited done (by omega)
      obtain ⟨same₂, told₂⟩ := (second value).whole m₁ r m' still ran fits
      rw [Action.bind_of_ok same₁, andThen_of_ok same₁, andThen_of_ok done, told₁, told₂,
        List.map_append]
      exact ⟨same₂, rfl⟩
  cut m r m' unlimited ran fits exceeds := by
    obtain ⟨e, failed, rfl⟩ | ⟨value, m₁, done, ran⟩ := Action.bind_ended ran
    · obtain ⟨before, after, m₁, m₂, line, text, off⟩ :=
        first.cut m _ m' unlimited failed fits exceeds
      refine ⟨before, after, m₁, m₂, line, text, ?_⟩
      exact { off with
        told := by rw [andThen_of_error failed, off.told]
        fails := Action.bind_of_error off.fails
        last := by rw [andThen_of_error off.fails, off.last] }
    · have still := (first.accounts.grows unlimited done).2
      obtain ⟨written, -⟩ := (second value).accounts.grows still ran
      by_cases fits₁ : m₁.sink.written.size ≤ n
      · -- the second one is cut off
        obtain ⟨same, told⟩ := first.whole m _ m₁ unlimited done fits₁
        obtain ⟨before, after, m₂, m₃, line, text, off⟩ :=
          (second value).cut m₁ r m' still ran fits₁ exceeds
        refine ⟨t m ++ before, after, m₂, m₃, line, text, ?_⟩
        exact { off with
          told := by rw [andThen_of_ok done, off.told, List.append_assoc]
          fails := (Action.bind_of_ok same).trans off.fails
          last := by
            rw [andThen_of_ok same, off.last, told]
            simp only [List.map_append, List.append_assoc] }
      · -- the first one is, and the second one is not begun
        obtain ⟨before, after, m₂, m₃, line, text, off⟩ :=
          first.cut m _ m₁ unlimited done fits (by omega)
        refine ⟨before, after ++ u value m₁, m₂, m₃, line, text, ?_⟩
        exact { off with
          told := by rw [andThen_of_ok done, off.told, List.append_assoc, List.cons_append]
          fails := Action.bind_of_error off.fails
          last := by rw [andThen_of_error off.fails, off.last]
          written := by
            rw [off.written, written, extract_append_of_le_size (by omega)] }

/-- A deed in front that prints nothing. -/
theorem Cuts.mark {a : Action α} {t : Trace} (h : Cuts n a t) {deed : Deed}
    (idle : ∀ world, deed.act world = world) (other : ∀ line result, deed ≠ .answer line result) :
    Cuts n a (t.mark deed) where
  accounts := h.accounts.mark idle other
  whole m r m' unlimited ran fits := by
    obtain ⟨same, told⟩ := h.whole m r m' unlimited ran fits
    exact ⟨same, by rw [Trace.mark, told]; rfl⟩
  cut m r m' unlimited ran fits exceeds := by
    obtain ⟨before, after, m₁, m₂, line, text, off⟩ := h.cut m r m' unlimited ran fits exceeds
    refine ⟨⟨m, deed⟩ :: before, after, m₁, m₂, line, text, ?_⟩
    exact { off with
      told := by rw [Trace.mark, off.told, List.cons_append]
      last := by rw [Trace.mark, off.last]; rfl }

theorem Cuts.within {a : Action α} {t : Trace} (h : Cuts n a t) {enter leave : Machine → Machine}
    (accounts : Accounts (.within enter leave a) fun m => t (enter m))
    (entered : ∀ m, (enter m).sink = m.sink)
    (entering : ∀ m : Machine, enter (m.withCapacity n) = (enter m).withCapacity n)
    (leaving : ∀ m : Machine, leave (m.withCapacity n) = (leave m).withCapacity n)
    (left : ∀ m, (leave m).sink = m.sink ∧ (leave m).input = m.input ∧
      (leave m).functions = m.functions ∧ (leave m).environment.globals = m.environment.globals) :
    Cuts n (.within enter leave a) fun m => t (enter m) where
  accounts := accounts
  whole m r m' unlimited ran fits := by
    obtain ⟨m₁, inside, rfl⟩ := Action.within_ended ran
    rw [(left m₁).1] at fits
    rw [← entered m] at unlimited
    obtain ⟨same, told⟩ := h.whole (enter m) r m₁ unlimited inside fits
    rw [← entering m] at same told
    exact ⟨by rw [Action.within_of_some same, leaving], told⟩
  cut m r m' unlimited ran fits exceeds := by
    obtain ⟨m₁, inside, rfl⟩ := Action.within_ended ran
    rw [(left m₁).1] at exceeds
    rw [← entered m] at unlimited fits
    obtain ⟨before, after, m₂, m₃, line, text, off⟩ :=
      h.cut (enter m) r m₁ unlimited inside fits exceeds
    obtain ⟨sink, input, functions, globals⟩ := left m₃
    have fails := off.fails
    have last := off.last
    rw [← entering m] at fails last
    refine ⟨before, after, m₂, leave m₃, line, text, ?_⟩
    exact { off with
      fails := Action.within_of_some fails
      last := last
      written := by rw [sink, (left m₁).1, off.written]
      input := input.trans off.input
      functions := functions.trans off.functions
      globals := globals.trans off.globals }

/-- Something is asked of the machine that has nothing to do with the sink. -/
theorem Cuts.ask {f : Machine → β} {g : β → Action α} {t : β → Trace}
    (same : ∀ m : Machine, f (m.withCapacity n) = f m)
    (h : ∀ answer, Cuts n (g answer) (t answer)) :
    Cuts n (Action.ask f >>= g) (asking f t) where
  accounts := .ask fun answer => (h answer).accounts
  whole m r m' unlimited ran fits := by
    rw [Action.ask_run, asking_run, asking_run, same]
    exact (h (f m)).whole m r m' unlimited ran fits
  cut m r m' unlimited ran fits exceeds := by
    obtain ⟨before, after, m₁, m₂, line, text, off⟩ :=
      (h (f m)).cut m r m' unlimited ran fits exceeds
    refine ⟨before, after, m₁, m₂, line, text, ?_⟩
    exact { off with
      fails := by rw [Action.ask_run, same, off.fails]
      last := by rw [asking_run, same, off.last] }

theorem cuts_outOfFuel : Cuts n (α := α) .outOfFuel silent where
  accounts := accounts_outOfFuel
  whole _ _ _ _ ran := nomatch ran
  cut _ _ _ _ ran := nomatch ran

theorem Cuts.withFunction {use : Function → Action α} {t : Function → Trace}
    (h : ∀ f, Cuts n (use f) (t f)) (line : Nat) (name : String) :
    Cuts n (.withFunction line name use) (withFunction name t) := by
  refine .ask (fun _ => rfl) fun found => ?_
  cases found with
  | none => exact cuts_say _
  | some f => exact h f

theorem Cuts.inBlock {a : Action α} {t : Trace} (h : Cuts n a t) : Cuts n (.inBlock a) t.inBlock :=
  h.within (partwise_accounts.inBlock h.accounts) (fun _ => rfl) (fun _ => rfl) (fun _ => rfl)
    fun _ => ⟨rfl, rfl, rfl, rfl⟩

theorem Cuts.inCall {a : Action α} {t : Trace} (h : Cuts n a t) (line : Nat) :
    Cuts n (.inCall line a) t.inCall := by
  refine .ask (fun _ => rfl) fun (depth, limit) => ?_
  refine holds_ite (P := fun _ => Cuts n) _ (cuts_say _) ?_
  refine h.within (h.accounts.within (fun _ => rfl) fun _ => rfl) (fun _ => rfl) (fun _ => rfl)
    (fun _ => rfl) fun m => ⟨rfl, rfl, rfl, ?_⟩
  exact m.environment.globals_leaveCall

theorem cuts_takeAnswer (line : Nat) :
    Cuts n (.takeAnswer line) (outcome (.answer line) (.takeAnswer line)) := by
  refine .of_idle (accounts_takeAnswer line) (fun m r m' ran => ?_) fun m r m' ran => ?_
  · rw [takeAnswer_run] at ran
    cases ran
    rfl
  · rw [takeAnswer_run] at ran
    cases ran
    rw [takeAnswer_run, outcome_takeAnswer, outcome_takeAnswer]
    exact ⟨rfl, rfl⟩

theorem cuts_flush (line : Nat) : Cuts n (.flush line) (only (.flush line)) := by
  refine .of_idle (accounts_flush line) (fun m r m' ran => ?_) fun m r m' ran => ?_
  · cases ran
    rfl
  · cases ran
    exact ⟨rfl, rfl⟩

/-- A flush behind the end takes nothing back. -/
theorem CutOff.thenFlush {a : Action α} {t : Trace} {m m' m₁ m₂ : Machine}
    {before after : List Moment} {line : Nat} {text : String}
    (off : CutOff n a t m m' before after m₁ m₂ line text) (atEnd : Nat) :
    CutOff n (.thenFlush atEnd a) t m m'.flushed before after m₁ m₂.flushed line text :=
  { off with fails := Action.thenFlush_of_error off.fails }

theorem partwise_cuts (n : Nat) : Partwise fun _ a t => Cuts n a t where
  outOfFuel := cuts_outOfFuel
  say result _ := cuts_say result
  lookUp line name := cuts_step (fun m => by cases m.environment.get? name <;> rfl) fun m => by
    simp only [Machine.withCapacity]
    cases m.environment.get? name <;> rfl
  define _ _ := cuts_step (fun _ => rfl) fun _ => rfl
  assign line name value :=
    cuts_step (fun m => by cases m.environment.assign? name value <;> rfl) fun m => by
      simp only [Machine.withCapacity]
      cases m.environment.assign? name value <;> rfl
  defineFunction _ _ := cuts_step (fun _ => rfl) fun _ => rfl
  write := cuts_write
  flush := cuts_flush
  takeAnswer := cuts_takeAnswer
  bind := Cuts.bind
  statement _ h := h.mark (fun _ => rfl) nofun
  inBlock := Cuts.inBlock
  insideCall _ h := .ask (fun _ => rfl) fun _ =>
    holds_ite (P := fun _ => Cuts n) _ (cuts_say _) h
  withFunction line name h := .withFunction h line name
  call _ _ _ h := h.mark (fun _ => rfl) nofun
  inCall line h := h.inCall line

end Trace

/-- A full sink cuts the output and is never ignored.  If all that is printed fits, the
program does the same on a limited sink.  Otherwise it writes what fits and ends with the
error of the write in whose text the first byte lies that does not, and does nothing after
that write but the flush at its end. -/
theorem cut_at_capacity (p : Program) (scope : Scope) (callLimit : Nat) (input : Input)
    (fuel : Nat) (r : Except RuntimeError Unit) (m' : Machine)
    (ended : p.run fuel (.new scope callLimit input {}) = some (r, m')) (n : Nat) :
    let m := Machine.new scope callLimit input {}
    let limited := Machine.new scope callLimit input { capacity := some n }
    m'.sink.written = (output (p.trace fuel m)).toUTF8 ∧
      (m'.sink.written.size ≤ n → p.run fuel limited = some (r, m'.withCapacity n)) ∧
      (n < m'.sink.written.size → ∃ before after m₁ m₂ line text,
        m₁.sink.written = (output before).toUTF8 ∧
          Trace.CutOff n (p.run fuel) (p.trace fuel) m m' before after m₁ m₂ line text) := by
  intro m limited
  have cuts := (Trace.partwise_cuts n).closed.runProgram fuel p.statements
  have unlimited : m.sink.Unlimited := ⟨rfl, fun _ => rfl⟩
  obtain ⟨r₁, m₁, ran, rfl, rfl⟩ := Action.thenFlush_ended ended
  have printed := (cuts.accounts.grows unlimited ran).1
  refine ⟨printed.trans ByteArray.empty_append, fun fits => ?_, fun exceeds => ?_⟩
  · exact Action.thenFlush_of_some (cuts.whole m r₁ m₁ unlimited ran fits).1
  · obtain ⟨before, after, m₂, m₃, line, text, off⟩ :=
      cuts.cut m r₁ m₁ unlimited ran (Nat.zero_le n) exceeds
    refine ⟨before, after, m₂, m₃.flushed, line, text, ?_, off.thenFlush 0⟩
    have chained := cuts.accounts.chained m
    rw [off.told] at chained
    have sink : m₂.sink = (worldAfter before m.world).1 := congrArg Prod.fst chained.at
    rw [sink, (written_worldAfter before unlimited).1]
    exact ByteArray.empty_append

/-- The sixth byte is the first of the two of a character, so a prompt is cut there. -/
theorem cut_at_capacity_inside_character :
    let p : Program := ⟨[.print 1 (.literal 1 (.text "ş")), .expr 2 (.prompt 2 "adın")]⟩
    let m := Machine.new .dynamic defaultCallLimit ⟨[120, 10]⟩ {}
    let m' := { m with
      sink := { written := "ş\nadın".toUTF8
                requests := [.flush, .flush, .write "adın", .write "ş\n"] }
      input := ⟨[]⟩ }
    p.run 4 m = some (.ok (), m') ∧ 6 < m'.sink.written.size ∧
      ∃ before after m₁ m₂ text, m₁.sink.written = (output before).toUTF8 ∧
        Trace.CutOff 6 (p.run 4) (p.trace 4) m m' before after m₁ m₂ 2 text := by
  intro p m m'
  have ended : p.run 4 m = some (.ok (), m') := by rfl
  have exceeds : 6 < m'.sink.written.size := by decide
  obtain ⟨before, after, m₁, m₂, line, text, printed, off⟩ :=
    (cut_at_capacity p .dynamic defaultCallLimit ⟨[120, 10]⟩ 4 (.ok ()) m' ended 6).2.2 exceeds
  have failed : (p.run 4 (m.withCapacity 6)).map Prod.fst =
      some (.error ⟨.io .sinkFull, 2⟩) := by rfl
  rw [off.fails] at failed
  cases failed
  exact ⟨ended, exceeds, before, after, m₁, m₂, text, printed, off⟩

end Betik
