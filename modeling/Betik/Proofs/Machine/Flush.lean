/-
Flushing.

A session that runs two programs flushes its sink once more than one that runs both as one.
On a sink where a flush always succeeds and no write depends on one, nothing else comes of
that: two machines that differ in what was flushed go on alike.  This is `closed_heedless`.
-/
import Betik.Proofs.Machine.Closure

namespace Betik

namespace Sink

/-- The sink as if it had never been flushed. -/
def unflushed (s : Sink) : Sink :=
  { s with requests := s.requests.filter (· ≠ .flush) }

/-- Flushing always succeeds, and no write heeds it. -/
structure Steady (s : Sink) : Prop where
  flushes : ¬s.flushFails
  faultless : ∀ asked, s.faults (.flush :: asked) = none
  heedless : ∀ text asked,
    s.faults (.write text :: asked) = s.faults (.write text :: asked.filter (· ≠ .flush))

variable {s s' : Sink}

theorem Steady.flush_ok (steady : s.Steady) : s.flush.1 = .ok () := by
  simp only [flush, steady.faultless, if_neg steady.flushes]

theorem Steady.of_unflushed (steady : s.Steady) (same : s.unflushed = s'.unflushed) :
    s'.Steady := by
  simp only [unflushed, mk.injEq] at same
  obtain ⟨-, -, flushes, -, faults⟩ := same
  exact ⟨flushes ▸ steady.flushes, faults ▸ steady.faultless, faults ▸ steady.heedless⟩

theorem Steady.write (steady : s.Steady) (text : String) : (s.write text).2.Steady :=
  ⟨steady.flushes, steady.faultless, steady.heedless⟩

theorem Steady.flush (steady : s.Steady) : s.flush.2.Steady :=
  ⟨steady.flushes, steady.faultless, steady.heedless⟩

theorem Steady.write_unflushed (steady : s.Steady) (text : String) :
    s.unflushed.write text = ((s.write text).1, (s.write text).2.unflushed) := by
  have taking : s.unflushed.taking text = s.taking text := by
    rw [Sink.taking, Sink.taking, steady.heedless]
    rfl
  rw [Sink.write, taking]
  rfl

end Sink

namespace Machine

def unflushed (m : Machine) : Machine :=
  { m with sink := m.sink.unflushed }

/-- The machines differ at most in what was flushed, which does not matter to their sinks. -/
def UpToFlushes (m m' : Machine) : Prop :=
  ∃ sink, m.sink.Steady ∧ m.sink.unflushed = sink.unflushed ∧ m' = { m with sink := sink }

variable {m m' : Machine}

theorem UpToFlushes.refl (steady : m.sink.Steady) : m.UpToFlushes m :=
  ⟨m.sink, steady, rfl, rfl⟩

theorem UpToFlushes.of_flushed (steady : m.sink.Steady) : m.flushed.UpToFlushes m :=
  ⟨m.sink, steady.flush, rfl, rfl⟩

theorem UpToFlushes.symm (h : m.UpToFlushes m') : m'.UpToFlushes m := by
  obtain ⟨sink, steady, same, rfl⟩ := h
  exact ⟨m.sink, steady.of_unflushed same, same.symm, rfl⟩

theorem UpToFlushes.steady (h : m.UpToFlushes m') : m'.sink.Steady := by
  obtain ⟨sink, steady, same, rfl⟩ := h
  exact steady.of_unflushed same

theorem UpToFlushes.unflushed (h : m.UpToFlushes m') : m.unflushed = m'.unflushed := by
  obtain ⟨sink, steady, same, rfl⟩ := h
  simp only [Machine.unflushed, same]

end Machine

namespace Action

variable {α β : Type} {a : Action α} {f : α → Action β}

def SameButFlushes (out out' : Except RuntimeError α × Machine) : Prop :=
  out.1 = out'.1 ∧ out.2.UpToFlushes out'.2

/-- The action does the same, whatever was flushed before. -/
def Heedless (a : Action α) : Prop :=
  ∀ m m', m.UpToFlushes m' → Option.Rel SameButFlushes (a m) (a m')

/-- A step that has nothing to do with the sink. -/
theorem heedless_step {f : Machine → Except RuntimeError α × Machine}
    (blind : ∀ (m : Machine) sink,
      f { m with sink := sink } = ((f m).1, { (f m).2 with sink := sink })) :
    (step f).Heedless := by
  rintro m _ ⟨sink, steady, same, rfl⟩
  have kept : (f m).2.sink = m.sink := congrArg (·.2.sink) (blind m m.sink)
  refine .some ?_
  rw [blind m sink]
  exact ⟨rfl, sink, kept ▸ steady, kept ▸ same, rfl⟩

theorem heedless_write (line : Nat) (text : String) : (write line text).Heedless := by
  rintro m _ ⟨sink, steady, same, rfl⟩
  have written := steady.write_unflushed text
  rw [same, (steady.of_unflushed same).write_unflushed text] at written
  injection written with result left
  refine .some ⟨?_, (sink.write text).2, steady.write text, left.symm, rfl⟩
  simp only [result]

theorem heedless_flush (line : Nat) : (flush line).Heedless := by
  rintro m _ ⟨sink, steady, same, rfl⟩
  refine .some ⟨?_, sink.flush.2, steady.flush, same, rfl⟩
  simp only [steady.flush_ok, (steady.of_unflushed same).flush_ok]

theorem Heedless.bind (first : a.Heedless) (second : ∀ value, (f value).Heedless) :
    (a >>= f).Heedless := by
  intro m m' same
  have ended := first m m' same
  simp only [Bind.bind, andThen]
  generalize a.run m = out at ended ⊢
  generalize a.run m' = out' at ended ⊢
  cases ended with
  | none => exact .none
  | @some out out' same =>
    obtain ⟨r, m₁⟩ := out
    obtain ⟨r', m₁'⟩ := out'
    obtain ⟨rfl, same₁⟩ := same
    cases r with
    | error e => exact .some ⟨rfl, same₁⟩
    | ok value => exact second value m₁ m₁' same₁

theorem Heedless.within (h : a.Heedless) {enter leave : Machine → Machine}
    (entered : ∀ (m : Machine) sink, enter { m with sink := sink } = { enter m with sink := sink })
    (left : ∀ (m : Machine) sink, leave { m with sink := sink } = { leave m with sink := sink }) :
    (within enter leave a).Heedless := by
  have kept {g : Machine → Machine}
      (blind : ∀ (m : Machine) sink, g { m with sink := sink } = { g m with sink := sink })
      {m m' : Machine} (same : m.UpToFlushes m') : (g m).UpToFlushes (g m') := by
    obtain ⟨sink, steady, same, rfl⟩ := same
    have sinks : (g m).sink = m.sink := (congrArg Machine.sink (blind m m.sink) :)
    exact ⟨sink, sinks ▸ steady, sinks ▸ same, blind m sink⟩
  intro m m' same
  have ended := h _ _ (kept entered same)
  simp only [Action.within]
  generalize a.run (enter m) = out at ended ⊢
  generalize a.run (enter m') = out' at ended ⊢
  cases ended with
  | none => exact .none
  | some same => exact .some ⟨same.1, kept left same.2⟩

theorem closed_heedless : Closed fun _ a => a.Heedless where
  outOfFuel _ _ _ := .none
  say _ := heedless_step fun _ _ => rfl
  lookUp line name := heedless_step fun m sink => by
    simp only
    split <;> rfl
  define _ _ := heedless_step fun _ _ => rfl
  assign line name value := heedless_step fun m sink => by
    simp only
    split <;> rfl
  defineFunction _ _ := heedless_step fun _ _ => rfl
  write := heedless_write
  flush := heedless_flush
  readLine line := heedless_step fun m sink => by
    simp only
    split <;> rfl
  bind := Heedless.bind
  withFunction line name h := by
    refine .bind (heedless_step fun _ _ => rfl) fun found => ?_
    cases found with
    | none => exact heedless_step fun _ _ => rfl
    | some f => exact h f
  inBlock h := h.within (fun _ _ => rfl) fun _ _ => rfl
  inCall line h := .bind (heedless_step fun _ _ => rfl) fun _ =>
    Closed.ite (P := fun _ a => a.Heedless) _ (heedless_step fun _ _ => rfl)
      (h.within (fun _ _ => rfl) fun _ _ => rfl)
  insideCall line h := .bind (heedless_step fun _ _ => rfl) fun _ =>
    Closed.ite (P := fun _ a => a.Heedless) _ (heedless_step fun _ _ => rfl) h

/-- What a heedless action does from a machine it also does from one like it. -/
theorem Heedless.ends (h : a.Heedless) {m m' m₁ : Machine} (same : m.UpToFlushes m')
    {r : Except RuntimeError α} (ended : a m = some (r, m₁)) :
    ∃ m₁', a m' = some (r, m₁') ∧ m₁.UpToFlushes m₁' := by
  have ended' := h m m' same
  rw [ended] at ended'
  generalize out : a.run m' = out at ended'
  cases ended' with
  | @some _ out' same =>
    obtain ⟨r', m₁'⟩ := out'
    obtain ⟨rfl, same⟩ := same
    exact ⟨m₁', rfl, same⟩

end Action

theorem Stmt.steady_of_runProgram {fuel : Nat} {ss : List Stmt} {m m' : Machine}
    {r : Except RuntimeError Unit} (steady : m.sink.Steady)
    (ran : Stmt.runProgram fuel ss m = some (r, m')) : m'.sink.Steady := by
  obtain ⟨m₁, -, same⟩ := (Action.closed_heedless.runProgram fuel ss).ends (.refl steady) ran
  exact same.symm.steady

end Betik
