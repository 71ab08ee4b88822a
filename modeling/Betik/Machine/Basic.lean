/-
The machine that programs run on, and the actions that change it.
-/
import Betik.Machine.Environment
import Betik.Machine.Input
import Betik.Machine.Sink

namespace Betik

/-- A function as its declaration left it.  Its name is the key under which the
machine keeps it. -/
structure Function where
  params : List String
  body : List Stmt
deriving Repr

def defaultCallLimit : Nat := 512

/-- All that a run can change, and the limit that it cannot.  The number of active
calls is counted here and not read off the environment. -/
structure Machine where
  environment : Environment
  functions : Table Function := .empty
  input : Input := ⟨[]⟩
  sink : Sink := {}
  callDepth : Nat := 0
  callLimit : Nat := defaultCallLimit

namespace Machine

def enterBlock (m : Machine) : Machine :=
  { m with environment := m.environment.enterBlock }

def leaveBlock (m : Machine) : Machine :=
  { m with environment := m.environment.leaveBlock }

def enterCall (m : Machine) : Machine :=
  { m with environment := m.environment.enterCall, callDepth := m.callDepth + 1 }

def leaveCall (m : Machine) : Machine :=
  { m with environment := m.environment.leaveCall, callDepth := m.callDepth - 1 }

def flushed (m : Machine) : Machine :=
  { m with sink := m.sink.flush.2 }

end Machine

/-- An action on a machine: how it ends, and which machines it passes through on
the way.  It ends with a value or an error, and either way with the machine it
leaves behind; `none` means that it had not ended when its fuel ran out, and says
nothing about the program.  `passes m s` says that the action, started on `m`,
comes through `s`, be it at the start, between two steps or at the end; an action
without an end comes through machines too. -/
structure Action (α : Type) where
  run : Machine → Option (Except RuntimeError α × Machine)
  passes : Machine → Machine → Prop
  passes_start : ∀ m, passes m m
  passes_end : ∀ m r m', run m = some (r, m') → passes m m'

instance {α : Type} : CoeFun (Action α)
    fun _ => Machine → Option (Except RuntimeError α × Machine) :=
  ⟨Action.run⟩

namespace Action

variable {α β : Type}

@[always_inline, inline]
def step (f : Machine → Except RuntimeError α × Machine) : Action α where
  run m := some (f m)
  passes m s := s = m ∨ s = (f m).2
  passes_start _ := .inl rfl
  passes_end m r m' h := by
    injection h with h
    exact .inr (by rw [h])

@[always_inline, inline]
def done (value : α) : Action α :=
  step fun m => (.ok value, m)

@[always_inline, inline]
def andThen (a : Action α) (f : α → Action β) : Action β where
  run m :=
    match a.run m with
    | none => none
    | some (.error e, m) => some (.error e, m)
    | some (.ok value, m) => (f value).run m
  passes m s :=
    a.passes m s ∨ ∃ value m', a.run m = some (.ok value, m') ∧ (f value).passes m' s
  passes_start m := .inl (a.passes_start m)
  passes_end m r m' h := by
    split at h
    · cases h
    · rename_i ha
      cases h
      exact .inl (a.passes_end _ _ _ ha)
    · rename_i ha
      exact .inr ⟨_, _, ha, (f _).passes_end _ _ _ h⟩

instance : Monad Action where
  pure := done
  bind := andThen

def outOfFuel : Action α where
  run _ := none
  passes m s := s = m
  passes_start _ := rfl
  passes_end _ _ _ h := by cases h

def fail (line : Nat) (cause : RuntimeError.Cause) : Action α :=
  step fun m => (.error ⟨cause, line⟩, m)

def lift (line : Nat) (result : Except RuntimeError.Cause α) : Action α :=
  step fun m => (result.mapError fun cause => ⟨cause, line⟩, m)

def ask (f : Machine → α) : Action α :=
  step fun m => (.ok (f m), m)

def define (name : String) (value : Value) : Action Unit :=
  step fun m => (.ok (), { m with environment := m.environment.define name value })

/-- Sets the parameters of a call in its frame.  Of two with one name the later
counts. -/
def defineAll : List (String × Value) → Action Unit
  | [] => done ()
  | (name, value) :: bindings => andThen (define name value) fun _ => defineAll bindings

/-- Runs an action between entering and leaving a frame.  The frame is left in
every case, also after an error. -/
def within (enter leave : Machine → Machine) (a : Action α) : Action α where
  run m :=
    match a.run (enter m) with
    | none => none
    | some (result, m) => some (result, leave m)
  passes m s :=
    s = m ∨ a.passes (enter m) s ∨
      ∃ result m', a.run (enter m) = some (result, m') ∧ s = leave m'
  passes_start _ := .inl rfl
  passes_end m r m' h := by
    split at h
    · cases h
    · rename_i ha
      cases h
      exact .inr (.inr ⟨_, _, ha, rfl⟩)

def lookUp (line : Nat) (name : String) : Action Value :=
  step fun m =>
    match m.environment.get? name with
    | some value => (.ok value, m)
    | none => (.error ⟨.undefinedVariable name, line⟩, m)

def assign (line : Nat) (name : String) (value : Value) : Action Unit :=
  step fun m =>
    match m.environment.assign? name value with
    | some environment => (.ok (), { m with environment := environment })
    | none => (.error ⟨.undefinedVariable name, line⟩, m)

def defineFunction (name : String) (f : Function) : Action Unit :=
  step fun m => (.ok (), { m with functions := m.functions.put name f })

def blame (line : Nat) (result : Except Failure α) : Except RuntimeError α :=
  result.mapError fun failure => ⟨.io failure, line⟩

/-- Writes a text.  What fitted into a full sink stays there. -/
def write (line : Nat) (text : String) : Action Unit :=
  step fun m =>
    let (result, sink) := m.sink.write text
    (blame line result, { m with sink := sink })

def flush (line : Nat) : Action Unit :=
  step fun m => (blame line m.sink.flush.1, m.flushed)

/-- Runs an action and then flushes the sink, also after an error.  Such an error hides
a failure of the flush. -/
def thenFlush (line : Nat) (a : Action α) : Action α where
  run m := (a.run m).map fun (result, m) => (result <* blame line m.sink.flush.1, m.flushed)
  passes m s := a.passes m s ∨ ∃ result m', a.run m = some (result, m') ∧ s = m'.flushed
  passes_start m := .inl (a.passes_start m)
  passes_end m r m' h := by
    obtain ⟨⟨result, m₁⟩, ran, same⟩ := Option.map_eq_some_iff.1 h
    exact .inr ⟨result, m₁, ran, (congrArg Prod.snd same).symm⟩

/-- The next line of the input.  One that is no text is gone all the same. -/
def readLine (line : Nat) : Action String :=
  step fun m =>
    let (next, input) := m.input.readLine
    let m := { m with input := input }
    match next with
    | .text s => (.ok s, m)
    | .malformed => (.error ⟨.io .invalidText, line⟩, m)
    | .closed => (.error ⟨.inputClosed, line⟩, m)

/-! ## Actions around others -/

def withFunction (line : Nat) (name : String) (use : Function → Action α) : Action α := do
  match ← ask (·.functions.get? name) with
  | some f => use f
  | none => fail line (.undefinedFunction name)

theorem withFunction_run (line : Nat) (name : String) (use : Function → Action α) (m : Machine) :
    (withFunction line name use).run m =
      (match m.functions.get? name with
        | some f => use f
        | none => fail line (.undefinedFunction name)).run m := rfl

def inBlock (a : Action α) : Action α :=
  within Machine.enterBlock Machine.leaveBlock a

def inCall (line : Nat) (a : Action α) : Action α := do
  let (depth, limit) ← ask fun m => (m.callDepth, m.callLimit)
  if limit ≤ depth then fail line (.stackOverflow limit)
  else within Machine.enterCall Machine.leaveCall a

def insideCall (line : Nat) (a : Action α) : Action α := do
  if (← ask (·.callDepth)) = 0 then fail line .returnOutsideFunction
  else a

/-! ## How actions end -/

theorem write_run (line : Nat) (text : String) (m : Machine) :
    write line text m = some (blame line (m.sink.write text).1,
      { m with sink := (m.sink.write text).2 }) := rfl

theorem flush_run (line : Nat) (m : Machine) :
    flush line m = some (blame line m.sink.flush.1, m.flushed) := rfl

section

variable {a : Action α} {f : α → Action β} {m m' m₁ : Machine}

theorem bind_of_ok {value : α} (first : a m = some (.ok value, m₁)) :
    (a >>= f) m = f value m₁ := by
  simp only [Bind.bind, andThen, first]

theorem bind_of_error {e : RuntimeError} (first : a m = some (.error e, m₁)) :
    (a >>= f) m = some (.error e, m₁) := by
  simp only [Bind.bind, andThen, first]

/-- Two actions in a row have ended: the first failed, or the second ended. -/
theorem bind_ended {r : Except RuntimeError β} (ended : (a >>= f) m = some (r, m')) :
    (∃ e, a m = some (.error e, m') ∧ r = .error e) ∨
      ∃ value m₁, a m = some (.ok value, m₁) ∧ f value m₁ = some (r, m') := by
  cases first : a m with
  | none =>
    simp only [Bind.bind, andThen, first] at ended
    cases ended
  | some outcome =>
    obtain ⟨r₁, m₁⟩ := outcome
    cases r₁ with
    | error e =>
      rw [bind_of_error first] at ended
      cases ended
      exact .inl ⟨e, rfl, rfl⟩
    | ok value =>
      rw [bind_of_ok first] at ended
      exact .inr ⟨value, m₁, rfl, ended⟩

theorem thenFlush_of_some {line : Nat} {r : Except RuntimeError α} (first : a m = some (r, m₁)) :
    thenFlush line a m = some (r <* blame line m₁.sink.flush.1, m₁.flushed) := by
  simp only [thenFlush, first, Option.map_some]

theorem thenFlush_of_error {line : Nat} {e : RuntimeError} (first : a m = some (.error e, m₁)) :
    thenFlush line a m = some (.error e, m₁.flushed) :=
  thenFlush_of_some first

theorem thenFlush_ended {line : Nat} {r : Except RuntimeError α}
    (ended : thenFlush line a m = some (r, m')) :
    ∃ r₁ m₁, a m = some (r₁, m₁) ∧ r = r₁ <* blame line m₁.sink.flush.1 ∧ m' = m₁.flushed := by
  obtain ⟨⟨r₁, m₁⟩, first, same⟩ := Option.map_eq_some_iff.1 ended
  cases same
  exact ⟨r₁, m₁, first, rfl, rfl⟩

/-- An error at the end is one of the action, or the flush behind its success has failed. -/
theorem thenFlush_failed {line : Nat} {e : RuntimeError}
    (failed : thenFlush line a m = some (.error e, m')) :
    ∃ m₁, m' = m₁.flushed ∧ (a m = some (.error e, m₁) ∨
      ∃ value failure, a m = some (.ok value, m₁) ∧ m₁.sink.flush.1 = .error failure ∧
        e = ⟨.io failure, line⟩) := by
  obtain ⟨r₁, m₁, first, same, rfl⟩ := thenFlush_ended failed
  refine ⟨m₁, rfl, ?_⟩
  cases r₁ with
  | error e' =>
    cases same
    exact .inl first
  | ok value =>
    cases flushed : m₁.sink.flush.1 with
    | ok =>
      rw [flushed] at same
      cases same
    | error failure =>
      rw [flushed] at same
      cases same
      exact .inr ⟨value, failure, first, rfl, rfl⟩

/-- What is asked of the machine is what the machine says. -/
theorem ask_run (g : Machine → α) (m : Machine) : (ask g >>= f) m = f (g m) m := rfl

theorem within_of_some {enter leave : Machine → Machine} {r : Except RuntimeError α}
    (inside : a (enter m) = some (r, m₁)) :
    within enter leave a m = some (r, leave m₁) := by
  simp only [within, inside]

theorem within_ended {enter leave : Machine → Machine} {r : Except RuntimeError α}
    (ended : within enter leave a m = some (r, m')) :
    ∃ m₁, a (enter m) = some (r, m₁) ∧ m' = leave m₁ := by
  cases inside : a (enter m) with
  | none =>
    simp only [within, inside] at ended
    cases ended
  | some outcome =>
    obtain ⟨r₁, m₁⟩ := outcome
    rw [within_of_some inside] at ended
    cases ended
    exact ⟨m₁, rfl, rfl⟩

end

end Action
end Betik
