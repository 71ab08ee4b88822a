/-
Running two sources one after the other, or as one source.

The statements of the one source are those of the first and, with other lines, those of
the second.  Running a sequence is running its parts, so nothing is left over where the
parts meet but the machine; and lines never influence what is done.  The flush at the end
of the first source is all that comes in between, and on a steady sink nothing comes of it.
-/
import Betik.Proofs.Lines.Running
import Betik.Proofs.Machine.Flush
import Betik.Proofs.Machine.Unbounded
import Betik.Proofs.Sequence.Compile
import Betik.Session

namespace Betik

theorem Stmt.runProgram_append (fuel : Nat) (ss ts : List Stmt) (m : Machine) :
    (Stmt.runProgram fuel (ss ++ ts)).run m =
      (Stmt.runProgram fuel ss >>= fun _ => Stmt.runProgram fuel ts).run m := by
  induction ss generalizing m with
  | nil => rfl
  | cons s ss ih =>
    simp only [List.cons_append, Stmt.runProgram, Bind.bind, Action.andThen]
    cases (s.run fuel).run m with
    | none => rfl
    | some p =>
      obtain ⟨r, m'⟩ := p
      cases r with
      | error e => rfl
      | ok flow =>
        cases flow with
        | normal => exact ih m'
        | returned value => rfl

def noLine : Nat → Nat :=
  fun _ => 0

/-- Up to lines it does not matter by how much statements have been moved. -/
theorem Stmt.runProgram_moved (fuel k : Nat) (ss : List Stmt) (m : Machine) :
    ((Stmt.runProgram fuel (Stmt.relabelAll (· + k) ss)).run m).map (Action.relabelEnd noLine) =
      ((Stmt.runProgram fuel ss).run m).map (Action.relabelEnd noLine) := by
  rw [← relabels_runProgram noLine fuel _ m, ← relabels_runProgram noLine fuel ss m,
    Stmt.relabelAll_relabelAll]
  rfl

def Stmt.runInTurn (fuel : Nat) (ss ts : List Stmt) : Action Unit :=
  Stmt.runProgram fuel ss >>= fun _ => Stmt.runProgram fuel ts

theorem Stmt.runProgram_append_moved (fuel k : Nat) (ss ts : List Stmt) (m : Machine) :
    ((Stmt.runProgram fuel (ss ++ Stmt.relabelAll (· + k) ts)).run m).map
        (Action.relabelEnd noLine) =
      ((Stmt.runInTurn fuel ss ts).run m).map (Action.relabelEnd noLine) := by
  rw [Stmt.runProgram_append]
  simp only [Stmt.runInTurn, Bind.bind, Action.andThen]
  cases (Stmt.runProgram fuel ss).run m with
  | none => rfl
  | some p =>
    obtain ⟨r, m'⟩ := p
    cases r with
    | error e => rfl
    | ok u => exact Stmt.runProgram_moved fuel k ts m'

/-! ## Sources -/

/-- Running the source on the machine ends with the result and leaves the other machine. -/
def Ends (source : String) (m : Machine) (r : Except Error Unit) (m' : Machine) : Prop :=
  ∃ fuel, run fuel source m = some (r, m')

/-- Two sources are run, the second one only if the first succeeds. -/
inductive EndsInTurn (a b : String) (m : Machine) : Except Error Unit → Machine → Prop
  | failed {e : Error} {m' : Machine} (first : Ends a m (.error e) m') :
    EndsInTurn a b m (.error e) m'
  | both {r : Except Error Unit} {m₁ m' : Machine} (first : Ends a m (.ok ()) m₁)
    (second : Ends b m₁ r m') : EndsInTurn a b m r m'

/-- Two ends of a run are the same but for the line of the error, the lines in the bodies of
functions and what was flushed. -/
structure Alike (r : Except Error Unit) (m : Machine) (r' : Except Error Unit) (m' : Machine) :
    Prop where
  result : r.mapError (Error.relabel noLine) = r'.mapError (Error.relabel noLine)
  output : m.sink.unflushed = m'.sink.unflushed
  input : m.input = m'.input
  environment : m.environment = m'.environment
  functions : m.functions.map (Function.relabel noLine) = m'.functions.map (Function.relabel noLine)
  calls : m.callDepth = m'.callDepth ∧ m.callLimit = m'.callLimit

theorem Alike.symm {r r' : Except Error Unit} {m m' : Machine} (h : Alike r m r' m') :
    Alike r' m' r m :=
  ⟨h.result.symm, h.output.symm, h.input.symm, h.environment.symm, h.functions.symm,
    h.calls.1.symm, h.calls.2.symm⟩

/-- One more flush of the first machine makes no difference. -/
theorem Alike.flushed {r r' : Except Error Unit} {m m' : Machine} (h : Alike r m r' m') :
    Alike r m.flushed r' m' :=
  ⟨h.result, h.output, h.input, h.environment, h.functions, h.calls⟩

theorem alike_of_relabelEnd {r r' : Except RuntimeError Unit} {m m₁ m' : Machine}
    (same : Action.relabelEnd noLine (r, m) = Action.relabelEnd noLine (r', m₁))
    (flushes : m₁.unflushed = m'.unflushed) :
    Alike (r.mapError .runtime) m (r'.mapError .runtime) m' := by
  injection same with results machines
  have runtime (r : Except RuntimeError Unit) : (r.mapError Error.runtime).mapError
      (Error.relabel noLine) = (r.mapError (RuntimeError.relabel noLine)).mapError .runtime := by
    cases r <;> rfl
  have result := (runtime r).trans ((congrArg (Except.mapError Error.runtime) results).trans
    (runtime r').symm)
  simp only [Machine.relabel, Machine.mk.injEq] at machines
  simp only [Machine.unflushed, Machine.mk.injEq] at flushes
  obtain ⟨environment, functions, input, output, depth, limit⟩ := machines
  obtain ⟨environment', functions', input', output', depth', limit'⟩ := flushes
  exact {
    result := result
    output := by rw [output, output']
    input := input.trans input'
    environment := environment.trans environment'
    functions := by rw [functions, functions']
    calls := ⟨depth.trans depth', limit.trans limit'⟩ }

section

variable {a b : String} {p q : Program} {m : Machine}

theorem ends_iff (compiled : compile a = .ok p) (steady : m.sink.Steady) {r : Except Error Unit}
    {m' : Machine} :
    Ends a m r m' ↔ ∃ fuel r₀ m₁, (Stmt.runProgram fuel p.statements).run m = some (r₀, m₁) ∧
      r₀.mapError .runtime = r ∧ m₁.flushed = m' := by
  simp only [Ends, run, compiled, Option.map_eq_some_iff, Prod.exists, Prod.mk.injEq]
  constructor
  · rintro ⟨fuel, r₀, m', ran, rfl, rfl⟩
    obtain ⟨r₁, m₁, first, rfl, rfl⟩ := Action.thenFlush_ended ran
    refine ⟨fuel, r₁, m₁, first, ?_, rfl⟩
    rw [(Stmt.steady_of_runProgram steady first).flush_ok]
    cases r₁ <;> rfl
  · rintro ⟨fuel, r₀, m₁, first, rfl, rfl⟩
    refine ⟨fuel, r₀, m₁.flushed, ?_, rfl, rfl⟩
    rw [Program.run, Action.thenFlush_of_some first,
      (Stmt.steady_of_runProgram steady first).flush_ok]
    cases r₀ <;> rfl

/-- The flush behind the first source is all that a run without it does not do. -/
theorem EndsInTurn.runInTurn (first : compile a = .ok p) (second : compile b = .ok q)
    (steady : m.sink.Steady) {r : Except Error Unit} {m' : Machine}
    (ended : EndsInTurn a b m r m') :
    ∃ fuel r₀ m₁, (Stmt.runInTurn fuel p.statements q.statements).run m = some (r₀, m₁) ∧
      r₀.mapError .runtime = r ∧ m₁.unflushed = m'.unflushed := by
  have inTurn (r₀ : Except RuntimeError Unit) (m₁ : Machine) :
      Action.Finishes (Stmt.runInTurn · p.statements q.statements) m r₀ m₁ ↔ _ :=
    Action.finishes_bind_iff (Stmt.runProgram_grows _) fun _ => Stmt.runProgram_grows _
  cases ended with
  | failed failed =>
    obtain ⟨fuel, r₀, m₁, ran, same, rfl⟩ := (ends_iff first steady).1 failed
    cases r₀ with
    | ok u => cases same
    | error e =>
      obtain ⟨fuel, ran⟩ := (inTurn (.error e) m₁).2 (.inl ⟨e, ⟨fuel, ran⟩, rfl⟩)
      exact ⟨fuel, .error e, m₁, ran, same, rfl⟩
  | both done ended =>
    obtain ⟨fuel₁, r₁, m₁, ran₁, same₁, rfl⟩ := (ends_iff first steady).1 done
    have steady₁ := Stmt.steady_of_runProgram steady ran₁
    obtain ⟨fuel₂, r₂, m₂, ran₂, same₂, rfl⟩ := (ends_iff second steady₁.flush).1 ended
    cases r₁ with
    | error e => cases same₁
    | ok u =>
      obtain ⟨m₂', ran₂', same⟩ := (Action.closed_heedless.runProgram fuel₂ q.statements).ends
        (.of_flushed steady₁) ran₂
      -- each source ended with fuel of its own
      obtain ⟨fuel, ran⟩ := (inTurn r₂ m₂').2 (.inr ⟨u, m₁, ⟨fuel₁, ran₁⟩, fuel₂, ran₂'⟩)
      exact ⟨fuel, r₂, m₂', ran, same₂, same.unflushed.symm⟩

theorem endsInTurn_of_runInTurn (first : compile a = .ok p) (second : compile b = .ok q)
    (steady : m.sink.Steady) {fuel : Nat} {r : Except RuntimeError Unit} {m₁ : Machine}
    (ended : (Stmt.runInTurn fuel p.statements q.statements).run m = some (r, m₁)) :
    ∃ m', EndsInTurn a b m (r.mapError .runtime) m' ∧ m₁.unflushed = m'.unflushed := by
  obtain ⟨e, failed, rfl⟩ | ⟨u, m₂, ran₁, ran₂⟩ := Action.bind_ended ended
  · exact ⟨_, .failed ((ends_iff first steady).2 ⟨fuel, _, m₁, failed, rfl, rfl⟩), rfl⟩
  · have steady₂ := Stmt.steady_of_runProgram steady ran₁
    obtain ⟨m₁', ran₂', same⟩ := (Action.closed_heedless.runProgram fuel q.statements).ends
      (Machine.UpToFlushes.of_flushed steady₂).symm ran₂
    have done : Ends a m (.ok ()) m₂.flushed :=
      (ends_iff first steady).2 ⟨fuel, _, m₂, ran₁, rfl, rfl⟩
    have ends := (ends_iff second steady₂.flush).2 ⟨fuel, r, m₁', ran₂', rfl, rfl⟩
    exact ⟨_, .both done ends, same.unflushed⟩

end

/-- Running a program in pieces is running it whole, unless the sink tells the difference: it
fails to be flushed, or takes note of it. -/
theorem run_append (a b : String) (p q : Program) (first : compile a = .ok p)
    (second : compile b = .ok q) (apart : ¬nextIs (.keyword .otherwise) (tokenize b))
    (m : Machine) (steady : m.sink.Steady) :
    (∀ r m', Ends (a ++ "\n" ++ b) m r m' →
      ∃ r' m'', EndsInTurn a b m r' m'' ∧ Alike r m' r' m'') ∧
    ∀ r m', EndsInTurn a b m r m' →
      ∃ r' m'', Ends (a ++ "\n" ++ b) m r' m'' ∧ Alike r m' r' m'' := by
  have whole : compile (a ++ "\n" ++ b) =
      .ok ⟨p.statements ++ Stmt.relabelAll (· + linesTaken a) q.statements⟩ := by
    rw [compile_append first apart, second]
    rfl
  have same (fuel : Nat) :=
    Stmt.runProgram_append_moved fuel (linesTaken a) p.statements q.statements m
  constructor
  · intro r m' ended
    obtain ⟨fuel, r₀, m₀, ran, rfl, rfl⟩ := (ends_iff whole steady).1 ended
    have alike := same fuel
    rw [ran, Option.map_some, eq_comm, Option.map_eq_some_iff] at alike
    obtain ⟨⟨r₁, m₁⟩, ran₁, lines⟩ := alike
    obtain ⟨m₂, inTurn, flushes⟩ := endsInTurn_of_runInTurn first second steady ran₁
    exact ⟨_, m₂, inTurn, (alike_of_relabelEnd lines.symm flushes).flushed⟩
  · intro r m' ended
    obtain ⟨fuel, r₀, m₀, ran, rfl, flushes⟩ := ended.runInTurn first second steady
    have alike := same fuel
    rw [ran, Option.map_some, Option.map_eq_some_iff] at alike
    obtain ⟨⟨r₁, m₁⟩, ran₁, lines⟩ := alike
    have atOnce := (ends_iff whole steady).2 ⟨fuel, r₁, m₁, ran₁, rfl, rfl⟩
    exact ⟨_, _, atOnce, (alike_of_relabelEnd lines flushes).flushed.symm⟩

/-- The error of the second source is on the second line of both. -/
theorem run_append_undefined :
    let m := Machine.new .lexical defaultCallLimit ⟨[]⟩ {}
    ∃ r m', Ends ("@" ++ "\n" ++ "f()") m r m' ∧
      Alike (.error (.runtime ⟨.undefinedFunction "f", 1⟩)) m.flushed.flushed r m' := by
  intro m
  have tokens : tokenize "@" = [⟨.comment, "@", 1⟩, ⟨.endOfFile, "", 1⟩] := by decide +kernel
  have first : compile "@" = .ok ⟨[.comment 1 (Stmt.commentText "@")]⟩ := by
    rw [compile_ok, tokens]
    exact ⟨by simp, .cons (.comment rfl) .nil fun h => by cases h⟩
  have apart : ¬nextIs (.keyword .otherwise) (tokenize "f()") := by decide +kernel
  have steady : m.sink.Steady := ⟨nofun, fun _ => rfl, fun _ _ => rfl⟩
  have done : Ends "@" m (.ok ()) m.flushed :=
    (ends_iff first steady).2 ⟨1, .ok (), m, rfl, rfl, rfl⟩
  have failed : Ends "f()" m.flushed (.error (.runtime ⟨.undefinedFunction "f", 1⟩))
      m.flushed.flushed :=
    (ends_iff compile_call steady.flush).2 ⟨3, _, m.flushed, rfl, rfl, rfl⟩
  exact (run_append _ _ _ _ first compile_call apart m steady).2 _ _ (.both done failed)

end Betik
