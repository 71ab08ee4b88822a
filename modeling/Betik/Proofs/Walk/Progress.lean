/-
The parser makes progress and ends.

The readers end because their types say that they leave fewer tokens.  Nothing bounds the
walks, so it is shown of them: whatever the tokens, with fuel for their number a walk comes
to its end, and to the result of the reader.
-/
import Betik.Proofs.Walk.Statements

namespace Betik
namespace Walk

variable {α : Type}

def Journey.outcome (j : Journey α) : Except ParseError α :=
  j.result.mapError Refusal.error

/-- The journey goes forward, and not past an end of file; every round of a loop after which
there is another one has taken a token; and no statement is looked for at an end of file or
at a closing brace. -/
structure Journey.Progresses (ts : List Token) (j : Journey α) : Prop where
  forward : j.Forward ts 0
  proper : ∀ note ∈ j.notes, note.Proper ts

theorem Journey.Tells.outcome {pre ts : List Token} {j : Journey α}
    {result : Except ParseError (α × List Token)} (h : j.Tells pre ts result) :
    j.outcome = result.map Prod.fst := by
  cases result with
  | error e =>
    obtain ⟨place, failed, -⟩ := h
    rw [Journey.outcome, failed]
    rfl
  | ok p =>
    obtain ⟨us, -, ended, -⟩ := h
    rw [Journey.outcome, ended]
    rfl

/-- What a walk does that tracks a reader from the first token on. -/
theorem Tracks.run {w : Walk α} {ts : List Token} {result : Except ParseError (α × List Token)}
    (h : Tracks none w ts result) : ∃ j, w.run ts 0 0 = some j ∧ j.outcome = result.map Prod.fst ∧
      j.Progresses ts ∧ j.Tells [] ts result := by
  obtain ⟨j, ran, proper, tells⟩ := h [] 0 nofun
  exact ⟨j, ran, tells.outcome, ⟨run_forward (inside_zero ts) ran, proper⟩, tells⟩

theorem scanProgram_parse {ts : List Token} (nonempty : ts ≠ []) :
    (scanProgram ts).map Prod.fst = parse ts := by
  rw [parse, if_neg (by simpa using nonempty), scanProgram, scanStatements]
  cases readStatements ts <;> rfl

theorem scanProgram_error (nonempty : ts ≠ []) {e : ParseError} (read : parse ts = .error e) :
    scanProgram ts = .error e := by
  rw [← scanProgram_parse nonempty] at read
  cases scanned : scanProgram ts with
  | error e' =>
    rw [scanned] at read
    cases read
    rfl
  | ok p =>
    rw [scanned] at read
    cases read

theorem parsing_tells {ts : List Token} (nonempty : ts ≠ []) {fuel : Nat}
    (enough : enoughFor ts.length ≤ fuel) : ∃ j, parsing fuel ts = some j ∧
      j.outcome = parse ts ∧ j.Progresses ts ∧ j.Tells [] ts (scanProgram ts) := by
  rw [parsing, if_neg (by simpa using nonempty), ← scanProgram_parse nonempty]
  unfold enoughFor at enough
  exact (tracks_program (by omega)).run

theorem read_value (ts : List Token) :
    (Expr.read ts).map Parsed.value = (Expr.scanAt .logicalOr ts).map Prod.fst := by
  rw [Expr.scanAt, ← Expr.read]
  cases Expr.read ts <;> rfl

/-- On every list of tokens the parser ends, and in what it reads: as a program or as an
expression. -/
theorem parsing_progresses (ts : List Token) (fuel : Nat) (enough : enoughFor ts.length ≤ fuel) :
    (∃ j, parsing fuel ts = some j ∧ j.outcome = parse ts ∧ j.Progresses ts) ∧
      ∃ j, parsingExpr fuel ts = some j ∧
        j.outcome = (Expr.read ts).map Parsed.value ∧ j.Progresses ts := by
  refine ⟨?_, ?_⟩
  · by_cases empty : ts = []
    · subst empty
      exact ⟨_, rfl, rfl, .still (inside_zero []) _ _, nofun⟩
    · obtain ⟨j, ran, outcome, progresses, -⟩ := parsing_tells empty enough
      exact ⟨j, ran, outcome, progresses⟩
  · unfold enoughFor at enough
    have enough' : 10 * ts.length + 8 ≤ fuel := by omega
    obtain ⟨j, ran, outcome, progresses, -⟩ := ((tracksExpressions fuel).whole enough').run
    exact ⟨j, ran, outcome.trans (read_value ts).symm, progresses⟩

/-- A brace that closes nothing. -/
theorem parsing_progresses_brace :
    let ts : List Token := [⟨.mark .rightBrace, "\x7d", 1⟩]
    enoughFor ts.length ≤ 20 ∧
      ∃ j, parsing 20 ts = some j ∧ j.outcome = parse ts ∧ j.Progresses ts := by
  intro ts
  have enough : enoughFor ts.length ≤ 20 := by decide
  exact ⟨enough, (parsing_progresses ts 20 enough).1⟩

/-! ## Errors and their tokens -/

theorem Journey.Tells.earned {ts : List Token} {j : Journey α} {e : ParseError}
    (h : j.Tells [] ts (.error e)) : e = .beyondEndOfFile ∨ ∃ t ∈ ts, t.Earns e := by
  obtain ⟨place, -, ⟨stops, -⟩ | ⟨t, found, earns⟩⟩ := h
  · exact .inl stops
  · exact .inr ⟨t, List.mem_of_getElem? found, earns⟩

/-- The parser refuses the tokens because of one of them, or because they just stop. -/
theorem parse_error_earned {ts : List Token} (nonempty : ts ≠ []) {e : ParseError}
    (h : parse ts = .error e) : e = .beyondEndOfFile ∨ ∃ t ∈ ts, t.Earns e := by
  obtain ⟨j, -, -, -, tells⟩ := parsing_tells nonempty (Nat.le_refl _)
  rw [scanProgram_error nonempty h] at tells
  exact tells.earned

theorem read_error_earned {ts : List Token} {e : ParseError}
    (h : (Expr.read ts).map Parsed.value = .error e) :
    e = .beyondEndOfFile ∨ ∃ t ∈ ts, t.Earns e := by
  have tracks := (tracksExpressions (10 * ts.length + 8)).whole (Nat.le_refl _)
  obtain ⟨j, -, -, -, tells⟩ := tracks.run
  rw [read_value] at h
  cases read : Expr.scanAt .logicalOr ts with
  | error e' =>
    rw [read] at h tells
    cases h
    exact tells.earned
  | ok p =>
    rw [read] at h
    cases h

end Walk
end Betik
