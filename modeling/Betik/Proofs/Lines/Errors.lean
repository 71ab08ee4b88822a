/-
Errors are about lines that the source has.

No line is made up on the way from tokens to an error: lines are carried along and never
looked at.  So if a relabelling leaves the lines of the tokens as they are, it leaves the
tree as it is and the error as well.  Such a relabelling can change every other line;
hence the line of an error is that of a token.
-/
import Betik.Proofs.Lines.Running
import Betik.Proofs.Sequence.Compile
import Betik.Proofs.Syntax.Punctual.Program
import Betik.Session

namespace Betik

open Text

def keepLines (lines : List Nat) (n : Nat) : Nat :=
  if n ∈ lines then n else n + 1

theorem keepLines_eq_self {lines : List Nat} {n : Nat} : keepLines lines n = n ↔ n ∈ lines := by
  unfold keepLines
  split <;> simp_all

theorem map_relabel_keepLines (ts : List Token) :
    ts.map (Token.relabel (keepLines (ts.map Token.line))) = ts := by
  refine Eq.trans (List.map_congr_left fun t member => ?_) (List.map_id ts)
  have kept := keepLines_eq_self.2 (List.mem_map_of_mem (f := Token.line) member)
  rw [Token.relabel, kept]
  rfl

/-- All lines of a tree are lines of its tokens. -/
theorem parse_relabel_keepLines {ts : List Token} {p : Program} (parsed : parse ts = .ok p) :
    p.relabel (keepLines (ts.map Token.line)) = p := by
  have same := parse_relabel (f := keepLines (ts.map Token.line)) ts
  rw [map_relabel_keepLines, parsed] at same
  exact (Except.ok.inj same).symm

/-- An error of a program that no function is left from is about a line of its tree. -/
theorem Stmt.runProgram_error_line {fuel : Nat} {p : Program} {lines : List Nat}
    (kept : p.relabel (keepLines lines) = p) {m m' : Machine} (none : m.functions = .empty)
    {e : RuntimeError} (ran : (Stmt.runProgram fuel p.statements).run m = some (.error e, m')) :
    e.line ∈ lines := by
  have machine : m.relabel (keepLines lines) = m := by
    rw [Machine.relabel, none]
    obtain ⟨environment, functions, input, sink, callDepth, callLimit⟩ := m
    cases none
    rfl
  have statements : Stmt.relabelAll (keepLines lines) p.statements = p.statements :=
    congrArg Program.statements kept
  have same := relabels_runProgram (keepLines lines) fuel p.statements m
  rw [machine, statements, ran] at same
  injection same with same
  injection same with same
  injection same with same
  exact keepLines_eq_self.1 (congrArg RuntimeError.line same).symm

/-- The line counter never falls, and it ends behind the last line break. -/
theorem Scans.line_bounds {line : Nat} {cs : List Char} {ts : List Token} (h : Scans line cs ts)
    {t : Token} (member : t ∈ ts) : line ≤ t.line ∧ t.line ≤ line + lineBreaks cs := by
  induction h with
  | ends =>
    rw [List.mem_singleton] at member
    subst member
    exact ⟨Nat.le_add_right .., Nat.le_refl _⟩
  | @token line gap lexeme rest _ _ _ _ _ ih =>
    simp only [lineBreaks_append] at ih ⊢
    obtain rfl | later := List.mem_cons.1 member
    · exact ⟨Nat.le_add_right .., by simp only; omega⟩
    · have bounds := ih later
      omega

theorem tokenize_endOfFile (source : String) : ∃ t ∈ tokenize source, t.kind = .endOfFile := by
  obtain ⟨ts, eof, split, ends, -⟩ := tokenize_ends source
  exact ⟨eof, by simp [split], ends⟩

/-- What the parser reports about a source names one of its tokens. -/
theorem parse_tokenize_error {source : String} {e : ParseError}
    (failed : parse (tokenize source) = .error e) :
    ∃ t ∈ tokenize source, ParseError.About t e := by
  obtain ⟨us, t, rest, split, about, -⟩ := parse_error_token (tokenize_endOfFile source) failed
  exact ⟨t, by simp [split], about⟩

theorem ParseError.About.line {t : Token} {e : ParseError} (h : e.About t) :
    e.line? = some t.line := by
  cases e with
  | emptyInput | beyondEndOfFile => cases h
  | _ => exact congrArg some h.1

theorem checkTokens_error {ts : List Token} {e : LexError} (h : checkTokens ts = .error e) :
    ∃ t ∈ ts, t.line = e.line := by
  unfold checkTokens at h
  split at h
  · rename_i t found
    cases h
    exact ⟨t, List.mem_of_find?_eq_some found, rfl⟩
  · cases h

/-- Compiling fails for a stray character, or because the parser does. -/
theorem compile_error {source : String} {e : Error} (h : compile source = .error e) :
    (∃ e', e = .lex e' ∧ checkTokens (tokenize source) = .error e') ∨
      ∃ e', e = .parse e' ∧ parse (tokenize source) = .error e' := by
  have stages : compile source = (do
      (checkTokens (tokenize source)).mapError .lex
      (parse (tokenize source)).mapError .parse) := rfl
  rw [stages] at h
  cases checked : checkTokens (tokenize source) with
  | error e' =>
    rw [checked] at h
    cases h
    exact .inl ⟨e', rfl, rfl⟩
  | ok =>
    cases parsed : parse (tokenize source) with
    | error e' =>
      rw [checked, parsed] at h
      cases h
      exact .inr ⟨e', rfl, rfl⟩
    | ok p =>
      rw [checked, parsed] at h
      cases h

theorem compile_error_line {source : String} {e : Error} (h : compile source = .error e) :
    ∃ t ∈ tokenize source, e.line? = some t.line := by
  obtain ⟨e, rfl, failed⟩ | ⟨e, rfl, failed⟩ := compile_error h
  · obtain ⟨t, member, same⟩ := checkTokens_error failed
    exact ⟨t, member, congrArg some same.symm⟩
  · obtain ⟨t, member, about⟩ := parse_tokenize_error failed
    exact ⟨t, member, about.line⟩

theorem parse_of_compile {source : String} {p : Program} (h : compile source = .ok p) :
    parse (tokenize source) = .ok p := by
  obtain ⟨ts, eof, split, ends, inner⟩ := tokenize_ends source
  obtain ⟨-, d⟩ := compile_ok.1 h
  rw [split, List.dropLast_concat] at d
  rw [split]
  exact (parse_eq_ok inner ends [] p).2 d

theorem run_error {source : String} {fuel : Nat} {m m' : Machine} {e : Error}
    (h : run fuel source m = some (.error e, m')) :
    compile source = .error e ∨ ∃ p e', compile source = .ok p ∧
      (p.run fuel).run m = some (.error e', m') ∧ e = .runtime e' := by
  unfold run at h
  cases compiled : compile source with
  | error e' =>
    rw [compiled] at h
    cases h
    exact .inl rfl
  | ok p =>
    rw [compiled] at h
    obtain ⟨⟨r, m₁⟩, ran, same⟩ := Option.map_eq_some_iff.1 h
    cases r with
    | ok => cases same
    | error e' =>
      cases same
      exact .inr ⟨p, e', rfl, ran, rfl⟩

/-- Every error has a line that the source has.  Only the flush at the end has none: its
failure is reported on line zero, and only if every statement has succeeded.  In
particular the tokens of a source are never none, and never just stop. -/
theorem error_line (source : String) :
    (∀ scope limit input sink fuel e m',
      run fuel source (.new scope limit input sink) = some (.error e, m') →
      ∃ n, e.line? = some n ∧
        ((∃ t ∈ tokenize source, t.line = n) ∧ 1 ≤ n ∧ n ≤ 1 + lineBreaks source.toList ∨
          n = 0 ∧ ∃ p failure m₁, e = .runtime ⟨.io failure, 0⟩ ∧ compile source = .ok p ∧
            (Stmt.runProgram fuel p.statements).run (.new scope limit input sink) =
              some (.ok (), m₁) ∧
            m₁.sink.flush.1 = .error failure ∧ m' = m₁.flushed)) ∧
    compile source ≠ .error (.parse .emptyInput) ∧
    compile source ≠ .error (.parse .beyondEndOfFile) := by
  refine ⟨?_, fun failed => ?_, fun failed => ?_⟩
  · intro scope limit input sink fuel e m' failed
    have real {t : Token} (member : t ∈ tokenize source) :
        (∃ u ∈ tokenize source, u.line = t.line) ∧ 1 ≤ t.line ∧
          t.line ≤ 1 + lineBreaks source.toList :=
      ⟨⟨t, member, rfl⟩, (scans_scan 1 source.toList).line_bounds member⟩
    obtain refused | ⟨p, e, compiled, ran, rfl⟩ := run_error failed
    · obtain ⟨t, member, line⟩ := compile_error_line refused
      exact ⟨t.line, line, .inl (real member)⟩
    · obtain ⟨m₁, rfl, stopped | ⟨_, failure, done, flushed, rfl⟩⟩ := Action.thenFlush_failed ran
      · have kept := parse_relabel_keepLines (parse_of_compile compiled)
        have inside := Stmt.runProgram_error_line kept rfl stopped
        obtain ⟨t, member, same⟩ := List.mem_map.1 inside
        exact ⟨t.line, congrArg some same.symm, .inl (real member)⟩
      · exact ⟨0, rfl, .inr ⟨rfl, p, failure, m₁, rfl, compiled, done, flushed, rfl⟩⟩
  · obtain ⟨t, -, line⟩ := compile_error_line failed
    cases line
  · obtain ⟨t, -, line⟩ := compile_error_line failed
    cases line

/-- A call of a function that there is not, on a machine whose flush fails too. -/
theorem error_line_of_call :
    let m := Machine.new .dynamic defaultCallLimit ⟨[]⟩ { flushFails := true }
    run 3 "f()" m = some (.error (.runtime ⟨.undefinedFunction "f", 1⟩), m.flushed) ∧
      ∃ t ∈ tokenize "f()", t.line = 1 := by
  intro m
  have failed : run 3 "f()" m =
      some (.error (.runtime ⟨.undefinedFunction "f", 1⟩), m.flushed) := by
    rw [run, compile_call]
    rfl
  obtain ⟨n, line, ⟨real, -⟩ | ⟨-, _, _, _, flush, -⟩⟩ := (error_line "f()").1 _ _ _ _ _ _ _ failed
  · cases line
    exact ⟨failed, real⟩
  · cases flush

end Betik
