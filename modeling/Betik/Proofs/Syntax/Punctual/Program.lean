/-
Syntax errors are found at the earliest token.

The tokens in front of the offending one could still have become a program.  With it
they cannot any more, whatever follows; one more token has been looked at where a name
or the word for printing might begin a call, or a name an assignment.
-/
import Betik.Proofs.Syntax.Punctual.Statements

namespace Betik

theorem parse_eq_error {ts : List Token} (nonempty : ts ≠ []) {e : ParseError} :
    parse ts = .error e ↔ readStatements ts = .error e := by
  cases ts with
  | nil => exact absurd rfl nonempty
  | cons t ts =>
    rw [parse]
    cases readStatements (t :: ts) <;> simp [Functor.map, Except.map]

/-- What begins a sequence of statements begins a program. -/
theorem Opens.parse {us : List Token} (h : Opens (Spells Stmt.IsMany) us) :
    ∃ vs, ∀ eof : Token, eof.kind = .endOfFile → ∃ p, parse (us ++ vs ++ [eof]) = .ok p := by
  obtain ⟨vs, ss, d⟩ := h
  obtain ⟨ss', d'⟩ := d.resolve
  exact ⟨vs, fun eof ends => ⟨⟨ss'⟩, (parse_eq_ok d'.lacks_endOfFile ends [] _).2 d'⟩⟩

/-- How many tokens, from the offending one on, an error depends on. -/
def Token.reach (t : Token) : Nat :=
  if t.kind = .endOfFile then 1 else 2

section

variable {ts : List Token} (ends : ∃ t ∈ ts, t.kind = .endOfFile) {e : ParseError}
  (h : parse ts = .error e)

include ends h

/-- A list that has an end is never read beyond it, so one of its tokens is to blame. -/
theorem parse_error_token : ∃ us t rest, ts = us ++ t :: rest ∧ e.About t ∧
    Lacks .endOfFile us ∧ Opens (Spells Stmt.IsMany) us ∧
    ∀ rest', t.kind = .endOfFile ∨ nextKind rest' = nextKind rest →
      parse (us ++ t :: rest') = .error e := by
  obtain ⟨eof, member, isEnd⟩ := ends
  have fault := readStatements_fault ((parse_eq_error (List.ne_nil_of_mem member)).1 h)
  cases fault with
  | stop endless => exact absurd isEnd (endless eof member)
  | @token us rest t _ about before opens certain =>
    refine ⟨us, t, rest, rfl, about, before, opens, fun rest' sees => ?_⟩
    exact (parse_eq_error (by simp)).2 (certain rest' sees)

/-- The token to blame for an error is the first at which it is certain: the tokens
before it begin a program, and all lists that agree up to it and the next token fail in
the same way.  Behind the end of file nothing is looked at. -/
theorem parse_error_earliest :
    ∃ (i : Nat) (t : Token), ts[i]? = some t ∧ e.About t ∧
      (∃ vs, ∀ eof : Token, eof.kind = .endOfFile → ∃ p, parse (ts.take i ++ vs ++ [eof]) = .ok p) ∧
      ∀ us : List Token, us.take (i + t.reach) = ts.take (i + t.reach) → parse us = .error e := by
  obtain ⟨us, t, rest, rfl, about, before, opens, certain⟩ := parse_error_token ends h
  refine ⟨us.length, t, by simp, about, by simpa using opens.parse, fun vs agree => ?_⟩
  have split : vs = us ++ (t :: rest).take t.reach ++ vs.drop (us.length + t.reach) := by
    rw [← List.take_length_add_append, ← agree, List.take_append_drop]
  generalize vs.drop (us.length + t.reach) = others at split
  by_cases last : t.kind = .endOfFile
  · rw [Token.reach, if_pos last] at split
    rw [split, List.append_assoc]
    exact certain others (.inl last)
  · -- the end comes later, so there is a next token
    obtain ⟨eof, member, isEnd⟩ := ends
    have later : eof ∈ rest := by
      rcases List.mem_append.1 member with inside | inside
      · exact absurd isEnd (before eof inside)
      · refine List.mem_of_ne_of_mem ?_ inside
        rintro rfl
        exact last isEnd
    obtain ⟨next, tail, rfl⟩ := List.exists_cons_of_ne_nil (List.ne_nil_of_mem later)
    rw [Token.reach, if_neg last] at split
    rw [split, List.append_assoc]
    exact certain (next :: others) (.inr rfl)

end

/-- Two names side by side behind a comment: the first one is to blame.  The comment begins a
program, and whatever follows the names does not help. -/
theorem parse_error_earliest_names :
    let comment : Token := ⟨.comment, "@", 1⟩
    let x : Token := ⟨.name, "x", 2⟩
    let y : Token := ⟨.name, "y", 2⟩
    let ts : List Token := [comment, x, y, ⟨.endOfFile, "", 3⟩]
    (∃ t ∈ ts, t.kind = .endOfFile) ∧ parse ts = .error (.unexpectedToken 2 "x") ∧
      ParseError.About x (.unexpectedToken 2 "x") ∧
      (∃ vs, ∀ eof : Token, eof.kind = .endOfFile → ∃ p, parse ([comment] ++ vs ++ [eof]) = .ok p) ∧
      ∀ rest, parse (comment :: x :: y :: rest) = .error (.unexpectedToken 2 "x") := by
  intro comment x y ts
  have ends : ∃ t ∈ ts, t.kind = .endOfFile := ⟨⟨.endOfFile, "", 3⟩, by simp [ts], rfl⟩
  have fails : parse ts = .error (.unexpectedToken 2 "x") := by
    simp [ts, comment, x, y, parse_eq_error, readStatements_cons, Stmt.scanOne_cons, nextIs,
      Token.found, bind, Except.bind]
  obtain ⟨i, t, found, about, completed, forced⟩ := parse_error_earliest ends fails
  -- no other token has this line and this lexeme
  obtain rfl : i = 1 := by
    obtain _ | _ | _ | _ | n := i
    · cases found
      cases about.1
    · rfl
    · cases found
      exact absurd about.2 (by decide)
    · cases found
      cases about.1
    · cases found
  cases found
  exact ⟨ends, fails, about, completed, fun rest => forced _ rfl⟩

end Betik
