/-
The first end of file delimits the input.

What stands behind it changes nothing.  If it is missing, then what is missed is noticed
where it would have been looked at, and an error that is raised earlier stays what it is.
So errors have to be told apart by the token that they are raised at, which the result of a
reader does not show and a journey does.
-/
import Betik.Proofs.Syntax.Punctual.Program
import Betik.Proofs.Walk.Progress

namespace Betik

open Walk

variable {α : Type} {ts : List Token} {eof : Token}

/-! ## Behind the end of file -/

/-- A list that is cut in front of its last token or before. -/
theorem split_before_last {us rest : List Token} (split : ts ++ [eof] = us ++ rest)
    (nonempty : rest ≠ []) : ∃ vs, rest = vs ++ [eof] ∧ ts = us ++ vs := by
  obtain rfl | ⟨vs, last, rfl⟩ := List.eq_nil_or_concat rest
  · exact absurd rfl nonempty
  · rw [List.concat_eq_append] at nonempty split ⊢
    rw [← List.append_assoc] at split
    obtain ⟨same, rfl⟩ := List.append_inj' split rfl |>.imp_right List.singleton_inj.1
    exact ⟨vs, rfl, same⟩

section

variable {E : List Token → Prop} {pre : List Token} (ends : eof.kind = .endOfFile)

include ends

theorem Fault.delimited {r : List Token → Except ParseError α} {e : ParseError}
    (h : Fault r E pre (ts ++ [eof]) e) (rest : List Token) :
    r (ts ++ eof :: rest) = .error e := by
  generalize whole : ts ++ [eof] = us at h
  cases h with
  | stop endless => exact absurd ends (endless eof (by simp [← whole]))
  | @token us rest' t _ about before opens certain =>
    obtain ⟨vs, behind, rfl⟩ := split_before_last whole (by simp)
    rw [List.append_assoc]
    cases vs with
    | nil =>
      obtain ⟨rfl, -⟩ := List.cons.inj behind
      exact certain rest (.inl ends)
    | cons v vs =>
      obtain ⟨rfl, rfl⟩ := List.cons.inj behind
      refine certain _ (.inr ?_)
      cases vs <;> rfl

/-- A punctual reader gives the same whatever is behind the end of file. -/
theorem PunctualAt.delimited {r : List Token → Except ParseError (α × List Token)}
    (h : PunctualAt r E pre (ts ++ [eof])) (rest : List Token) :
    (r (ts ++ eof :: rest)).map Prod.fst = (r (ts ++ [eof])).map Prod.fst := by
  cases read : r (ts ++ [eof]) with
  | error e => rw [(h.error e read).delimited ends rest]
  | ok p =>
    obtain ⟨a, left⟩ := p
    obtain ⟨us, whole, before, lasts⟩ := h.ok a left read
    have nonempty : left ≠ [] := by
      rintro rfl
      rw [List.append_nil] at whole
      exact before eof (by simp [← whole]) ends
    obtain ⟨vs, rfl, rfl⟩ := split_before_last whole nonempty
    have same : (vs ++ eof :: rest).head? = (vs ++ [eof]).head? := by simp [List.head?_append]
    rw [List.append_assoc, lasts _ same]
    rfl

theorem read_behind (rest : List Token) :
    (Expr.read (ts ++ eof :: rest)).map Parsed.value =
      (Expr.read (ts ++ [eof])).map Parsed.value := by
  rw [read_value, read_value]
  have punctual := Expr.scanExpr_punctual ((ts ++ [eof]).length + 1)
  exact (punctual.at_ (ts ++ [eof]) (Nat.lt_succ_self _)).delimited ends rest

theorem parse_behind (before : Lacks .endOfFile ts) (rest : List Token) :
    parse (ts ++ eof :: rest) = parse (ts ++ [eof]) := by
  cases read : parse (ts ++ [eof]) with
  | ok p =>
    rw [parse_eq_ok before ends rest]
    exact (parse_eq_ok before ends [] p).1 read
  | error e =>
    rw [parse_eq_error (by simp)] at read ⊢
    exact (readStatements_fault read).delimited ends rest

end

/-! ## Without the end of file -/

def RaisedAt (ts : List Token) (e : ParseError) (place : Nat) : Prop :=
  ∃ j, parsing (enoughFor ts.length) ts = some j ∧ j.result = .error ⟨e, place⟩

/-- A list without an end of file is no program. -/
theorem parse_endless (before : Lacks .endOfFile ts) (p : Program) : parse ts ≠ .ok p := by
  intro read
  obtain ⟨us, eof, rest, rfl, ends, -⟩ := readStatements_sound (parse_ok.1 read)
  exact before eof (by simp) ends

theorem parsing_of_ne_nil (nonempty : ts ≠ []) (fuel : Nat) :
    parsing fuel ts = (program fuel).run ts 0 0 := by
  rw [parsing, if_neg (by simpa using nonempty)]

/-- The same fuel is enough for both lists, so one journey is a part of the other. -/
theorem parse_missing (nonempty : ts ≠ []) (before : Lacks .endOfFile ts)
    (ends : eof.kind = .endOfFile) {j : Journey Program}
    (ran : parsing (enoughFor (ts ++ [eof]).length) (ts ++ [eof]) = some j) :
    (parse ts = j.outcome ∧ ∀ r, j.result = .error r → r.place < ts.length) ∨
      parse ts = .error .beyondEndOfFile ∧ ∀ r, j.result = .error r → r.place = ts.length := by
  have enough : enoughFor ts.length ≤ enoughFor (ts ++ [eof]).length := by
    simp only [enoughFor, List.length_append]
    omega
  obtain ⟨j', ran', outcome, -⟩ := parsing_tells nonempty enough
  rw [parsing_of_ne_nil nonempty] at ran'
  rw [parsing_of_ne_nil (by simp)] at ran
  have first : 0 < ts.length := List.length_pos_iff.2 nonempty
  have misses := run_withoutEnd before ends (Nat.zero_le _) first ran
  rw [ran'] at misses
  rw [← outcome]
  obtain ⟨same, refused⟩ | ⟨⟨_, same, missing⟩, refused⟩ := misses
  · cases same
    exact .inl ⟨rfl, refused⟩
  · cases same
    rw [Journey.outcome, missing]
    exact .inr ⟨rfl, refused⟩

/-- What is behind the first end of file is not parsed.  If it is missing, then parsing never
succeeds: it ends with the same error, if that is raised at a token in front of it, and
otherwise with the error that the tokens just stop. -/
theorem parse_delimited (before : Lacks .endOfFile ts) (ends : eof.kind = .endOfFile) :
    (∀ rest, parse (ts ++ eof :: rest) = parse (ts ++ [eof]) ∧
      (Expr.read (ts ++ eof :: rest)).map Parsed.value =
        (Expr.read (ts ++ [eof])).map Parsed.value) ∧
    (ts ≠ [] → (∀ p, parse ts ≠ .ok p) ∧
      (∀ p, parse (ts ++ [eof]) = .ok p → parse ts = .error .beyondEndOfFile) ∧
      ∀ e, parse (ts ++ [eof]) = .error e →
        ∃ place t, (ts ++ [eof])[place]? = some t ∧ e.About t ∧ RaisedAt (ts ++ [eof]) e place ∧
          parse ts = .error (if place < ts.length then e else .beyondEndOfFile)) := by
  refine ⟨fun rest => ⟨parse_behind ends before rest, read_behind ends rest⟩, fun nonempty => ?_⟩
  obtain ⟨j, ran, outcome, -, tells⟩ := parsing_tells (List.concat_ne_nil eof ts) (Nat.le_refl _)
  have missing := parse_missing nonempty before ends ran
  refine ⟨parse_endless before, fun p read => ?_, fun e read => ?_⟩
  · obtain ⟨same, -⟩ | ⟨stops, -⟩ := missing
    · exact absurd (same.trans (outcome.trans read)) (parse_endless before p)
    · exact stops
  · rw [scanProgram_error (by simp) read] at tells
    obtain ⟨place, failed, why⟩ := tells
    have inside : place ≤ ts.length := by
      obtain ⟨-, refused⟩ | ⟨-, refused⟩ := missing
      · exact Nat.le_of_lt (refused _ failed)
      · exact Nat.le_of_eq (refused _ failed)
    obtain ⟨-, rfl⟩ | ⟨t, found, earns⟩ := why
    · simp only [List.nil_append, List.length_append, List.length_singleton] at inside
      omega
    · refine ⟨place, t, found, earns.about, ⟨j, ran, failed⟩, ?_⟩
      obtain ⟨same, refused⟩ | ⟨stops, refused⟩ := missing
      · rw [if_pos (refused _ failed), same, outcome, read]
      · rw [if_neg (Nat.not_lt_of_le (Nat.le_of_eq (refused _ failed).symm)), stops]

/-- Three lists with a comment in front: with the end of file the first is a program, also if
a brace stands behind it, the second fails at the first of its names, and the third at the end
of file itself. -/
theorem parse_delimited_dollar :
    let comment : Token := ⟨.comment, "@", 1⟩
    let eof : Token := ⟨.endOfFile, "", 3⟩
    let behind : List Token := [⟨.mark .rightBrace, "\x7d", 4⟩, eof]
    let whole : List Token := [comment, ⟨.mark .dollar, "$", 1⟩]
    let names : List Token := [comment, ⟨.name, "x", 2⟩, ⟨.name, "y", 2⟩]
    let cut : List Token := [comment, ⟨.keyword .print, "yazdır", 2⟩]
    let program : Program := ⟨[.comment 1 (Stmt.commentText "@")]⟩
    (∀ ts ∈ [whole, names, cut], Lacks .endOfFile ts ∧ ts ≠ []) ∧ eof.kind = .endOfFile ∧
      parse (whole ++ eof :: behind) = .ok program ∧ parse whole = .error .beyondEndOfFile ∧
      parse (names ++ eof :: behind) = .error (.unexpectedToken 2 "x") ∧
      parse names = .error (.unexpectedToken 2 "x") ∧
      parse (cut ++ [eof]) = .error (.expectedToken 3 (.mark .leftParen) eof.found) ∧
      parse cut = .error .beyondEndOfFile := by
  intro comment eof behind whole names cut program
  have lists : ∀ ts ∈ [whole, names, cut], Lacks .endOfFile ts ∧ ts ≠ [] := by
    simp [whole, names, cut, comment]
  obtain ⟨⟨before₁, nonempty₁⟩, ⟨before₂, nonempty₂⟩, ⟨before₃, nonempty₃⟩⟩ :
      (Lacks .endOfFile whole ∧ whole ≠ []) ∧ (Lacks .endOfFile names ∧ names ≠ []) ∧
        (Lacks .endOfFile cut ∧ cut ≠ []) := by
    simpa using lists
  have ends : eof.kind = .endOfFile := rfl
  have read₁ : parse (whole ++ [eof]) = .ok program := by
    have first : Stmt.Derives .direct [comment] (.one (.comment 1 (Stmt.commentText "@"))) :=
      .comment rfl
    exact (parse_eq_ok before₁ ends [] program).2 (.cons first (.empty rfl .nil) nofun)
  have read₂ : parse (names ++ [eof]) = .error (.unexpectedToken 2 "x") := by
    simp [names, comment, parse_eq_error, readStatements_cons, Stmt.scanOne_cons, nextIs,
      Token.found, bind, Except.bind]
  have read₃ : parse (cut ++ [eof]) = .error (.expectedToken 3 (.mark .leftParen) eof.found) := by
    simp [cut, comment, eof, parse_eq_error, readStatements_cons, Stmt.scanOne_cons,
      Stmt.scanPrint_eq, Stmt.scanParenthesized_eq, Stmt.noted, scanToken_cons, bind,
      Except.bind]
  obtain ⟨same₁, missing₁⟩ := parse_delimited before₁ ends
  obtain ⟨same₂, missing₂⟩ := parse_delimited before₂ ends
  obtain ⟨-, missing₃⟩ := parse_delimited before₃ ends
  refine ⟨lists, ends, (same₁ behind).1.trans read₁, (missing₁ nonempty₁).2.1 _ read₁,
    (same₂ behind).1.trans read₂, ?_, read₃, ?_⟩
  · obtain ⟨place, t, found, about, -, fails⟩ := (missing₂ nonempty₂).2.2 _ read₂
    have own : place < names.length := by
      obtain _ | _ | _ | _ | n := place
      · decide
      · decide
      · decide
      · cases found
        cases about.1
      · cases found
    rw [fails, if_pos own]
  · obtain ⟨place, t, found, about, -, fails⟩ := (missing₃ nonempty₃).2.2 _ read₃
    have last : ¬place < cut.length := by
      obtain _ | _ | n := place
      · cases found
        cases about.1
      · cases found
        cases about.1
      · exact Nat.not_lt.2 (Nat.le_add_left 2 n)
    rw [fails, if_neg last]

end Betik
