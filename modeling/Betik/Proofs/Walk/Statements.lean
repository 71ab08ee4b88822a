/-
The walks that read statements and programs do what the readers do.

The loops of the parser would go round forever where a statement is looked for at an end of
file or at a closing brace.  So what is shown of looking for one is only what it does at
any other token, and it is the loops that have to see to the rest.
-/
import Betik.Proofs.Syntax.Punctual.Statements
import Betik.Proofs.Walk.Expressions

namespace Betik
namespace Walk

variable {α β : Type} {last : Option Token} {fuel : Nat} {t : Token} {ts : List Token}

namespace Tracks

/-- A token, and a walk behind it. -/
theorem token {kind : TokenKind} {f : Token → Walk β}
    {g : Token × List Token → Except ParseError (β × List Token)} (inside : kind ≠ .endOfFile)
    (second : ∀ t rest, rest.length < ts.length → Tracks none (f t) rest (g (t, rest))) :
    Tracks last (Walk.consume kind >>= f) ts (scanToken kind ts >>= g) := by
  refine (consume inside).bind fun t rest read => second t rest ?_
  obtain ⟨rfl, -⟩ := scanToken_ok.1 read
  exact Nat.lt_succ_self _

/-- An expression, and a walk behind it. -/
theorem expression {f : Expr → Walk β} {g : Expr × List Token → Except ParseError (β × List Token)}
    (enough : 10 * ts.length + 8 ≤ fuel)
    (second : ∀ e rest, rest.length < ts.length → Tracks none (f e) rest (g (e, rest))) :
    Tracks last (Walk.expression fuel .logicalOr >>= f) ts (Expr.scanAt .logicalOr ts >>= g) := by
  refine ((tracksExpressions fuel).whole enough).weaken.bind fun e rest read => second e rest ?_
  exact Expr.scanAt_shorter read

theorem parenthesized (enough : 10 * ts.length ≤ fuel) :
    Tracks last (Walk.parenthesized fuel) ts (Stmt.scanParenthesized ts) := by
  rw [Walk.parenthesized, Stmt.scanParenthesized_eq]
  refine .token (by decide) fun l rest less => ?_
  refine .expression (by omega) fun e rest less => ?_
  exact .token (by decide) fun r rest less => .done e

theorem dataType : Tracks last Walk.dataType ts (Stmt.scanDataType ts) := by
  cases ts with
  | nil => exact .step_nil
  | cons t ts =>
    rw [Stmt.scanDataType_cons]
    by_cases word : ∃ type, t.kind = .keyword (.dataType type)
    · obtain ⟨type, kind⟩ := word
      refine .take_cons (by simp [kind]) ?_
      simp only [kind]
      exact .done type
    · have other : Stmt.scanDataType (t :: ts) = .error (.expectedDataType t.line t.found) := by
        rw [Stmt.scanDataType_cons]
        split
        · exact absurd ⟨_, ‹_›⟩ word
        · rfl
      rw [← Stmt.scanDataType_cons, other]
      refine .take_refused ?_ t.earns_expectedDataType
      split
      · exact absurd ⟨_, ‹_›⟩ word
      · rfl

theorem declaration (kind : t.kind = .keyword .declare) (enough : 10 * ts.length ≤ fuel) :
    Tracks last (Walk.declaration fuel) (t :: ts) (Stmt.scanDeclaration t.line ts) := by
  rw [Walk.declaration, Stmt.scanDeclaration_eq]
  refine .consume_cons (by decide) kind ?_
  refine .token (by decide) fun name rest less => ?_
  refine .token (by decide) fun typed rest less => ?_
  refine dataType.bind fun type rest read => ?_
  obtain ⟨_, rfl, _⟩ := Stmt.scanDataType_ok.1 read
  rw [List.length_cons] at less
  refine .token (by decide) fun initially rest less => ?_
  refine .expression (by omega) fun e rest less => ?_
  exact .token (by decide) fun dollar rest less => .done _

theorem assignment (kind : t.kind = .name) (enough : 10 * ts.length ≤ fuel) :
    Tracks last (Walk.assignment fuel) (t :: ts) (Stmt.scanAssignment t ts) := by
  rw [Walk.assignment, Stmt.scanAssignment_eq]
  refine .consume_cons (by decide) kind ?_
  refine .token (by decide) fun equals rest less => ?_
  refine .expression (by omega) fun e rest less => ?_
  exact .token (by decide) fun dollar rest less => .done _

theorem print (kind : t.kind = .keyword .print) (enough : 10 * ts.length ≤ fuel) :
    Tracks last (Walk.print fuel) (t :: ts) (Stmt.scanPrint t.line ts) := by
  rw [Walk.print, Stmt.scanPrint_eq]
  refine .consume_cons (by decide) kind ?_
  refine (parenthesized enough).bind fun e rest read => ?_
  exact .token (by decide) fun dollar rest less => .done _

theorem ret (kind : t.kind = .keyword .ret) (enough : 10 * ts.length + 8 ≤ fuel) :
    Tracks last (Walk.ret fuel) (t :: ts) (Stmt.scanReturn t.line ts) := by
  rw [Walk.ret, Stmt.scanReturn_eq]
  refine .consume_cons (by decide) kind ?_
  refine .expression enough fun e rest less => ?_
  exact .token (by decide) fun dollar rest less => .done _

theorem callStatement (kind : t.kind = .name) (enough : 10 * ts.length + 10 ≤ fuel) :
    Tracks last (do
      let e ← call fuel
      let _ ← accept (.mark .dollar)
      return some (Stmt.expr t.line e)) (t :: ts) (Stmt.noted (Stmt.scanCallStatement t ts)) := by
  rw [Stmt.scanCallStatement_eq, Stmt.noted, bind_assoc]
  have called := (tracksExpressions fuel).call t ts (by simp [kind]) enough
  refine called.weaken.bind fun e rest _ => ?_
  cases rest with
  | nil => exact .look_nil
  | cons t' tail =>
    by_cases dollar : t'.kind = .mark .dollar
    · simp only [if_pos dollar]
      exact .accept_yes (by decide) dollar (.done _)
    · simp only [if_neg dollar]
      exact .accept_no dollar (.done _)

theorem noted {w : Walk Stmt} {result : Except ParseError (Stmt × List Token)}
    (h : Tracks last w ts result) : Tracks last (do return some (← w)) ts (Stmt.noted result) :=
  h.bind fun s _ _ => .done (some s)

end Tracks

/-! ## Sequences of statements -/

def scanBlockRound (ss : List Stmt) :
    List Token → Except ParseError (Turn (List Stmt) (List Stmt) × List Token)
  | [] => .error .beyondEndOfFile
  | t :: tail =>
    if t.kind = .mark .rightBrace then .ok (.leave ss, tail)
    else if t.kind = .endOfFile then .error (.expectedToken t.line (.mark .rightBrace) t.found)
    else do
      let (s, rest) ← Stmt.scanOne (t :: tail)
      return (.again (ss ++ s.toList), rest)

def scanProgramRound (ss : List Stmt) :
    List Token → Except ParseError (Turn (List Stmt) (List Stmt) × List Token)
  | [] => .error .beyondEndOfFile
  | t :: tail =>
    if t.kind = .endOfFile then .ok (.leave ss, t :: tail)
    else if t.kind = .mark .rightBrace then .error (.unexpectedToken t.line t.found)
    else do
      let (s, rest) ← Stmt.scanOne (t :: tail)
      return (.again (ss ++ s.toList), rest)

/-- The walk does what the reader of statements does, on all lists of fewer than `n` tokens
that can begin a statement. -/
def TracksOne (n : Nat) (statement : Walk (Option Stmt)) : Prop :=
  ∀ t ts, ts.length < n → t.kind ≠ .endOfFile → t.kind ≠ .mark .rightBrace →
    Tracks none statement (t :: ts) (Stmt.scanOne (t :: ts))

section

variable {statement : Walk (Option Stmt)} {n : Nat} (one : TracksOne n statement)

include one

theorem TracksOne.blockRound (ss : List Stmt) (ts : List Token) (short : ts.length ≤ n) :
    Tracks none (blockRound statement ss) ts (scanBlockRound ss ts) := by
  cases ts with
  | nil => exact .look_nil
  | cons t tail =>
    rw [scanBlockRound, Walk.blockRound]
    by_cases brace : t.kind = .mark .rightBrace
    · rw [if_pos brace]
      exact .accept_yes (by decide) brace (.done _)
    · rw [if_neg brace]
      refine .accept_no brace ?_
      refine .check_cons ?_
      by_cases ends : t.kind = .endOfFile
      · simp only [if_pos ends, decide_eq_true ends]
        exact .consume_other brace
      · simp only [if_neg ends, decide_eq_false ends]
        exact (one t tail short ends brace).weaken.bind fun s rest _ => .done _

theorem TracksOne.programRound (ss : List Stmt) (ts : List Token) (short : ts.length ≤ n) :
    Tracks none (programRound statement ss) ts (scanProgramRound ss ts) := by
  cases ts with
  | nil => exact .look_nil
  | cons t tail =>
    rw [scanProgramRound, Walk.programRound]
    refine .check_cons ?_
    by_cases ends : t.kind = .endOfFile
    · simp only [if_pos ends, decide_eq_true ends]
      exact .done _
    · simp only [if_neg ends, decide_eq_false ends]
      refine .check_cons ?_
      by_cases brace : t.kind = .mark .rightBrace
      · simp only [if_pos brace, decide_eq_true brace]
        exact .current_cons (.fail t.earns_unexpectedToken)
      · simp only [if_neg brace, decide_eq_false brace]
        exact (one t tail short ends brace).weaken.bind fun s rest _ => .done _

end

theorem scanBlockRound_shorter {ss ss' : List Stmt} {ts rest : List Token}
    (h : scanBlockRound ss ts = .ok (.again ss', rest)) : rest.length < ts.length := by
  cases ts with
  | nil => cases h
  | cons t tail =>
    simp only [scanBlockRound] at h
    split at h
    · cases h
    · split at h
      · cases h
      · obtain ⟨⟨s, rest'⟩, read, h⟩ := Except.bind_eq_ok.1 h
        cases h
        exact Stmt.scanOne_shorter read

theorem scanProgramRound_shorter {ss ss' : List Stmt} {ts rest : List Token}
    (h : scanProgramRound ss ts = .ok (.again ss', rest)) : rest.length < ts.length := by
  cases ts with
  | nil => cases h
  | cons t tail =>
    simp only [scanProgramRound] at h
    split at h
    · cases h
    · split at h
      · cases h
      · obtain ⟨⟨s, rest'⟩, read, h⟩ := Except.bind_eq_ok.1 h
        cases h
        exact Stmt.scanOne_shorter read

theorem scanMany_round (ss : List Stmt) (ts : List Token) :
    (Stmt.scanMany ts >>= fun p => pure (ss ++ p.1, p.2)) =
      scanBlockRound ss ts >>= fun p => p.1.elim (fun ss => pure (ss, p.2))
        (fun ss => Stmt.scanMany p.2 >>= fun q => pure (ss ++ q.1, q.2)) := by
  cases ts with
  | nil => rw [Stmt.scanMany_nil]; rfl
  | cons t tail =>
    rw [Stmt.scanMany_cons, scanBlockRound]
    split
    · rw [Except.ok_bind, Except.ok_bind]
      simp [Turn.elim]
    · split
      · rfl
      · simp [Turn.elim]

def scanStatements (ss : List Stmt) (ts : List Token) :
    Except ParseError (List Stmt × List Token) := do
  return (ss ++ (← readStatements ts), ts.dropWhile (·.kind ≠ .endOfFile))

theorem scanOne_dropWhile {ts rest : List Token} {s : Option Stmt}
    (h : Stmt.scanOne ts = .ok (s, rest)) :
    ts.dropWhile (·.kind ≠ .endOfFile) = rest.dropWhile (·.kind ≠ .endOfFile) := by
  obtain ⟨us, rfl, d⟩ := Stmt.scanOne_splits _ _ _ h
  have inside : Lacks .endOfFile us := by
    cases s with
    | none =>
      obtain ⟨t, dollar, rfl⟩ := d
      simp [dollar]
    | some s => exact Stmt.Derives.lacks_endOfFile d
  exact List.dropWhile_append_of_pos (by simpa [Lacks] using inside)

theorem scanStatements_round (ss : List Stmt) (ts : List Token) :
    scanStatements ss ts = scanProgramRound ss ts >>= fun p =>
      p.1.elim (fun ss => pure (ss, p.2)) (scanStatements · p.2) := by
  cases ts with
  | nil => rw [scanStatements, readStatements_nil]; rfl
  | cons t tail =>
    rw [scanStatements, readStatements_cons, scanProgramRound]
    by_cases ends : t.kind = .endOfFile
    · rw [if_pos ends, if_pos ends, Except.ok_bind, Except.ok_bind]
      simp [ends, Turn.elim]
    · rw [if_neg ends, if_neg ends]
      split
      · rfl
      · cases read : Stmt.scanOne (t :: tail) with
        | error e => rfl
        | ok p =>
          rw [scanOne_dropWhile read]
          simp [Turn.elim, scanStatements]

/-! ## Statements -/

theorem scansItems_names : ScansItems
    (fun ts => do
      let (name, rest) ← scanToken .name ts
      return (name.lexeme, rest)) Stmt.scanNames where
  equation ts := by
    rw [Stmt.scanNames_eq, bind_assoc]
    rfl
  shorter x ts rest h := by
    obtain ⟨⟨name, rest'⟩, read, h⟩ := Except.bind_eq_ok.1 h
    cases h
    obtain ⟨rfl, -⟩ := scanToken_ok.1 read
    exact Nat.lt_succ_self _

theorem Tracks.params (enough : ts.length ≤ fuel) :
    Tracks last (Walk.enclosed .parameters (do return (← Walk.consume .name).lexeme) fuel) ts
      (Stmt.scanParams ts) := by
  rw [Stmt.scanParams_eq]
  refine .enclosed (n := ts.length) scansItems_names (fun us _ => ?_) (Nat.le_refl _) enough
  exact (consume (by decide)).bind fun name rest _ => .done _

structure TracksStatements (fuel : Nat) : Prop where
  one : ∀ n, 10 * n + 1 ≤ fuel → TracksOne n (statement fuel)
  cond : ∀ t ts, t.kind = .keyword .cond → 10 * ts.length + 10 ≤ fuel →
    Tracks none (cond fuel) (t :: ts) (Stmt.scanCond t.line ts)
  branch : ∀ ts, 10 * ts.length + 3 ≤ fuel → Tracks none (branch fuel) ts (Stmt.scanBranch ts)
  block : ∀ ts, 10 * ts.length + 2 ≤ fuel → Tracks none (block fuel) ts (Stmt.scanBlock ts)
  body : ∀ ts, 10 * ts.length + 1 ≤ fuel → Tracks none (body fuel) ts (Stmt.scanBody ts)

namespace TracksStatements

variable (tracks : TracksStatements fuel)

include tracks

theorem body_succ (enough : 10 * ts.length + 1 ≤ fuel + 1) :
    Tracks none (Walk.body (fuel + 1)) ts (Stmt.scanBody ts) := by
  rw [Walk.body, Stmt.scanBody_eq]
  refine .token (by decide) fun l rest less => ?_
  have one := tracks.one rest.length (by omega)
  have whole := Tracks.loop .block (n := rest.length + 1)
    (fun ss ts short => one.blockRound ss ts (Nat.le_of_lt_succ short)) (fun ss ts => .done ss)
    (fun _ _ _ _ => scanBlockRound_shorter) scanMany_round fuel [] rest (by omega) (by omega)
  simpa using whole

theorem block_succ (enough : 10 * ts.length + 2 ≤ fuel + 1) :
    Tracks none (Walk.block (fuel + 1)) ts (Stmt.scanBlock ts) := by
  cases ts with
  | nil =>
    rw [Stmt.scanBlock_nil]
    exact .look_nil
  | cons t ts =>
    rw [Walk.block, Stmt.scanBlock_cons]
    refine .current_cons ?_
    exact (tracks.body (t :: ts) (by omega)).weaken.bind fun ss rest _ => .done _

theorem branch_succ (enough : 10 * ts.length + 3 ≤ fuel + 1) :
    Tracks none (Walk.branch (fuel + 1)) ts (Stmt.scanBranch ts) := by
  cases ts with
  | nil =>
    rw [Stmt.scanBranch_nil]
    exact .look_nil
  | cons t ts =>
    rw [Walk.branch, Stmt.scanBranch_cons]
    rw [List.length_cons] at enough
    refine .check_cons ?_
    by_cases kind : t.kind = .keyword .cond
    · simp only [if_pos kind, decide_eq_true kind]
      exact (tracks.cond t ts kind (by omega)).weaken
    · simp only [if_neg kind, decide_eq_false kind]
      exact (tracks.block (t :: ts) (by simpa using Nat.le_of_succ_le_succ enough)).weaken

theorem cond_succ (kind : t.kind = .keyword .cond) (enough : 10 * ts.length + 10 ≤ fuel + 1) :
    Tracks none (Walk.cond (fuel + 1)) (t :: ts) (Stmt.scanCond t.line ts) := by
  rw [Walk.cond, Stmt.scanCond_eq]
  refine .consume_cons (by decide) kind ?_
  refine (Tracks.parenthesized (by omega)).bind fun e rest read => ?_
  have less := Stmt.scanParenthesized_shorter read
  refine (tracks.block rest (by omega)).bind fun yes rest' read' => ?_
  have less' := Stmt.scanBlock_shorter read'
  cases rest' with
  | nil => exact .look_nil
  | cons t' tail =>
    rw [List.length_cons] at less'
    by_cases word : t'.kind = .keyword .otherwise
    · simp only [if_pos word]
      refine .accept_yes (by decide) word ?_
      exact (tracks.branch tail (by omega)).bind fun no rest _ => .done _
    · simp only [if_neg word]
      exact .accept_no word (.done _)

theorem loop (kind : t.kind = .keyword .loop) (enough : 10 * ts.length + 10 ≤ fuel) :
    Tracks last (do
      let _ ← Walk.consume (.keyword .loop)
      let condition ← Walk.parenthesized fuel
      let s ← Walk.block fuel
      return some (Stmt.loop t.line condition s)) (t :: ts) (do
      let (condition, rest) ← Stmt.scanParenthesized ts
      let (s, rest) ← Stmt.scanBlock rest
      return (some (Stmt.loop t.line condition s), rest)) := by
  refine .consume_cons (by decide) kind ?_
  refine (Tracks.parenthesized (by omega)).bind fun e rest read => ?_
  have less := Stmt.scanParenthesized_shorter read
  exact (tracks.block rest (by omega)).bind fun s rest _ => .done _

theorem function (kind : t.kind = .keyword .function) (enough : 10 * ts.length + 10 ≤ fuel) :
    Tracks last (do
      let _ ← consume (.keyword .function)
      let name ← consume .name
      let params ← enclosed .parameters (return (← consume .name).lexeme) fuel
      let ss ← Walk.body fuel
      return some (Stmt.function t.line name.lexeme params ss)) (t :: ts) (do
      let (name, rest) ← scanToken .name ts
      let (params, rest) ← Stmt.scanParams rest
      let (ss, rest) ← Stmt.scanBody rest
      return (some (Stmt.function t.line name.lexeme params ss), rest)) := by
  refine .consume_cons (by decide) kind ?_
  refine .token (by decide) fun name rest less => ?_
  refine (Tracks.params (by omega)).bind fun params rest' read => ?_
  have less' := (scanned_ok.1 read).1
  exact (tracks.body rest' (by omega)).bind fun ss rest _ => .done _

theorem one_succ (inside : t.kind ≠ .endOfFile) (open_ : t.kind ≠ .mark .rightBrace)
    (enough : 10 * ts.length + 10 ≤ fuel) :
    Tracks none (statement (fuel + 1)) (t :: ts) (Stmt.scanOne (t :: ts)) := by
  rw [statement, Stmt.scanOne_cons]
  refine .entry inside open_ ?_
  refine .current_cons ?_
  cases kind : t.kind with
  | keyword word =>
    cases word with
    | declare => exact (Tracks.declaration kind (by omega)).noted
    | print => exact (Tracks.print kind (by omega)).noted
    | ret => exact (Tracks.ret kind (by omega)).noted
    | loop => exact tracks.loop kind enough
    | function => exact tracks.function kind enough
    | cond => exact (tracks.cond t ts kind enough).weaken.noted
    | otherwise =>
      exact .take_cons inside (tracks.branch ts (by omega)).noted
    | typed | initially | again | truth | connective | dataType =>
      exact .fail t.earns_unexpectedToken
  | name =>
    refine .nextIsSign ?_
    split
    · exact (Tracks.assignment kind (by omega)).noted
    · refine .nextIsSign ?_
      split
      · exact .callStatement kind enough
      · exact .fail t.earns_unexpectedToken
  | comment => exact .take_cons inside (.done _)
  | endOfFile => exact absurd kind inside
  | mark sign =>
    cases sign with
    | rightBrace => exact absurd kind open_
    | dollar => exact .take_cons inside (.done _)
    | leftParen | rightParen | leftBrace | comma | equals => exact .fail t.earns_unexpectedToken
  | _ => exact .fail t.earns_unexpectedToken

end TracksStatements

theorem tracksStatements (fuel : Nat) : TracksStatements fuel := by
  induction fuel with
  | zero => exact ⟨by omega, by omega, by omega, by omega, by omega⟩
  | succ fuel ih =>
    refine ⟨?_, fun _ _ => ih.cond_succ, fun _ => ih.branch_succ, fun _ => ih.block_succ,
      fun _ => ih.body_succ⟩
    intro n enough t ts short inside open_
    exact ih.one_succ inside open_ (by omega)

def scanProgram (ts : List Token) : Except ParseError (Program × List Token) := do
  let (ss, rest) ← scanStatements [] ts
  return (⟨ss⟩, rest)

theorem tracks_program (enough : 10 * ts.length + 1 ≤ fuel) :
    Tracks none (program fuel) ts (scanProgram ts) := by
  have one := (tracksStatements fuel).one ts.length enough
  have whole := Tracks.loop .program (n := ts.length + 1)
    (fun ss ts short => one.programRound ss ts (Nat.le_of_lt_succ short)) (fun ss ts => .done ss)
    (fun _ _ _ _ => scanProgramRound_shorter) scanStatements_round fuel [] ts (Nat.lt_succ_self _)
    (by omega)
  rw [bind_pure] at whole
  exact whole.bind fun ss rest _ => .done _

end Walk
end Betik
