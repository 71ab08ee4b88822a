/-
The walks that read expressions do what the readers do.

The readers are recursive in the tokens, the walks in their fuel, so the induction is on
fuel that is enough for the tokens.
-/
import Betik.Proofs.Walk.Tracks

namespace Betik
namespace Walk

variable {α : Type} {last : Option Token}

/-! ## Items with commas between them -/

def scanEnclosed (scanItems : List Token → Except ParseError (List α × List Token))
    (ts : List Token) : Except ParseError (List α × List Token) := do
  let (_, rest) ← scanToken (.mark .leftParen) ts
  match rest with
  | [] => .error .beyondEndOfFile
  | t :: tail =>
    if t.kind = .mark .rightParen then return ([], tail)
    else scanItems (t :: tail)

/-- One item or more, with commas between them, and the closing parenthesis, by what reads
one item. -/
structure ScansItems (scanItem : List Token → Except ParseError (α × List Token))
    (scanItems : List Token → Except ParseError (List α × List Token)) : Prop where
  equation : ∀ ts, scanItems ts = (do
    let (x, rest) ← scanItem ts
    match rest with
    | [] => .error .beyondEndOfFile
    | t :: tail =>
      if t.kind = .mark .comma then
        let (xs, rest) ← scanItems tail
        return (x :: xs, rest)
      else
        let (_, rest) ← scanToken (.mark .rightParen) (t :: tail)
        return ([x], rest))
  shorter : ∀ x ts rest, scanItem ts = .ok (x, rest) → rest.length < ts.length

def scanItemRound (scanItem : List Token → Except ParseError (α × List Token)) (items : List α)
    (ts : List Token) : Except ParseError (Turn (List α) (List α) × List Token) := do
  let (x, rest) ← scanItem ts
  match rest with
  | [] => .error .beyondEndOfFile
  | t :: tail =>
    if t.kind = .mark .comma then return (.again (items ++ [x]), tail)
    else return (.leave (items ++ [x]), t :: tail)

section

variable {item : Walk α} {scanItem : List Token → Except ParseError (α × List Token)}
  {scanItems : List Token → Except ParseError (List α × List Token)} {n : Nat}

theorem Tracks.itemRound (items : List α) (ts : List Token)
    (h : Tracks none item ts (scanItem ts)) :
    Tracks none (itemRound item items) ts (scanItemRound scanItem items ts) := by
  refine h.bind fun x rest _ => ?_
  cases rest with
  | nil => exact look_nil
  | cons t tail =>
    by_cases comma : t.kind = .mark .comma
    · simp only [if_pos comma]
      exact accept_yes (by decide) comma (done _)
    · simp only [if_neg comma]
      exact accept_no comma (done _)

theorem ScansItems.round (scans : ScansItems scanItem scanItems) (xs : List α) (ts : List Token) :
    (scanItems ts >>= fun p => pure (xs ++ p.1, p.2)) =
      scanItemRound scanItem xs ts >>= fun p => p.1.elim
        (fun xs => scanToken (.mark .rightParen) p.2 >>= fun q => pure (xs, q.2))
        (fun xs => scanItems p.2 >>= fun q => pure (xs ++ q.1, q.2)) := by
  rw [scans.equation, scanItemRound]
  simp only [bind_assoc]
  refine congrArg _ (funext fun p => ?_)
  obtain ⟨x, rest⟩ := p
  cases rest with
  | nil => rfl
  | cons t tail =>
    by_cases comma : t.kind = .mark .comma
    · simp [if_pos comma, Turn.elim]
    · simp [if_neg comma, Turn.elim]

theorem ScansItems.round_shorter (scans : ScansItems scanItem scanItems) {xs ys : List α}
    {ts rest : List Token} (h : scanItemRound scanItem xs ts = .ok (.again ys, rest)) :
    rest.length < ts.length := by
  obtain ⟨⟨x, rest'⟩, read, h⟩ := Except.bind_eq_ok.1 h
  have less := scans.shorter x ts rest' read
  cases rest' with
  | nil => cases h
  | cons t tail =>
    simp only at h
    split at h <;> cases h
    exact Nat.lt_of_succ_lt less

/-- The items and what closes them. -/
theorem Tracks.items {name : Loop} (scans : ScansItems scanItem scanItems)
    (items : ∀ ts, ts.length < n → Tracks none item ts (scanItem ts)) {fuel : Nat} {ts : List Token}
    (short : ts.length < n) (enough : ts.length < fuel) :
    Tracks last (Walk.loop name (Walk.itemRound item) fuel [] >>= fun xs => do
      let _ ← Walk.consume (.mark .rightParen)
      return xs) ts (scanItems ts) := by
  have close (xs : List α) (ts : List Token) : Tracks none (do
      let _ ← Walk.consume (.mark .rightParen)
      return xs) ts (scanToken (.mark .rightParen) ts >>= fun p => pure (xs, p.2)) :=
    (consume (by decide)).bind fun _ _ _ => done xs
  have whole := loop name (fun xs ts short => itemRound xs ts (items ts short)) close
    (fun _ _ _ _ => scans.round_shorter) scans.round fuel [] ts short enough
  simpa using whole.weaken

theorem Tracks.enclosed {name : Loop} (scans : ScansItems scanItem scanItems)
    (items : ∀ ts, ts.length < n → Tracks none item ts (scanItem ts)) {fuel : Nat} {ts : List Token}
    (short : ts.length ≤ n) (enough : ts.length ≤ fuel) :
    Tracks last (enclosed name item fuel) ts (scanEnclosed scanItems ts) := by
  refine (consume (by decide)).bind fun l rest read => ?_
  obtain ⟨rfl, left⟩ := scanToken_ok.1 read
  cases rest with
  | nil => exact look_nil
  | cons t tail =>
    refine check_cons ?_
    by_cases right : t.kind = .mark .rightParen
    · simp only [if_pos right, decide_eq_true right, pure_bind]
      exact consume_cons (by decide) right (done [])
    · simp only [if_neg right, decide_eq_false right]
      exact Tracks.items scans items short enough

end

/-! ## Operators -/

def scanOperatorRound (level : Precedence) (lhs : Expr) :
    List Token → Except ParseError (Turn Expr Expr × List Token)
  | [] => .error .beyondEndOfFile
  | t :: rest =>
    match t.kind.joinerAt? level with
    | none => .ok (.leave lhs, t :: rest)
    | some joiner => do
      let (rhs, rest) ← Expr.scanAt level.next rest
      return (.again (.join t.line joiner lhs rhs), rest)

theorem joinerAt?_inside {t : Token} {level : Precedence} {joiner : Joiner}
    (h : t.kind.joinerAt? level = some joiner) : t.kind ≠ .endOfFile := by
  intro ends
  simp [TokenKind.joinerAt?, TokenKind.joiner?, ends] at h

theorem Tracks.operatorRound {level : Precedence} {operand : Walk Expr} {n : Nat}
    (operands : ∀ ts, ts.length < n → Tracks none operand ts (Expr.scanAt level.next ts))
    (lhs : Expr) (ts : List Token) (short : ts.length ≤ n) :
    Tracks none (operatorRound level operand lhs) ts (scanOperatorRound level lhs ts) := by
  cases ts with
  | nil => exact look_nil
  | cons t rest =>
    refine current_cons ?_
    simp only [scanOperatorRound]
    cases found : t.kind.joinerAt? level with
    | none => exact done _
    | some joiner =>
      refine take_cons (joinerAt?_inside found) ?_
      exact (operands rest short).bind fun rhs rest _ => done _

theorem scanOperands_round (level : Precedence) (lhs : Expr) (ts : List Token) :
    Expr.scanOperands level lhs ts = scanOperatorRound level lhs ts >>= fun p =>
      p.1.elim (fun e => pure (e, p.2)) (fun e => Expr.scanOperands level e p.2) := by
  cases ts with
  | nil => exact Expr.scanOperands_nil level lhs
  | cons t rest =>
    simp only [scanOperatorRound]
    cases found : t.kind.joinerAt? level with
    | none => exact Expr.scanOperands_stop found lhs rest
    | some joiner =>
      rw [Expr.scanOperands_join found, bind_assoc]
      rfl

theorem scanOperatorRound_shorter {level : Precedence} {lhs e : Expr} {ts rest : List Token}
    (h : scanOperatorRound level lhs ts = .ok (.again e, rest)) : rest.length < ts.length := by
  cases ts with
  | nil => cases h
  | cons t tail =>
    simp only [scanOperatorRound] at h
    split at h
    · cases h
    · obtain ⟨⟨rhs, rest'⟩, read, h⟩ := Except.bind_eq_ok.1 h
      cases h
      exact Nat.lt_succ_of_lt (Expr.scanAt_shorter read)

theorem Tracks.operators {level : Precedence} {operand : Walk Expr} {n : Nat}
    (operands : ∀ ts, ts.length < n → Tracks none operand ts (Expr.scanAt level.next ts))
    {fuel : Nat} (lhs : Expr) {ts : List Token} (short : ts.length ≤ n)
    (enough : ts.length < fuel) :
    Tracks none (Walk.loop .operators (Walk.operatorRound level operand) fuel lhs) ts
      (Expr.scanOperands level lhs ts) := by
  have whole := loop .operators (n := n + 1)
    (fun lhs ts short => operatorRound operands lhs ts (Nat.le_of_lt_succ short))
    (fun e ts => done e) (fun _ _ _ _ => scanOperatorRound_shorter) (scanOperands_round level)
    fuel lhs ts (Nat.lt_succ_of_le short) enough
  simpa using whole

/-! ## Expressions -/

theorem scansItems_args : ScansItems (Expr.scanAt .logicalOr) Expr.scanArgs :=
  ⟨Expr.scanArgs_eq, fun _ _ _ => Expr.scanAt_shorter⟩

theorem scanCall_enclosed (callee : Token) (ts : List Token) :
    Expr.scanCall callee ts = (do
      let (args, rest) ← scanEnclosed Expr.scanArgs ts
      return (.call callee.line callee.lexeme args, rest)) := by
  rw [Expr.scanCall_eq, scanEnclosed, bind_assoc]
  refine congrArg _ (funext fun p => ?_)
  obtain ⟨l, rest⟩ := p
  cases rest with
  | nil => rfl
  | cons t tail =>
    by_cases right : t.kind = .mark .rightParen
    · simp [if_pos right]
    · simp [if_neg right]

theorem Tracks.atom (t : Token) (ts : List Token) :
    Tracks (some t) (Walk.atom t) (t :: ts) (do return (← t.atom, ts)) := by
  rw [Walk.atom]
  cases atom : t.atom with
  | error e => exact .fail (Token.earns_atom atom)
  | ok e =>
    have inside := lacks_cons.1 ((Expr.Derives.of_atom atom).lacks (.inr rfl))
    exact .take_cons inside.1 (.done e)

structure TracksExpressions (fuel : Nat) : Prop where
  expression : ∀ level ts, 10 * ts.length + level.height + 2 ≤ fuel →
    Tracks none (expression fuel level) ts (Expr.scanAt level ts)
  primary : ∀ ts, 10 * ts.length + 1 ≤ fuel →
    Tracks none (primary fuel) ts (Expr.scanPrimary ts)
  call : ∀ t ts, t.kind ≠ .endOfFile → 10 * ts.length + 10 ≤ fuel →
    Tracks none (call fuel) (t :: ts) (Expr.scanCall t ts)

namespace TracksExpressions

variable {fuel : Nat} (tracks : TracksExpressions fuel)

include tracks

theorem whole {ts : List Token} (enough : 10 * ts.length + 8 ≤ fuel) :
    Tracks none (Walk.expression fuel .logicalOr) ts (Expr.scanAt .logicalOr ts) :=
  tracks.expression .logicalOr ts enough

theorem expression_succ (level : Precedence) {ts : List Token}
    (enough : 10 * ts.length + level.height + 2 ≤ fuel + 1) :
    Tracks none (Walk.expression (fuel + 1) level) ts (Expr.scanAt level ts) := by
  rw [Walk.expression]
  by_cases tight : level = .primary
  · subst tight
    rw [if_pos rfl, Expr.scanAt_primary]
    exact tracks.primary ts (by omega)
  · rw [if_neg tight, Expr.scanAt_of_ne tight]
    have lower := Precedence.height_next tight
    refine (tracks.expression level.next ts (by omega)).bind fun lhs rest read => ?_
    have less := Expr.scanAt_shorter read
    refine .operators (n := rest.length) (fun us short => ?_) lhs (Nat.le_refl _) (by omega)
    exact tracks.expression level.next us (by omega)

theorem primary_succ {ts : List Token} (enough : 10 * ts.length + 1 ≤ fuel + 1) :
    Tracks none (Walk.primary (fuel + 1)) ts (Expr.scanPrimary ts) := by
  cases ts with
  | nil =>
    rw [Expr.scanPrimary_nil]
    exact .look_nil
  | cons t ts =>
    rw [List.length_cons] at enough
    rw [Expr.scanPrimary_cons]
    refine .current_cons ?_
    by_cases left : t.kind = .mark .leftParen
    · simp only [if_pos left]
      refine .take_cons (by simp [left]) ?_
      refine (tracks.whole (by omega)).bind fun e rest _ => ?_
      exact (Tracks.consume (by decide)).bind fun _ _ _ => .done e
    · simp only [if_neg left]
      by_cases callable : t.kind.callable
      · rw [if_pos callable, callable, Bool.true_and]
        refine .nextIsSign ?_
        split
        · have inside : t.kind ≠ .endOfFile := fun h => by simp [h, TokenKind.callable] at callable
          exact (tracks.call t ts inside (by omega)).weaken
        · exact .atom t ts
      · rw [if_neg callable, Bool.eq_false_iff.2 callable, Bool.false_and,
          if_neg Bool.false_ne_true]
        exact .atom t ts

theorem call_succ {t : Token} {ts : List Token} (inside : t.kind ≠ .endOfFile)
    (enough : 10 * ts.length + 10 ≤ fuel + 1) :
    Tracks none (Walk.call (fuel + 1)) (t :: ts) (Expr.scanCall t ts) := by
  rw [Walk.call, scanCall_enclosed]
  refine .take_cons inside ?_
  refine Tracks.bind (.enclosed (n := ts.length) scansItems_args (fun us short => ?_)
    (Nat.le_refl _) (by omega)) fun args rest _ => .done _
  exact tracks.whole (by omega)

end TracksExpressions

theorem tracksExpressions (fuel : Nat) : TracksExpressions fuel := by
  induction fuel with
  | zero => exact ⟨by omega, by omega, by omega⟩
  | succ fuel ih =>
    exact ⟨fun level _ => ih.expression_succ level, fun _ => ih.primary_succ,
      fun _ _ => ih.call_succ⟩

end Walk
end Betik
