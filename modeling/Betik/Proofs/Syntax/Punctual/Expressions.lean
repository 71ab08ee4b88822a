/-
The readers of expressions are punctual.
-/
import Betik.Proofs.Syntax.Punctual.Basic

namespace Betik

/-- The error that a token is no expression names it. -/
theorem Token.atom_about {t : Token} {e : ParseError} (h : t.atom = .error e) : e.About t := by
  simp only [Token.atom] at h
  split at h
  · split at h <;> cases h
    exact ⟨rfl, rfl⟩
  · split at h <;> cases h
    exact ⟨rfl, rfl⟩
  · cases h
  · cases h
  · split at h <;> cases h
    exact ⟨rfl, rfl⟩
  · cases h
  · cases h
    exact ⟨rfl, rfl⟩

namespace Expr

abbrev AtLevel (level : Precedence) (ts : List Token) (e : Expr) : Prop :=
  Derives ts (.level level e)

abbrev IsEnclosed (ts : List Token) (e : Expr) : Prop :=
  Derives ts (.enclosed e)

def IsCall (callee : Token) (ts : List Token) (e : Expr) : Prop :=
  ∃ es, e = .call callee.line callee.lexeme es ∧ Derives ts (.arguments es)

def ListedEnd (ts : List Token) (es : List Expr) : Prop :=
  ∃ us r, ts = us ++ [r] ∧ r.kind = .mark .rightParen ∧ Derives us (.listed es)

theorem scanAt_splits (level : Precedence) : Splits (scanAt level) (AtLevel level) :=
  fun ts => (sound ts).level level

theorem scanCall_splits (callee : Token) : Splits (scanCall callee) (IsCall callee) := by
  intro ts e rest h
  obtain ⟨us, es, split, call, d⟩ := scanCall_sound (fun us _ => sound us) h
  exact ⟨us, split, es, call, d⟩

/-- A text stands for any expression. -/
theorem opens_level (level : Precedence) : Opens (Spells (AtLevel level)) [] :=
  ⟨[⟨.text, "", 0⟩], _, Derives.of_primary (.text rfl) level⟩

theorem opens_listed : Opens (Spells ListedEnd) [] := by
  obtain ⟨us, e, d⟩ := opens_level .logicalOr
  exact ⟨us ++ [⟨.mark .rightParen, "", 0⟩], [e], us, _, rfl, rfl, .last d⟩

structure AllPunctual (n : Nat) : Prop where
  level : ∀ level, Punctual n (scanAt level) (Spells (AtLevel level)) []
  operands : ∀ level lhs us, AtLevel level us lhs →
    Punctual n (scanOperands level lhs) (Spells (AtLevel level)) us
  listed : Punctual n scanArgs (Spells ListedEnd) []

namespace AllPunctual

variable {n : Nat} (all : AllPunctual n)

include all

theorem parenthesized :
    Punctual (n + 1) Stmt.scanParenthesized (Spells IsEnclosed) [] := by
  rw [funext Stmt.scanParenthesized_eq]
  refine .token (by decide) fun l left => ?_
  refine (all.level .logicalOr).bind (scanAt_splits _) ?_
  intro us e d
  refine .token (by decide) fun r right => ?_
  exact .pure ⟨e, by simpa using Derives.enclosed left d right⟩

theorem call (callee : Token) :
    Punctual (n + 1) (scanCall callee) (Spells (IsCall callee)) [] := by
  rw [funext (scanCall_eq callee)]
  refine .token (by decide) fun l left => ?_
  have some : Punctual n scanArgs (Spells (IsCall callee)) [l] := by
    refine all.listed.within ?_
    rintro _ ⟨es, us, r, rfl, right, d⟩
    exact .of ⟨_, es, rfl, .someArguments left d right⟩
  refine .choice (by decide) rfl (fun _ _ => rfl) ?_ (some.map (.call callee.line callee.lexeme))
  exact fun r right => .pure ⟨_, [], rfl, .noArguments left right⟩

theorem primary : Punctual (n + 1) scanPrimary (Spells (AtLevel .primary)) [] := by
  have opens := opens_level .primary
  refine ⟨opens, fun ts short => ?_⟩
  cases ts with
  | nil => exact .nil scanPrimary_nil
  | cons t ts =>
    by_cases left : t.kind = .mark .leftParen
    · have inside : Punctual (n + 1) Stmt.scanParenthesized (Spells (AtLevel .primary)) [] := by
        refine all.parenthesized.within ?_
        rintro us ⟨e, d⟩
        exact .of ⟨e, .parentheses d⟩
      exact .congr (scanPrimary_parenthesized left) (inside.at_ _ short)
    · by_cases call : t.kind.callable ∧ nextKind ts = .mark .leftParen
      · obtain ⟨callable, paren⟩ := call
        have arguments : Punctual (n + 1) (scanCall t) (Spells (AtLevel .primary)) [t] := by
          refine (all.call t).within ?_
          rintro us ⟨_, es, rfl, d⟩
          exact .of ⟨_, .call callable d⟩
        have inside : t.kind ≠ .endOfFile := fun h => by simp [h, TokenKind.callable] at callable
        refine .step inside (fun us heads => ?_) (arguments.at_ ts (by
          simp only [List.length_cons] at short
          omega))
        rw [scanPrimary_cons, if_neg left, nextIs_eq (by decide), nextKind_of_head? heads, paren,
          callable, if_pos (by decide)]
      · -- the token stands for itself, or for nothing
        have alone {us : List Token} (sees : t.kind = .endOfFile ∨ nextKind us = nextKind ts) :
            scanPrimary (t :: us) = (do return (← t.atom, us)) := by
          rw [scanPrimary_cons, if_neg left, nextIs_eq (by decide), if_neg]
          obtain ends | same := sees
          · simp [ends, TokenKind.callable]
          · simpa [same] using call
        cases atom : t.atom with
        | ok e =>
          have inside := lacks_cons.1 ((Derives.of_atom atom).lacks (.inr rfl))
          refine .single (a := e) inside.1 fun us heads => ?_
          rw [alone (.inr (nextKind_of_head? heads)), atom]
          rfl
        | error e =>
          refine .fail (Token.atom_about atom) opens fun us sees => ?_
          rw [alone sees, atom]
          rfl

theorem level_succ (level : Precedence) :
    Punctual (n + 1) (scanAt level) (Spells (AtLevel level)) [] := by
  induction level using Precedence.tighter_induction with
  | primary =>
    rw [funext scanAt_primary]
    exact all.primary
  | step level loose ih =>
    rw [funext (scanAt_of_ne loose)]
    refine ih.bind (scanAt_splits _) ?_
    intro us lhs d
    obtain ⟨t, tail, rfl, -⟩ := d.head
    exact (all.operands level lhs _ (.tighter loose d)).le (by simp)

theorem operands_succ {level : Precedence} {lhs : Expr} {us : List Token}
    (left : AtLevel level us lhs) :
    Punctual (n + 1) (scanOperands level lhs) (Spells (AtLevel level)) us := by
  refine ⟨.of ⟨lhs, left⟩, fun ts short => ?_⟩
  cases ts with
  | nil => exact .nil (scanOperands_nil level lhs)
  | cons t ts =>
    cases found : t.kind.joinerAt? level with
    | none =>
      refine .rest (a := lhs) fun us heads => ?_
      cases us with
      | nil => cases heads
      | cons t' us =>
        cases heads
        exact scanOperands_stop found lhs us
    | some joiner =>
      obtain ⟨kind, precedence⟩ := Option.filter_eq_some_iff.1 found
      simp only [decide_eq_true_eq] at precedence
      subst precedence
      refine .step (by intro h; simp [h, TokenKind.joiner?] at kind)
        (fun us _ => scanOperands_join found lhs us) ?_
      have right : Punctual n (fun ts => scanAt joiner.precedence.next ts >>= fun p =>
          scanOperands joiner.precedence (join t.line joiner lhs p.1) p.2)
          (Spells (AtLevel joiner.precedence)) (us ++ [t]) := by
        refine (all.level joiner.precedence.next).bind (scanAt_splits _) ?_
        intro vs rhs d
        have joined := all.operands _ _ _ (.joined left kind d)
        simpa using joined.le (Nat.sub_le n vs.length)
      exact right.at_ ts (by simpa using short)

theorem listed_succ : Punctual (n + 1) scanArgs (Spells ListedEnd) [] := by
  rw [funext scanArgs_eq]
  refine (all.level_succ .logicalOr).bind (scanAt_splits _) ?_
  intro us e d
  have last :
      Punctual (n + 1 - us.length) (scanToken (.mark .rightParen)) (Spells ListedEnd) us := by
    refine (scanToken_punctual (by decide) _).within ?_
    rintro _ ⟨r, rfl, right⟩
    exact .of ⟨[e], us, r, rfl, right, .last d⟩
  refine .choice (by decide) rfl (fun _ _ => rfl) ?_ (last.map fun _ => [e])
  intro t comma
  have more : Punctual n scanArgs (Spells ListedEnd) (us ++ [t]) := by
    refine all.listed.within ?_
    rintro _ ⟨es, vs, r, rfl, right, ds⟩
    exact .of ⟨e :: es, us ++ t :: vs, r, by simp, right, .more d comma ds⟩
  exact (more.map (e :: ·)).le (by omega)

end AllPunctual

theorem allPunctual (n : Nat) : AllPunctual n := by
  induction n with
  | zero =>
    exact ⟨fun level => .zero (opens_level level), fun _ lhs _ d => .zero (.of ⟨lhs, d⟩),
      .zero opens_listed⟩
  | succ n ih =>
    exact ⟨ih.level_succ, fun _ _ _ => ih.operands_succ, ih.listed_succ⟩

theorem scanExpr_punctual (n : Nat) :
    Punctual n (scanAt .logicalOr) (Spells (AtLevel .logicalOr)) [] :=
  (allPunctual n).level .logicalOr

theorem scanParenthesized_punctual (n : Nat) :
    Punctual n Stmt.scanParenthesized (Spells IsEnclosed) [] :=
  (allPunctual n).parenthesized.le (Nat.le_succ n)

theorem scanCall_punctual (callee : Token) (n : Nat) :
    Punctual n (scanCall callee) (Spells (IsCall callee)) [] :=
  ((allPunctual n).call callee).le (Nat.le_succ n)

end Expr
end Betik
