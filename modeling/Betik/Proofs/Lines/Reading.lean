/-
Reading relabelled tokens.

A reader looks at kinds and lexemes only.  So from relabelled tokens it makes the
relabelled tree, or the relabelled error, and leaves the relabelled rest.  As with
soundness, each reader gets a lemma that supposes this of the others on shorter lists.
-/
import Betik.Proofs.Lines.Relabel
import Betik.Proofs.Syntax.Soundness

namespace Betik

def relabelled {α : Type} (f : Nat → Nat) (value : α → α) :
    Except ParseError α → Except ParseError α
  | .error e => .error (e.relabel f)
  | .ok a => .ok (value a)

abbrev relabelResult {α : Type} (f : Nat → Nat) (value : α → α) :
    Except ParseError (α × List Token) → Except ParseError (α × List Token) :=
  relabelled f fun (a, rest) => (value a, rest.map (Token.relabel f))

section

variable {f : Nat → Nat}

/-- The first part is read with other lines, and the second takes up what it left. -/
theorem relabelled_bind {α β : Type} {valueα : α → α} {valueβ : β → β} {r r' : Except ParseError α}
    {k k' : α → Except ParseError β} (first : r' = relabelled f valueα r)
    (next : ∀ a, r = .ok a → k' (valueα a) = relabelled f valueβ (k a)) :
    r' >>= k' = relabelled f valueβ (r >>= k) := by
  subst first
  cases r with
  | error e => rfl
  | ok a => exact next a rfl

theorem relabelResult_bind {α β : Type} {valueα : α → α} {valueβ : β → β}
    {r r' : Except ParseError (α × List Token)} {k k' : α × List Token → Except ParseError β}
    (first : r' = relabelResult f valueα r)
    (next : ∀ a rest, r = .ok (a, rest) →
      k' (valueα a, rest.map (Token.relabel f)) = relabelled f valueβ (k (a, rest))) :
    r' >>= k' = relabelled f valueβ (r >>= k) :=
  relabelled_bind first fun p => next p.1 p.2

/-- Readers decide by kinds, which are what they were. -/
theorem relabelled_ite {α : Type} {value : α → α} {c c' : Prop} [Decidable c] [Decidable c']
    {yes yes' no no' : Except ParseError α} (same : c' ↔ c)
    (inside : c → yes' = relabelled f value yes) (outside : ¬c → no' = relabelled f value no) :
    (if c' then yes' else no') = relabelled f value (if c then yes else no) := by
  by_cases h : c
  · rw [if_pos h, if_pos (same.2 h), inside h]
  · rw [if_neg h, if_neg (h ∘ same.1), outside h]

theorem nextIs_relabel (kind : TokenKind) (ts : List Token) :
    nextIs kind (ts.map (Token.relabel f)) = nextIs kind ts := by
  cases ts <;> rfl

theorem scanToken_relabel (kind : TokenKind) (ts : List Token) :
    scanToken kind (ts.map (Token.relabel f)) =
      relabelResult f (Token.relabel f) (scanToken kind ts) := by
  cases ts with
  | nil => rfl
  | cons t ts =>
    rw [List.map_cons, scanToken_cons, scanToken_cons]
    by_cases h : t.kind = kind <;> simp [h, relabelled, ParseError.relabel]

theorem Token.atom_relabel (t : Token) :
    (t.relabel f).atom = relabelled f (Expr.relabel f) t.atom := by
  obtain ⟨kind, lexeme, line⟩ := t
  cases kind with
  | integer =>
    cases h : Number.integer? lexeme.toList <;>
      simp [Token.atom, Token.relabel, h, relabelled, Expr.relabel, ParseError.relabel]
  | decimal =>
    cases h : Number.double? lexeme.toList <;>
      simp [Token.atom, Token.relabel, h, relabelled, Expr.relabel, ParseError.relabel]
  | prompt =>
    cases h : promptText? lexeme.toList <;>
      simp [Token.atom, Token.relabel, h, relabelled, Expr.relabel, ParseError.relabel]
  | keyword word => cases word <;> rfl
  | _ => rfl

namespace Expr

structure Relabels (f : Nat → Nat) (ts : List Token) : Prop where
  level : ∀ level,
    scanAt level (ts.map (Token.relabel f)) = relabelResult f (relabel f) (scanAt level ts)
  operands : ∀ level lhs, scanOperands level (lhs.relabel f) (ts.map (Token.relabel f)) =
    relabelResult f (relabel f) (scanOperands level lhs ts)
  listed : scanArgs (ts.map (Token.relabel f)) = relabelResult f (relabelAll f) (scanArgs ts)

section

variable {ts : List Token}
  (shorter : ∀ us : List Token, us.length < ts.length → Relabels f us)

include shorter

theorem scanCall_relabel (callee : Token) :
    scanCall (callee.relabel f) (ts.map (Token.relabel f)) =
      relabelResult f (relabel f) (scanCall callee ts) := by
  rw [scanCall_eq, scanCall_eq]
  refine relabelResult_bind (scanToken_relabel _ _) fun l rest first => ?_
  obtain ⟨rfl, -⟩ := scanToken_ok.1 first
  cases rest with
  | nil => rfl
  | cons t tail =>
    refine relabelled_ite Iff.rfl (fun _ => rfl) fun _ => ?_
    exact relabelResult_bind (shorter (t :: tail) (by simp)).listed fun _ _ _ => rfl

theorem scanPrimary_relabel :
    scanPrimary (ts.map (Token.relabel f)) =
      relabelResult f (relabel f) (scanPrimary ts) := by
  cases ts with
  | nil => simp [relabelled, ParseError.relabel]
  | cons t ts =>
    rw [List.map_cons, scanPrimary_cons, scanPrimary_cons, nextIs_relabel, Token.relabel_kind]
    split
    · refine relabelResult_bind ((shorter ts (by simp)).level _) fun e rest _ => ?_
      exact relabelResult_bind (scanToken_relabel _ _) fun _ _ _ => rfl
    · split
      · exact scanCall_relabel (fun us h => shorter us (by simp only [List.length_cons]; omega)) t
      · exact relabelled_bind (Token.atom_relabel t) fun _ _ => rfl

theorem scanAt_relabel (level : Precedence) :
    scanAt level (ts.map (Token.relabel f)) = relabelResult f (relabel f) (scanAt level ts) := by
  induction level using Precedence.tighter_induction with
  | primary =>
    rw [scanAt_primary, scanAt_primary]
    exact scanPrimary_relabel shorter
  | step level loose ih =>
    rw [scanAt_of_ne loose, scanAt_of_ne loose]
    exact relabelResult_bind ih fun lhs rest first =>
      (shorter rest (scanAt_shorter first)).operands level lhs

theorem scanOperands_relabel (level : Precedence) (lhs : Expr) :
    scanOperands level (lhs.relabel f) (ts.map (Token.relabel f)) =
      relabelResult f (relabel f) (scanOperands level lhs ts) := by
  cases ts with
  | nil => simp [relabelled, ParseError.relabel]
  | cons t ts =>
    cases found : t.kind.joinerAt? level with
    | none =>
      rw [List.map_cons, scanOperands_stop found, scanOperands_stop (by exact found)]
      rfl
    | some joiner =>
      rw [List.map_cons, scanOperands_join found, scanOperands_join (by exact found)]
      refine relabelResult_bind ((shorter ts (by simp)).level _) fun rhs rest second => ?_
      have short := scanAt_shorter second
      have relabels := shorter rest (by simp only [List.length_cons]; omega)
      have joined := relabels.operands level (join t.line joiner lhs rhs)
      rwa [join_relabel] at joined

theorem scanArgs_relabel :
    scanArgs (ts.map (Token.relabel f)) = relabelResult f (relabelAll f) (scanArgs ts) := by
  rw [scanArgs_eq, scanArgs_eq]
  refine relabelResult_bind (scanAt_relabel shorter _) fun e rest first => ?_
  have short := scanAt_shorter first
  cases rest with
  | nil => rfl
  | cons t tail =>
    have relabels := shorter tail (by simp only [List.length_cons] at short; omega)
    refine relabelled_ite Iff.rfl (fun _ => ?_) fun _ => ?_
    · exact relabelResult_bind relabels.listed fun _ _ _ => rfl
    · exact relabelResult_bind (scanToken_relabel _ (t :: tail)) fun _ _ _ => rfl

end

theorem relabels (f : Nat → Nat) (ts : List Token) : Relabels f ts := by
  induction n : ts.length using Nat.strongRecOn generalizing ts with
  | ind n ih =>
    subst n
    have shorter (us : List Token) (h : us.length < ts.length) : Relabels f us := ih _ h us rfl
    exact ⟨scanAt_relabel shorter, scanOperands_relabel shorter, scanArgs_relabel shorter⟩

end Expr

namespace Stmt

theorem scanDataType_relabel (ts : List Token) :
    scanDataType (ts.map (Token.relabel f)) = relabelResult f id (scanDataType ts) := by
  cases ts with
  | nil => rfl
  | cons t ts =>
    obtain ⟨kind, lexeme, line⟩ := t
    rw [List.map_cons, scanDataType_cons, scanDataType_cons]
    cases kind with
    | keyword word => cases word <;> rfl
    | _ => rfl

theorem scanParenthesized_relabel (ts : List Token) :
    scanParenthesized (ts.map (Token.relabel f)) =
      relabelResult f (Expr.relabel f) (scanParenthesized ts) := by
  rw [scanParenthesized_eq, scanParenthesized_eq]
  refine relabelResult_bind (scanToken_relabel _ _) fun _ rest _ => ?_
  refine relabelResult_bind ((Expr.relabels f rest).level _) fun _ _ _ => ?_
  exact relabelResult_bind (scanToken_relabel _ _) fun _ _ _ => rfl

theorem scanNames_relabel (ts : List Token) :
    scanNames (ts.map (Token.relabel f)) = relabelResult f id (scanNames ts) := by
  induction n : ts.length using Nat.strongRecOn generalizing ts with
  | ind n ih =>
    subst n
    rw [scanNames_eq, scanNames_eq]
    refine relabelResult_bind (scanToken_relabel _ _) fun name rest first => ?_
    obtain ⟨rfl, -⟩ := scanToken_ok.1 first
    cases rest with
    | nil => rfl
    | cons t tail =>
      have others := ih _ (by simp only [List.length_cons]; omega) tail rfl
      refine relabelled_ite Iff.rfl (fun _ => ?_) fun _ => ?_
      · exact relabelResult_bind others fun _ _ _ => rfl
      · exact relabelResult_bind (scanToken_relabel _ (t :: tail)) fun _ _ _ => rfl

theorem scanParams_relabel (ts : List Token) :
    scanParams (ts.map (Token.relabel f)) = relabelResult f id (scanParams ts) := by
  rw [scanParams_eq, scanParams_eq]
  refine relabelResult_bind (scanToken_relabel _ _) fun _ rest _ => ?_
  cases rest with
  | nil => rfl
  | cons t tail =>
    exact relabelled_ite Iff.rfl (fun _ => rfl) fun _ => scanNames_relabel (t :: tail)

/-! The statements that contain no others, from their second token on. -/

theorem scanDeclaration_relabel (line : Nat) (ts : List Token) :
    scanDeclaration (f line) (ts.map (Token.relabel f)) =
      relabelResult f (relabel f) (scanDeclaration line ts) := by
  rw [scanDeclaration_eq, scanDeclaration_eq]
  refine relabelResult_bind (scanToken_relabel _ _) fun _ _ _ => ?_
  refine relabelResult_bind (scanToken_relabel _ _) fun _ _ _ => ?_
  refine relabelResult_bind (scanDataType_relabel _) fun _ _ _ => ?_
  refine relabelResult_bind (scanToken_relabel _ _) fun _ rest _ => ?_
  refine relabelResult_bind ((Expr.relabels f rest).level _) fun _ _ _ => ?_
  exact relabelResult_bind (scanToken_relabel _ _) fun _ _ _ => rfl

theorem scanAssignment_relabel (name : Token) (ts : List Token) :
    scanAssignment (name.relabel f) (ts.map (Token.relabel f)) =
      relabelResult f (relabel f) (scanAssignment name ts) := by
  rw [scanAssignment_eq, scanAssignment_eq]
  refine relabelResult_bind (scanToken_relabel _ _) fun _ rest _ => ?_
  refine relabelResult_bind ((Expr.relabels f rest).level _) fun _ _ _ => ?_
  exact relabelResult_bind (scanToken_relabel _ _) fun _ _ _ => rfl

theorem scanCallStatement_relabel (callee : Token) (ts : List Token) :
    scanCallStatement (callee.relabel f) (ts.map (Token.relabel f)) =
      relabelResult f (relabel f) (scanCallStatement callee ts) := by
  rw [scanCallStatement_eq, scanCallStatement_eq]
  have shorter (us : List Token) (_ : us.length < ts.length) := Expr.relabels f us
  refine relabelResult_bind (Expr.scanCall_relabel shorter callee) fun _ rest _ => ?_
  cases rest with
  | nil => rfl
  | cons t tail => exact relabelled_ite Iff.rfl (fun _ => rfl) fun _ => rfl

theorem scanPrint_relabel (line : Nat) (ts : List Token) :
    scanPrint (f line) (ts.map (Token.relabel f)) =
      relabelResult f (relabel f) (scanPrint line ts) := by
  rw [scanPrint_eq, scanPrint_eq]
  refine relabelResult_bind (scanParenthesized_relabel _) fun _ _ _ => ?_
  exact relabelResult_bind (scanToken_relabel _ _) fun _ _ _ => rfl

theorem scanReturn_relabel (line : Nat) (ts : List Token) :
    scanReturn (f line) (ts.map (Token.relabel f)) =
      relabelResult f (relabel f) (scanReturn line ts) := by
  rw [scanReturn_eq, scanReturn_eq]
  refine relabelResult_bind ((Expr.relabels f ts).level _) fun _ _ _ => ?_
  exact relabelResult_bind (scanToken_relabel _ _) fun _ _ _ => rfl

theorem noted_relabel {r r' : Except ParseError (Stmt × List Token)}
    (h : r' = relabelResult f (relabel f) r) :
    noted r' = relabelResult f (Option.map (relabel f)) (noted r) :=
  relabelResult_bind h fun _ _ _ => rfl

structure Relabels (f : Nat → Nat) (ts : List Token) : Prop where
  one : scanOne (ts.map (Token.relabel f)) =
    relabelResult f (Option.map (relabel f)) (scanOne ts)
  cond : ∀ line, scanCond (f line) (ts.map (Token.relabel f)) =
    relabelResult f (relabel f) (scanCond line ts)
  branch : scanBranch (ts.map (Token.relabel f)) = relabelResult f (relabel f) (scanBranch ts)
  block : scanBlock (ts.map (Token.relabel f)) = relabelResult f (relabel f) (scanBlock ts)
  body : scanBody (ts.map (Token.relabel f)) = relabelResult f (relabelAll f) (scanBody ts)
  many : scanMany (ts.map (Token.relabel f)) = relabelResult f (relabelAll f) (scanMany ts)

section

variable {ts : List Token}
  (shorter : ∀ us : List Token, us.length < ts.length → Relabels f us)

include shorter

theorem scanCond_relabel (line : Nat) :
    scanCond (f line) (ts.map (Token.relabel f)) =
      relabelResult f (relabel f) (scanCond line ts) := by
  rw [scanCond_eq, scanCond_eq]
  refine relabelResult_bind (scanParenthesized_relabel _) fun c us condition => ?_
  have short₁ := scanParenthesized_shorter condition
  refine relabelResult_bind (shorter us short₁).block fun yes vs block => ?_
  have short₂ := scanBlock_shorter block
  cases vs with
  | nil => rfl
  | cons t tail =>
    have relabels := shorter tail (by simp only [List.length_cons] at short₂; omega)
    refine relabelled_ite Iff.rfl (fun _ => ?_) fun _ => rfl
    exact relabelResult_bind relabels.branch fun _ _ _ => rfl

theorem scanBody_relabel :
    scanBody (ts.map (Token.relabel f)) = relabelResult f (relabelAll f) (scanBody ts) := by
  rw [scanBody_eq, scanBody_eq]
  refine relabelResult_bind (scanToken_relabel _ _) fun l rest left => ?_
  obtain ⟨rfl, -⟩ := scanToken_ok.1 left
  exact (shorter rest (by simp)).many

theorem scanBlock_relabel :
    scanBlock (ts.map (Token.relabel f)) = relabelResult f (relabel f) (scanBlock ts) := by
  cases ts with
  | nil => simp [relabelled, ParseError.relabel]
  | cons t ts =>
    rw [List.map_cons, scanBlock_cons, scanBlock_cons]
    exact relabelResult_bind (scanBody_relabel shorter) fun _ _ _ => rfl

theorem scanBranch_relabel :
    scanBranch (ts.map (Token.relabel f)) = relabelResult f (relabel f) (scanBranch ts) := by
  cases ts with
  | nil => simp [relabelled, ParseError.relabel]
  | cons t ts =>
    rw [List.map_cons, scanBranch_cons, scanBranch_cons, Token.relabel_kind]
    split
    · exact (shorter ts (by simp)).cond t.line
    · exact scanBlock_relabel shorter

theorem scanOne_relabel :
    scanOne (ts.map (Token.relabel f)) =
      relabelResult f (Option.map (relabel f)) (scanOne ts) := by
  cases ts with
  | nil => simp [relabelled, ParseError.relabel]
  | cons t ts =>
    have shorter' (us : List Token) (le : us.length ≤ ts.length) : Relabels f us :=
      shorter us (by simp only [List.length_cons]; omega)
    rw [List.map_cons, scanOne_cons, scanOne_cons, Token.relabel_kind]
    split
    · exact noted_relabel (scanDeclaration_relabel _ _)
    · rw [nextIs_relabel, nextIs_relabel]
      split
      · exact noted_relabel (scanAssignment_relabel _ _)
      · split
        · exact noted_relabel (scanCallStatement_relabel _ _)
        · rfl
    · exact noted_relabel (scanPrint_relabel _ _)
    · refine relabelResult_bind (scanParenthesized_relabel _) fun c rest condition => ?_
      have short := scanParenthesized_shorter condition
      exact relabelResult_bind (shorter' rest (by omega)).block fun _ _ _ => rfl
    · exact noted_relabel ((shorter' ts (Nat.le_refl _)).cond _)
    · exact noted_relabel (shorter' ts (Nat.le_refl _)).branch
    · refine relabelResult_bind (scanToken_relabel _ _) fun name us named => ?_
      refine relabelResult_bind (scanParams_relabel _) fun params vs head => ?_
      have short : vs.length < us.length := (scanned_ok.1 head).1
      obtain ⟨rfl, -⟩ := scanToken_ok.1 named
      have relabels := shorter' vs (by simp only [List.length_cons]; omega)
      exact relabelResult_bind relabels.body fun _ _ _ => rfl
    · exact noted_relabel (scanReturn_relabel _ _)
    · rfl
    · rfl
    · rfl

theorem scanMany_relabel :
    scanMany (ts.map (Token.relabel f)) = relabelResult f (relabelAll f) (scanMany ts) := by
  cases ts with
  | nil => simp [relabelled, ParseError.relabel]
  | cons t ts =>
    rw [List.map_cons, scanMany_cons, scanMany_cons, Token.relabel_kind]
    split
    · rfl
    · split
      · rfl
      · refine relabelResult_bind (scanOne_relabel shorter) fun s rest one => ?_
        refine relabelResult_bind (shorter rest (scanOne_shorter one)).many fun ss _ _ => ?_
        simp [relabelled, pure, Except.pure, relabelAll_append, relabelAll_toList]

end

theorem relabels (f : Nat → Nat) (ts : List Token) : Relabels f ts := by
  induction n : ts.length using Nat.strongRecOn generalizing ts with
  | ind n ih =>
    subst n
    have shorter (us : List Token) (h : us.length < ts.length) : Relabels f us := ih _ h us rfl
    exact {
      one := scanOne_relabel shorter
      cond := scanCond_relabel shorter
      branch := scanBranch_relabel shorter
      block := scanBlock_relabel shorter
      body := scanBody_relabel shorter
      many := scanMany_relabel shorter }

end Stmt

theorem readStatements_relabel (ts : List Token) :
    readStatements (ts.map (Token.relabel f)) =
      relabelled f (Stmt.relabelAll f) (readStatements ts) := by
  induction n : ts.length using Nat.strongRecOn generalizing ts with
  | ind n ih =>
    subst n
    cases ts with
    | nil => simp [relabelled, ParseError.relabel]
    | cons t ts =>
      rw [List.map_cons, readStatements_cons, readStatements_cons]
      refine relabelled_ite Iff.rfl (fun _ => rfl) fun _ => ?_
      refine relabelled_ite Iff.rfl (fun _ => rfl) fun _ => ?_
      refine relabelResult_bind (Stmt.relabels f (t :: ts)).one fun s rest one => ?_
      refine relabelled_bind (ih _ (Stmt.scanOne_shorter one) rest rfl) fun ss _ => ?_
      simp [relabelled, pure, Except.pure, Stmt.relabelAll_append, Stmt.relabelAll_toList]

/-- Other lines in the tokens of a program are other lines in its tree, or in the error if
it has none. -/
theorem parse_relabel (ts : List Token) :
    parse (ts.map (Token.relabel f)) = relabelled f (Program.relabel f) (parse ts) := by
  cases ts with
  | nil => rfl
  | cons t ts =>
    have read := readStatements_relabel (f := f) (t :: ts)
    rw [List.map_cons] at read ⊢
    rw [parse, parse, read]
    cases readStatements (t :: ts) <;> rfl

end
end Betik
