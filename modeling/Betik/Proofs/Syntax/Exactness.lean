/-
The parser accepts what the grammar derives, and nothing else.
-/
import Betik.Proofs.Syntax.Completeness
import Betik.Proofs.Syntax.Soundness

namespace Betik

def Lacks (kind : TokenKind) (ts : List Token) : Prop :=
  ∀ t ∈ ts, t.kind ≠ kind

@[simp] theorem lacks_nil (kind : TokenKind) : Lacks kind [] := by
  simp [Lacks]

@[simp] theorem lacks_cons {kind : TokenKind} {t : Token} {ts : List Token} :
    Lacks kind (t :: ts) ↔ t.kind ≠ kind ∧ Lacks kind ts :=
  List.forall_mem_cons

@[simp] theorem lacks_append {kind : TokenKind} {us vs : List Token} :
    Lacks kind (us ++ vs) ↔ Lacks kind us ∧ Lacks kind vs :=
  List.forall_mem_append

/-- No expression contains a comment or an end of file. -/
theorem Expr.Derives.lacks {ts : List Token} {phrase : Phrase} (d : Derives ts phrase)
    {kind : TokenKind} (outside : kind = .comment ∨ kind = .endOfFile) : Lacks kind ts := by
  induction d with
  | integer kind | decimal kind | text kind | truth kind | prompt kind | var kind =>
    obtain rfl | rfl := outside <;> simp [kind]
  | @call t _ _ callable _ ih =>
    have : t.kind ≠ kind := by
      rintro rfl
      obtain h | h := outside <;> simp [h, TokenKind.callable] at callable
    simp [this, ih]
  | parentheses _ ih | tighter _ _ ih | last _ ih => exact ih
  | @joined _ _ t _ _ _ _ joiner _ ihl ihr =>
    have : t.kind ≠ kind := by
      rintro rfl
      obtain h | h := outside <;> simp [h, TokenKind.joiner?] at joiner
    simp [this, ihl, ihr]
  | enclosed left _ right ih | someArguments left _ right ih =>
    obtain rfl | rfl := outside <;> simp [left, right, ih]
  | noArguments left right => obtain rfl | rfl := outside <;> simp [left, right]
  | more _ between _ ihf ihr => obtain rfl | rfl := outside <;> simp [between, ihf, ihr]

namespace Stmt

theorem DerivesNames.lacks {ts : List Token} {names : List String} (d : DerivesNames ts names)
    {kind : TokenKind} (outside : kind = .comment ∨ kind = .endOfFile) : Lacks kind ts := by
  induction d with
  | last name => obtain rfl | rfl := outside <;> simp [name]
  | more name between _ ih => obtain rfl | rfl := outside <;> simp [name, between, ih]

theorem DerivesParams.lacks {ts : List Token} {names : List String} (d : DerivesParams ts names)
    {kind : TokenKind} (outside : kind = .comment ∨ kind = .endOfFile) : Lacks kind ts := by
  cases d with
  | none left right => obtain rfl | rfl := outside <;> simp [left, right]
  | some left inside right =>
    have := inside.lacks outside
    obtain rfl | rfl := outside <;> simp [left, right, this]

/-- No statement contains an end of file. -/
theorem Derives.lacks_endOfFile {look : Lookahead} {ts : List Token} {phrase : Phrase}
    (d : Derives look ts phrase) : Lacks .endOfFile ts := by
  induction d with
  | declare kind named colon typeWord equals value ends =>
    simp [kind, named, colon, typeWord, equals, value.lacks, ends]
  | assign kind sign value ends => simp [kind, sign, value.lacks, ends]
  | call kind arguments => simp [kind, arguments.lacks]
  | callEnded kind value ends | print kind value ends | ret kind value ends =>
    simp [kind, value.lacks, ends]
  | loop kind condition _ ih | withoutAlternative kind condition _ ih =>
    simp [kind, condition.lacks, ih]
  | function kind named params _ ih => simp [kind, named, params.lacks, ih]
  | withAlternative kind condition _ word _ ihb ihn => simp [kind, condition.lacks, ihb, word, ihn]
  | body left _ right ih => simp [left, ih, right]
  | comment kind => simp [kind]
  | dangling kind _ ih | empty kind _ ih => simp [kind, ih]
  | condition _ ih | branchCond _ ih | branchBlock _ ih | block _ ih => exact ih
  | nil => simp
  | cons _ _ _ ihf ihr => simp [ihf, ihr]

end Stmt

/-- The tokens in front of the first end of file are determined. -/
theorem append_endOfFile_inj {us vs rest rest' : List Token} {t t' : Token}
    (h : us ++ t :: rest = vs ++ t' :: rest') (before : Lacks .endOfFile us)
    (before' : Lacks .endOfFile vs) (ends : t.kind = .endOfFile) (ends' : t'.kind = .endOfFile) :
    us = vs := by
  induction us generalizing vs with
  | nil =>
    cases vs with
    | nil => rfl
    | cons v vs =>
      cases h
      exact absurd ends (lacks_cons.1 before').1
  | cons u us ih =>
    cases vs with
    | nil =>
      cases h
      exact absurd ends' (lacks_cons.1 before).1
    | cons v vs =>
      injection h with same h
      rw [same, ih h (lacks_cons.1 before).2 (lacks_cons.1 before').2]

theorem parse_ok {ts : List Token} {p : Program} :
    parse ts = .ok p ↔ readStatements ts = .ok p.statements := by
  obtain ⟨ss⟩ := p
  cases ts with
  | nil => simp [parse]
  | cons t ts =>
    rw [parse]
    cases readStatements (t :: ts) <;> simp [Functor.map, Except.map]

/-- What is parsed is what the tokens in front of the first end of file spell. -/
theorem parse_eq_ok {ts : List Token} (before : Lacks .endOfFile ts) {eof : Token}
    (ends : eof.kind = .endOfFile) (rest : List Token) (p : Program) :
    parse (ts ++ eof :: rest) = .ok p ↔ p.Derives .direct ts := by
  rw [parse_ok]
  constructor
  · intro h
    obtain ⟨us, eof', rest', split, ends', d⟩ := readStatements_sound h
    rw [append_endOfFile_inj split before d.lacks_endOfFile ends ends']
    exact d
  · intro d
    exact (d.read eof rest).2 ends

/-- The parser accepts exactly its grammar and builds the tree that the tokens
spell.  They spell one at most: all rules taken together are unambiguous. -/
theorem parse_exact (ts : List Token) (before : Lacks .endOfFile ts) (eof : Token)
    (ends : eof.kind = .endOfFile) (p : Program) :
    (parse (ts ++ [eof]) = .ok p ↔ p.Derives .direct ts) ∧
      ∀ q : Program, p.Derives .direct ts → q.Derives .direct ts → p = q := by
  have exact (p : Program) := parse_eq_ok before ends [] p
  refine ⟨exact p, fun q dp dq => ?_⟩
  have same := ((exact p).2 dp).symm.trans ((exact q).2 dq)
  exact Except.ok.inj same

theorem parse_exact_call :
    let ts : List Token := [⟨.name, "f", 1⟩, ⟨.mark .leftParen, "(", 1⟩,
      ⟨.mark .rightParen, ")", 1⟩, ⟨.mark .dollar, "$", 1⟩]
    let eof : Token := ⟨.endOfFile, "", 1⟩
    Lacks .endOfFile ts ∧ eof.kind = .endOfFile ∧
      parse (ts ++ [eof]) = .ok ⟨[.expr 1 (.call 1 "f" [])]⟩ := by
  intro ts eof
  have before : Lacks .endOfFile ts := by simp [ts]
  have ends : eof.kind = .endOfFile := rfl
  refine ⟨before, ends, (parse_exact ts before eof ends _).1.2 ?_⟩
  have first : Stmt.Derives .direct ts (.one (.expr 1 (.call 1 "f" []))) :=
    .callEnded rfl (.noArguments rfl rfl) rfl
  exact .cons first .nil fun h => by cases h

end Betik
