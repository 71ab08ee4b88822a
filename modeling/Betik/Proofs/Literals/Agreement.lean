/-
Lexer and parser agree on literals.

The literals of a tree, from left to right, are what the literal tokens before it stand for,
one for one.  That is a fact about the grammar; with what the decoders make of tokens it
says what the literals of a source are, and which of its tokens can be refused.
-/
import Betik.Proofs.Literals.Values
import Betik.Proofs.Sequence.Compile
import Betik.Proofs.Walk.Progress

namespace Betik

namespace Expr

mutual

def literals : Expr → List Expr
  | literal line value => [literal line value]
  | prompt line text => [prompt line text]
  | binary _ _ lhs rhs | logical _ _ lhs rhs => lhs.literals ++ rhs.literals
  | var .. => []
  | assign _ _ value => value.literals
  | call _ _ args => literalsAll args

def literalsAll : List Expr → List Expr
  | [] => []
  | e :: es => e.literals ++ literalsAll es

end

theorem join_literals (line : Nat) (joiner : Joiner) (lhs rhs : Expr) :
    (join line joiner lhs rhs).literals = lhs.literals ++ rhs.literals := by
  cases joiner <;> rfl

end Expr

namespace Stmt

mutual

def literals : Stmt → List Expr
  | declare _ _ _ init => init.literals
  | print _ value | ret _ value | expr _ value => value.literals
  | cond _ condition yes none => condition.literals ++ yes.literals
  | cond _ condition yes (some no) => condition.literals ++ (yes.literals ++ no.literals)
  | loop _ condition body => condition.literals ++ body.literals
  | function _ _ _ body | block _ body => literalsAll body
  | comment .. => []

def literalsAll : List Stmt → List Expr
  | [] => []
  | s :: ss => s.literals ++ literalsAll ss

end

end Stmt

def decoded (ts : List Token) : List (Except ParseError Expr) :=
  (ts.filter (·.kind.isLiteral)).map Token.atom

section

variable {t : Token} {us vs ts : List Token}

@[simp] theorem decoded_nil : decoded [] = [] := rfl

@[simp] theorem decoded_append : decoded (us ++ vs) = decoded us ++ decoded vs := by
  simp [decoded]

theorem decoded_other (h : t.kind.isLiteral = false) : decoded (t :: ts) = decoded ts := by
  simp [decoded, h]

/-- A token of one of the other kinds. -/
theorem decoded_of_kind {kind : TokenKind} (same : t.kind = kind)
    (h : kind.isLiteral = false := by rfl) : decoded (t :: ts) = decoded ts :=
  decoded_other (same ▸ h)

end

theorem TokenKind.callable_not_literal {kind : TokenKind} (h : kind.callable) :
    kind.isLiteral = false := by
  unfold callable at h
  split at h
  · rfl
  · rfl
  · cases h

theorem TokenKind.joiner_not_literal {kind : TokenKind} {joiner : Joiner}
    (h : kind.joiner? = some joiner) : kind.isLiteral = false := by
  unfold joiner? at h
  split at h
  · rfl
  · rfl
  · cases h

namespace Expr

def Phrase.literals : Phrase → List Expr
  | level _ e | enclosed e => e.literals
  | arguments es | listed es => literalsAll es

/-- A tree has the literals that its tokens are decoded to. -/
theorem Derives.literals {ts : List Token} {phrase : Phrase} (d : Derives ts phrase) :
    decoded ts = phrase.literals.map .ok := by
  induction d with
  | integer kind value | decimal kind value =>
    simp [decoded, kind, TokenKind.isLiteral, Token.atom, value, Phrase.literals, Expr.literals]
  | text kind | truth kind | var kind =>
    simp [decoded, kind, TokenKind.isLiteral, Token.atom, Phrase.literals, Expr.literals]
  | @prompt t text kind lexeme =>
    have found : promptText? t.lexeme.toList = some text.toList := by
      simpa [lexeme] using promptText?_of text.toList
    simp [decoded, kind, TokenKind.isLiteral, Token.atom, found, Phrase.literals, Expr.literals]
  | call kind _ ih =>
    rw [decoded_other (TokenKind.callable_not_literal kind), ih]
    rfl
  | parentheses _ ih | tighter _ _ ih => exact ih
  | last _ ih => simpa [Phrase.literals, literalsAll] using ih
  | joined _ kind _ ihl ihr =>
    simp [decoded_other (TokenKind.joiner_not_literal kind), ihl, ihr, Phrase.literals,
      join_literals]
  | enclosed left _ right ih | someArguments left _ right ih =>
    simp [decoded_of_kind left, decoded_of_kind right, ih, Phrase.literals]
  | noArguments left right =>
    simp [decoded_of_kind left, decoded_of_kind right, Phrase.literals, literalsAll]
  | more _ between _ ihf ihr =>
    simp [decoded_of_kind between, ihf, ihr, Phrase.literals, literalsAll]

end Expr

namespace Stmt

theorem DerivesNames.decoded {ts : List Token} {names : List String} (d : DerivesNames ts names) :
    decoded ts = [] := by
  induction d with
  | last kind => exact decoded_of_kind kind
  | more kind between _ ih => rw [decoded_of_kind kind, decoded_of_kind between, ih]

theorem DerivesParams.decoded {ts : List Token} {names : List String}
    (d : DerivesParams ts names) : decoded ts = [] := by
  cases d with
  | none left right => rw [decoded_of_kind left, decoded_of_kind right, decoded_nil]
  | some left inside right =>
    rw [decoded_of_kind left, decoded_append, inside.decoded, decoded_of_kind right]
    rfl

def Phrase.literals : Phrase → List Expr
  | one s | cond s | branch s | block s => s.literals
  | body ss | many ss => literalsAll ss

theorem Derives.literals {look : Lookahead} {ts : List Token} {phrase : Phrase}
    (d : Derives look ts phrase) : decoded ts = phrase.literals.map .ok := by
  induction d with
  | declare kind named colon typeWord equals value ends =>
    simp [decoded_of_kind kind, decoded_of_kind named, decoded_of_kind colon,
      decoded_of_kind typeWord, decoded_of_kind equals, decoded_of_kind ends, value.literals,
      Phrase.literals, Stmt.literals, Expr.Phrase.literals]
  | assign kind sign value ends =>
    simp [decoded_of_kind kind, decoded_of_kind sign, decoded_of_kind ends, value.literals,
      Phrase.literals, Stmt.literals, Expr.Phrase.literals, Expr.literals]
  | call kind arguments =>
    simp [decoded_of_kind kind, arguments.literals, Phrase.literals, Stmt.literals,
      Expr.Phrase.literals, Expr.literals]
  | callEnded kind arguments ends =>
    simp [decoded_of_kind kind, decoded_of_kind ends, arguments.literals, Phrase.literals,
      Stmt.literals, Expr.Phrase.literals, Expr.literals]
  | print kind value ends | ret kind value ends =>
    simp [decoded_of_kind kind, decoded_of_kind ends, value.literals, Phrase.literals,
      Stmt.literals, Expr.Phrase.literals]
  | loop kind condition _ ih | withoutAlternative kind condition _ ih =>
    simp [decoded_of_kind kind, condition.literals, ih, Phrase.literals, Stmt.literals,
      Expr.Phrase.literals]
  | function kind named params _ ih =>
    simp [decoded_of_kind kind, decoded_of_kind named, params.decoded, ih, Phrase.literals,
      Stmt.literals]
  | withAlternative kind condition _ word _ ihb ihn =>
    simp [decoded_of_kind kind, decoded_of_kind word, condition.literals, ihb, ihn,
      Phrase.literals, Stmt.literals, Expr.Phrase.literals]
  | body left _ right ih =>
    simp [decoded_of_kind left, decoded_of_kind right, ih, Phrase.literals]
  | comment kind => simp [decoded_of_kind kind, Phrase.literals, Stmt.literals]
  | dangling kind _ ih | empty kind _ ih => exact (decoded_of_kind kind).trans ih
  | condition _ ih | branchCond _ ih | branchBlock _ ih | block _ ih => exact ih
  | nil => rfl
  | cons _ _ _ ihf ihr => simp [ihf, ihr, Phrase.literals, literalsAll]

end Stmt

/-! ## Literals of sources -/

/-- The literal tokens stand, one for one and in order, for the literals and prompts. -/
def Agree (ts : List Token) (es : List Expr) : Prop :=
  List.Forall₂ Token.Denotes (ts.filter (·.kind.isLiteral)) es

theorem agree_of_decoded {ts : List Token} {es : List Expr}
    (admits : ∀ t ∈ ts, t.kind.isLiteral → t.kind.Admits t.lexeme.toList)
    (h : decoded ts = es.map .ok) : Agree ts es := by
  have values : ∀ t ∈ ts.filter (·.kind.isLiteral), ∀ e, t.atom = .ok e → t.Denotes e := by
    intro t mem e value
    obtain ⟨mem, literal⟩ := List.mem_filter.1 mem
    obtain ⟨e', value', denotes⟩ | ⟨-, refused⟩ := t.atom_of_admits literal (admits t mem literal)
    · cases value.symm.trans value'
      exact denotes
    · cases value.symm.trans refused
  unfold Agree
  unfold decoded at h
  generalize ts.filter (·.kind.isLiteral) = us at values h
  induction us generalizing es with
  | nil =>
    rw [List.map_eq_nil_iff.1 h.symm]
    exact .nil
  | cons t us ih =>
    obtain ⟨e, es, rfl, value, others⟩ := List.map_eq_cons_iff.1 h.symm
    have split := List.forall_mem_cons.1 values
    exact .cons (split.1 e value.symm) (ih split.2 others.symm)

theorem tokenize_ne_nil (source : String) : tokenize source ≠ [] := by
  obtain ⟨ts, eof, split, -⟩ := tokenize_ends source
  simp [split]

section

variable {source : String}

theorem agree_of_parse {p : Program} (read : parse (tokenize source) = .ok p) :
    Agree (tokenize source) (Stmt.literalsAll p.statements) := by
  have admits := tokenize_admits source
  obtain ⟨ts, eof, split, ends, before⟩ := tokenize_ends source
  rw [split] at admits read ⊢
  refine agree_of_decoded admits ?_
  have d := (parse_eq_ok before ends [] p).1 read
  rw [decoded_append, decoded_of_kind ends, decoded_nil, List.append_nil]
  exact Stmt.Derives.literals d

theorem agree_of_read {e : Expr} (read : (Expr.read (tokenize source)).map Parsed.value = .ok e) :
    ∃ us rest, tokenize source = us ++ rest ∧ Agree us e.literals := by
  rw [Walk.read_value] at read
  cases scan : Expr.scanAt .logicalOr (tokenize source) with
  | error e' =>
    rw [scan] at read
    cases read
  | ok q =>
    obtain ⟨e', rest⟩ := q
    rw [scan] at read
    cases read
    obtain ⟨us, split, d⟩ := Expr.scanAt_splits _ _ _ _ scan
    refine ⟨us, rest, split, agree_of_decoded (fun t mem => ?_) d.literals⟩
    exact tokenize_admits source t (split ▸ List.mem_append_left rest mem)

/-- A token that is refused as a literal is an integer that is too large. -/
theorem exists_tooLarge {line : Nat} {lexeme : String}
    (earned : ∃ t ∈ tokenize source, t.Earns (.invalidLiteral line lexeme)) :
    ∃ t ∈ tokenize source, t.line = line ∧ t.lexeme = lexeme ∧ t.TooLarge := by
  obtain ⟨t, mem, earns⟩ := earned
  have refused := earns.literal line lexeme rfl
  have literal := Token.isLiteral_of_invalid refused
  have admits := tokenize_admits source t mem literal
  obtain ⟨sameLine, sameLexeme⟩ := earns.about
  obtain ⟨e, value, -⟩ | ⟨large, -⟩ := t.atom_of_admits literal admits
  · cases refused.symm.trans value
  · exact ⟨t, mem, sameLine.symm, sameLexeme.symm, large⟩

end

/-- What the lexer and the parser make of the literals of a source.  Those of a tree are the
values of the literal tokens that it is read from, and a literal is refused only if it is an
integer that is too large. -/
theorem literals_agree (source : String) :
    (∀ p, parse (tokenize source) = .ok p →
      Agree (tokenize source) (Stmt.literalsAll p.statements)) ∧
    (∀ e, (Expr.read (tokenize source)).map Parsed.value = .ok e →
      ∃ us rest, tokenize source = us ++ rest ∧ Agree us e.literals) ∧
    (∀ line lexeme, parse (tokenize source) = .error (.invalidLiteral line lexeme) ∨
      (Expr.read (tokenize source)).map Parsed.value = .error (.invalidLiteral line lexeme) →
      ∃ t ∈ tokenize source, t.line = line ∧ t.lexeme = lexeme ∧ t.TooLarge) ∧
    ∀ t ∈ tokenize source, t.kind = .decimal → ∃ e, t.atom = .ok e ∧ t.Denotes e := by
  refine ⟨fun p => agree_of_parse, fun e => agree_of_read, fun line lexeme failed => ?_,
    fun t mem kind => ?_⟩
  · apply exists_tooLarge
    obtain failed | failed := failed
    · exact (Walk.parse_error_earned (tokenize_ne_nil source) failed).resolve_left nofun
    · exact (Walk.read_error_earned failed).resolve_left nofun
  · have literal : t.kind.isLiteral := by rw [kind]; rfl
    obtain found | ⟨large, -⟩ := t.atom_of_admits literal (tokenize_admits source t mem literal)
    · exact found
    · exact absurd (kind.symm.trans large.kind) (by decide)

/-- The least integer that is too large, an integer with leading zeros, and a decimal number. -/
theorem literals_agree_too_large :
    let large := "9223372036854775808"
    let zeros := "f(007)"
    let seven : Expr := .literal 1 (.integer 7)
    let half : Token := ⟨.decimal, "1.5", 1⟩
    (Expr.read (tokenize large)).map Parsed.value = .error (.invalidLiteral 1 large) ∧
      (∃ t ∈ tokenize large, t.line = 1 ∧ t.lexeme = large ∧ t.TooLarge) ∧
      parse (tokenize zeros) = .ok ⟨[.expr 1 (.call 1 "f" [seven])]⟩ ∧
      Agree (tokenize zeros) [seven] ∧
      (Expr.read (tokenize "007$")).map Parsed.value = .ok seven ∧
      (∃ us rest, tokenize "007$" = us ++ rest ∧ Agree us [seven]) ∧
      half ∈ tokenize "1.5" ∧ ∃ e, half.atom = .ok e ∧ half.Denotes e := by
  intro large zeros seven half
  have failed : (Expr.read (tokenize large)).map Parsed.value =
      .error (.invalidLiteral 1 large) := by
    have tokens : tokenize large = [⟨.integer, large, 1⟩, ⟨.endOfFile, "", 1⟩] := by
      decide +kernel
    have value : Number.integer? large.toList = none := by decide
    have refused : Token.atom ⟨.integer, large, 1⟩ = .error (.invalidLiteral 1 large) := by
      simp [Token.atom, value]
    rw [Walk.read_value, tokens]
    simp [Expr.scanAt_of_ne, Expr.scanAt_primary, Expr.scanPrimary_cons, Precedence.next, refused,
      TokenKind.callable]
    rfl
  have value : Number.integer? "007".toList = some 7 := by decide
  have digits : Expr.Derives [⟨.integer, "007", 1⟩] (.level .primary seven) := .integer rfl value
  have parsed : parse (tokenize zeros) = .ok ⟨[.expr 1 (.call 1 "f" [seven])]⟩ := by
    let ts : List Token := [⟨.name, "f", 1⟩, ⟨.mark .leftParen, "(", 1⟩, ⟨.integer, "007", 1⟩,
      ⟨.mark .rightParen, ")", 1⟩]
    let eof : Token := ⟨.endOfFile, "", 1⟩
    have tokens : tokenize zeros = ts ++ [eof] := by decide +kernel
    have before : Lacks .endOfFile ts := by simp [ts]
    have one : Stmt.Derives .direct ts (.one (.expr 1 (.call 1 "f" [seven]))) :=
      .call rfl (.someArguments rfl (.last (digits.of_primary _)) rfl)
    rw [tokens]
    exact (parse_eq_ok before rfl [] _).2 (.cons one .nil fun h => by cases h)
  have read : (Expr.read (tokenize "007$")).map Parsed.value = .ok seven := by
    have tokens : tokenize "007$" =
        [⟨.integer, "007", 1⟩] ++ [⟨.mark .dollar, "$", 1⟩, ⟨.endOfFile, "", 1⟩] := by
      decide +kernel
    rw [Walk.read_value, tokens, (digits.of_primary _).scanAt_mark rfl (by decide)]
    rfl
  have decimal : half ∈ tokenize "1.5" := by decide +kernel
  exact ⟨failed, (literals_agree large).2.2.1 1 large (.inr failed), parsed,
    (literals_agree zeros).1 _ parsed, read, (literals_agree "007$").2.1 _ read,
    decimal, (literals_agree "1.5").2.2.2 half decimal rfl⟩

end Betik
