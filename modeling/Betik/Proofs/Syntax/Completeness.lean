/-
What the grammar derives, the parser reads.

A reader is told where to stop by the token after the phrase.  So each phrase has a
promise about the tokens that may follow it, and the promises are kept by induction
on the derivation.
-/
import Betik.Proofs.Syntax.Grammar
import Betik.Proofs.Syntax.Scanner

namespace Betik

theorem promptText?_of (text : List Char) :
    promptText? ('?' :: '?' :: (text ++ ['?', '?'])) = some text := by
  simp [promptText?]

namespace Expr

/-- The tokens can follow an expression of a level: reading it, the parser meets an
operator only after it has come back to the operator's own level. -/
def Follows (level : Precedence) (rest : List Token) : Prop :=
  ∃ t tail, rest = t :: tail ∧ t.kind ≠ .mark .leftParen ∧
    ∀ joiner, t.kind.joiner? = some joiner → level.height ≤ joiner.precedence.height

theorem Follows.next {level : Precedence} {rest : List Token} (h : Follows level rest) :
    Follows level.next rest := by
  obtain ⟨t, tail, rfl, paren, joiners⟩ := h
  refine ⟨t, tail, rfl, paren, fun joiner found => ?_⟩
  have := joiners joiner found
  have : level.next.height ≤ level.height := by cases level <;> decide
  omega

/-- A sign that is not an opening parenthesis ends every expression. -/
theorem follows_mark {t : Token} {sign : Mark} (kind : t.kind = .mark sign)
    (closing : sign ≠ .leftParen) (level : Precedence) (rest : List Token) :
    Follows level (t :: rest) :=
  ⟨t, rest, rfl, by simp [kind, closing], by simp [kind, TokenKind.joiner?]⟩

/-- No operator of the next level is found behind an expression of a level. -/
theorem Follows.stop_next {level : Precedence} {rest : List Token} (h : Follows level rest)
    (loose : level ≠ .primary) (e : Expr) : scanOperands level.next e rest = .ok (e, rest) := by
  obtain ⟨t, tail, rfl, -, joiners⟩ := h
  refine scanOperands_stop (Option.filter_eq_none_iff.2 fun joiner found => ?_) e tail
  have far := joiners joiner found
  have near := Precedence.height_next loose
  simp only [decide_eq_true_eq]
  intro same
  rw [← same] at near
  omega

theorem Follows.stop_primary {rest : List Token} (h : Follows .primary rest) (e : Expr) :
    scanOperands .primary e rest = .ok (e, rest) := by
  obtain ⟨t, tail, rfl, -, -⟩ := h
  refine scanOperands_stop (Option.filter_eq_none_iff.2 fun joiner _ => ?_) e tail
  simpa using joiner.precedence_ne_primary

theorem Follows.not_leftParen {level : Precedence} {rest : List Token} (h : Follows level rest) :
    nextIs (.mark .leftParen) rest = false := by
  obtain ⟨t, tail, rfl, paren, -⟩ := h
  simpa [nextIs] using paren

/-- Phrases begin with a token, and an expression never begins with a closing
parenthesis. -/
theorem Derives.head {ts : List Token} {phrase : Phrase} (d : Derives ts phrase) :
    ∃ t tail, ts = t :: tail ∧ t.kind ≠ .mark .rightParen := by
  induction d with
  | integer kind | decimal kind | text kind | truth kind | prompt kind | var kind =>
    exact ⟨_, _, rfl, by simp [kind]⟩
  | call kind => exact ⟨_, _, rfl, fun h => by simp [h, TokenKind.callable] at kind⟩
  | parentheses _ ih | tighter _ _ ih | last _ ih => exact ih
  | joined _ _ _ ih | more _ _ _ ih =>
    obtain ⟨t, tail, rfl, other⟩ := ih
    exact ⟨t, _, rfl, other⟩
  | enclosed left | noArguments left | someArguments left =>
    exact ⟨_, _, rfl, by simp [left]⟩

theorem Derives.arguments_head {ts : List Token} {es : List Expr}
    (d : Derives ts (.arguments es)) (rest : List Token) :
    nextIs (.mark .leftParen) (ts ++ rest) := by
  cases d with
  | noArguments left | someArguments left => simpa [nextIs] using left

/-- An expression in parentheses is read in the same way wherever it stands. -/
theorem scanPrimary_parenthesized {t : Token} (left : t.kind = .mark .leftParen)
    (ts : List Token) : scanPrimary (t :: ts) = Stmt.scanParenthesized (t :: ts) := by
  rw [scanPrimary_cons, if_pos left, Stmt.scanParenthesized_eq, scanToken_of left]
  rfl

theorem scanPrimary_atom {t : Token} {e : Expr} {rest : List Token} (atom : t.atom = .ok e)
    (paren : t.kind ≠ .mark .leftParen) (follows : Follows .primary rest) :
    scanPrimary (t :: rest) = .ok (e, rest) := by
  rw [scanPrimary_cons, if_neg paren, follows.not_leftParen, Bool.and_false, atom,
    if_neg Bool.false_ne_true]
  rfl

def Phrase.Read : Phrase → List Token → Prop
  | level l e, ts => ∀ rest, Follows l rest → scanAt l (ts ++ rest) = scanOperands l e rest
  | enclosed e, ts => ∀ rest, Stmt.scanParenthesized (ts ++ rest) = .ok (e, rest)
  | arguments es, ts => ∀ (callee : Token) rest,
    scanCall callee (ts ++ rest) = .ok (.call callee.line callee.lexeme es, rest)
  | listed es, ts => ∀ (r : Token) rest, r.kind = .mark .rightParen →
    scanArgs (ts ++ r :: rest) = .ok (es, rest)

theorem Phrase.Read.mark {ts : List Token} {e : Expr} (read : (level .logicalOr e).Read ts)
    {t : Token} {sign : Mark} (kind : t.kind = .mark sign) (closing : sign ≠ .leftParen)
    (rest : List Token) : scanAt .logicalOr (ts ++ t :: rest) = .ok (e, t :: rest) := by
  rw [read _ (follows_mark kind closing _ _)]
  exact scanOperands_stop (by simp [TokenKind.joinerAt?, kind, TokenKind.joiner?]) _ _

/-! ### What is read of each rule -/

section

variable {t l r : Token} {ts us vs : List Token} {level : Precedence} {e lhs rhs : Expr}
  {es : List Expr}

/-- A single token that is an expression, if no call begins with it. -/
theorem Phrase.Read.atom (atom : t.atom = .ok e) (paren : t.kind ≠ .mark .leftParen) :
    (Phrase.level .primary e).Read [t] := by
  intro rest follows
  rw [scanAt_primary, follows.stop_primary]
  exact scanPrimary_atom atom paren follows

theorem Phrase.Read.call (kind : t.kind.callable) (d : Derives ts (.arguments es))
    (h : (Phrase.arguments es).Read ts) :
    (Phrase.level .primary (.call t.line t.lexeme es)).Read (t :: ts) := by
  intro rest follows
  have paren : t.kind ≠ .mark .leftParen := fun h => by simp [h, TokenKind.callable] at kind
  rw [scanAt_primary, follows.stop_primary, List.cons_append, scanPrimary_cons, if_neg paren,
    kind, d.arguments_head]
  exact h t rest

theorem Phrase.Read.parentheses (d : Derives ts (.enclosed e)) (h : (Phrase.enclosed e).Read ts) :
    (Phrase.level .primary e).Read ts := by
  intro rest follows
  rw [scanAt_primary, follows.stop_primary, ← h rest]
  cases d with
  | enclosed left => exact scanPrimary_parenthesized left _

theorem Phrase.Read.tighter (loose : level ≠ .primary) (h : (Phrase.level level.next e).Read ts) :
    (Phrase.level level e).Read ts := by
  intro rest follows
  rw [scanAt_of_ne loose, h rest follows.next, follows.stop_next loose]
  rfl

theorem Phrase.Read.joined {joiner : Joiner} (kind : t.kind.joiner? = some joiner)
    (left : (Phrase.level joiner.precedence lhs).Read us)
    (right : (Phrase.level joiner.precedence.next rhs).Read vs) :
    (Phrase.level joiner.precedence (join t.line joiner lhs rhs)).Read (us ++ t :: vs) := by
  intro rest follows
  have loose := joiner.precedence_ne_primary
  have here : Follows joiner.precedence (t :: (vs ++ rest)) := by
    refine ⟨t, _, rfl, fun h => by simp [h, TokenKind.joiner?] at kind, fun other found => ?_⟩
    cases kind.symm.trans found
    exact Nat.le_refl _
  have found : t.kind.joinerAt? joiner.precedence = some joiner := by
    simp [TokenKind.joinerAt?, kind]
  rw [List.append_assoc, List.cons_append, left _ here, scanOperands_join found,
    right rest follows.next, follows.stop_next loose]
  rfl

theorem Phrase.Read.enclosed (left : l.kind = .mark .leftParen)
    (h : (Phrase.level .logicalOr e).Read ts) (right : r.kind = .mark .rightParen) :
    (Phrase.enclosed e).Read (l :: (ts ++ [r])) := by
  intro rest
  rw [List.cons_append, List.append_assoc, Stmt.scanParenthesized_eq, scanToken_of left]
  simp only [Except.ok_bind]
  rw [List.singleton_append, h.mark right (by decide)]
  simp only [Except.ok_bind]
  rw [scanToken_of right]
  rfl

theorem Phrase.Read.noArguments (left : l.kind = .mark .leftParen)
    (right : r.kind = .mark .rightParen) : (Phrase.arguments []).Read [l, r] := by
  intro callee rest
  rw [List.cons_append, scanCall_eq, scanToken_of left]
  simp [right]
  rfl

theorem Phrase.Read.someArguments (left : l.kind = .mark .leftParen)
    (d : Derives ts (.listed es)) (h : (Phrase.listed es).Read ts)
    (right : r.kind = .mark .rightParen) : (Phrase.arguments es).Read (l :: (ts ++ [r])) := by
  intro callee rest
  obtain ⟨t, tail, rfl, other⟩ := d.head
  have args := h _ rest right
  rw [List.cons_append, List.append_assoc, scanCall_eq, scanToken_of left]
  simp only [List.cons_append, List.nil_append, Except.ok_bind] at args ⊢
  rw [if_neg other, args]
  rfl

theorem Phrase.Read.last (h : (Phrase.level .logicalOr e).Read ts) :
    (Phrase.listed [e]).Read ts := by
  intro r rest right
  rw [scanArgs_eq, h.mark right (by decide)]
  simp only [Except.ok_bind]
  rw [if_neg (by simp [right]), scanToken_of right]
  rfl

theorem Phrase.Read.more (first : (Phrase.level .logicalOr e).Read us)
    (between : t.kind = .mark .comma) (others : (Phrase.listed es).Read vs) :
    (Phrase.listed (e :: es)).Read (us ++ t :: vs) := by
  intro r rest right
  rw [List.append_assoc, List.cons_append, scanArgs_eq, first.mark between (by decide)]
  simp only [Except.ok_bind]
  rw [if_pos between, others r rest right]
  rfl

end

theorem Derives.read {ts : List Token} {phrase : Phrase} (d : Derives ts phrase) :
    phrase.Read ts := by
  induction d with
  | integer kind value | decimal kind value =>
    exact .atom (by simp [Token.atom, kind, value]) (by simp [kind])
  | text kind | truth kind | var kind =>
    exact .atom (by simp [Token.atom, kind]) (by simp [kind])
  | @prompt t text kind lexeme =>
    have found : promptText? t.lexeme.toList = some text.toList := by
      simpa [lexeme] using promptText?_of text.toList
    exact .atom (by simp [Token.atom, kind, found]) (by simp [kind])
  | call kind arguments ih => exact .call kind arguments ih
  | parentheses inside ih => exact .parentheses inside ih
  | tighter loose _ ih => exact .tighter loose ih
  | joined _ kind _ left right => exact .joined kind left right
  | enclosed left _ right ih => exact .enclosed left ih right
  | noArguments left right => exact .noArguments left right
  | someArguments left inside right ih => exact .someArguments left inside ih right
  | last _ ih => exact .last ih
  | more _ between _ first others => exact .more first between others

/-- A whole expression in front of a sign that is not an opening parenthesis. -/
theorem Derives.scanAt_mark {ts : List Token} {e : Expr} (d : Derives ts (.level .logicalOr e))
    {t : Token} {sign : Mark} (kind : t.kind = .mark sign) (closing : sign ≠ .leftParen)
    (rest : List Token) : scanAt .logicalOr (ts ++ t :: rest) = .ok (e, t :: rest) :=
  Phrase.Read.mark d.read kind closing rest

end Expr

namespace Stmt

theorem DerivesNames.read {ts : List Token} {names : List String} (d : DerivesNames ts names)
    {r : Token} (right : r.kind = .mark .rightParen) (rest : List Token) :
    scanNames (ts ++ r :: rest) = .ok (names, rest) := by
  induction d with
  | last kind =>
    rw [List.cons_append, scanNames_eq, scanToken_of kind]
    simp only [Except.ok_bind, List.nil_append]
    rw [if_neg (by simp [right]), scanToken_of right]
    rfl
  | more kind between _ ih =>
    rw [List.cons_append, List.cons_append, scanNames_eq, scanToken_of kind]
    simp only [Except.ok_bind]
    rw [if_pos between, ih]
    rfl

theorem DerivesParams.read {ts : List Token} {names : List String} (d : DerivesParams ts names)
    (rest : List Token) : scanParams (ts ++ rest) = .ok (names, rest) := by
  cases d with
  | none left right =>
    rw [List.cons_append, scanParams_eq, scanToken_of left]
    simp [right]
    rfl
  | some left inside right =>
    have names := inside.read right rest
    rw [List.cons_append, List.append_assoc, scanParams_eq, scanToken_of left]
    cases inside with
    | last kind | more kind =>
      simp only [List.cons_append, List.nil_append, Except.ok_bind] at names ⊢
      rw [if_neg (by simp [kind]), names]

theorem scanParenthesized_of {ts : List Token} {e : Expr} (d : Expr.Derives ts (.enclosed e))
    (rest : List Token) : scanParenthesized (ts ++ rest) = .ok (e, rest) :=
  d.read rest

/-- The tokens after a statement, or those without a dollar sign in front of them,
which a call takes along. -/
def Dropped (rest rest' : List Token) : Prop :=
  rest' = rest ∨ ∃ t, t.kind = .mark .dollar ∧ rest = t :: rest'

theorem scanMany_empty {t : Token} (kind : t.kind = .mark .dollar) (ts : List Token) :
    scanMany (t :: ts) = scanMany ts := by
  rw [scanMany_cons, if_neg (by simp [kind]), if_neg (by simp [kind]), scanOne_cons, kind]
  exact bind_pure (scanMany ts)

theorem readStatements_empty {t : Token} (kind : t.kind = .mark .dollar) (ts : List Token) :
    readStatements (t :: ts) = readStatements ts := by
  rw [readStatements_cons, if_neg (by simp [kind]), if_neg (by simp [kind]), scanOne_cons, kind]
  exact bind_pure (readStatements ts)

theorem Dropped.scanMany {rest rest' : List Token} (h : Dropped rest rest') :
    scanMany rest' = Stmt.scanMany rest := by
  obtain rfl | ⟨t, kind, rfl⟩ := h
  · rfl
  · exact (scanMany_empty kind rest').symm

theorem Dropped.readStatements {rest rest' : List Token} (h : Dropped rest rest') :
    readStatements rest' = Betik.readStatements rest := by
  obtain rfl | ⟨t, kind, rfl⟩ := h
  · rfl
  · exact (readStatements_empty kind rest').symm

def Phrase.Read : Phrase → List Token → Prop
  | one s, ts => ∀ rest, rest ≠ [] → Lookahead.direct.Apart s rest →
    ∃ rest', scanOne (ts ++ rest) = .ok (some s, rest') ∧ Dropped rest rest'
  | cond s, ts => ∀ rest, rest ≠ [] → Lookahead.direct.Apart s rest →
    ∃ t us, ts = t :: us ∧ t.kind = .keyword .cond ∧ scanCond t.line (us ++ rest) = .ok (s, rest)
  | branch s, ts => ∀ rest, rest ≠ [] → Lookahead.direct.Apart s rest →
    scanBranch (ts ++ rest) = .ok (s, rest)
  | block s, ts => ∀ rest, scanBlock (ts ++ rest) = .ok (s, rest)
  | body ss, ts => ∀ rest, scanBody (ts ++ rest) = .ok (ss, rest)
  | many ss, ts => ∀ (r : Token) rest,
    (r.kind = .mark .rightBrace → scanMany (ts ++ r :: rest) = .ok (ss, rest)) ∧
      (r.kind = .endOfFile → readStatements (ts ++ r :: rest) = .ok ss)

/-- A statement begins with a token that ends neither a block nor a program. -/
theorem Derives.head {look : Lookahead} {ts : List Token} {s : Stmt}
    (d : Derives look ts (.one s)) :
    ∃ t tail, ts = t :: tail ∧ t.kind ≠ .mark .rightBrace ∧ t.kind ≠ .endOfFile := by
  cases d with
  | condition cond =>
    cases cond with
    | withoutAlternative kind | withAlternative kind =>
      exact ⟨_, _, rfl, by simp [kind], by simp [kind]⟩
  | declare kind | assign kind | call kind | callEnded kind | print kind | loop kind
  | dangling kind | function kind | ret kind | comment kind =>
    exact ⟨_, _, rfl, by simp [kind], by simp [kind]⟩

/-- What is in braces begins with one. -/
theorem Derives.body_head {look : Lookahead} {ts : List Token} {ss : List Stmt}
    (d : Derives look ts (.body ss)) : ∃ t tail, ts = t :: tail ∧ t.kind = .mark .leftBrace := by
  cases d with
  | body left => exact ⟨_, _, rfl, left⟩

/-- The end of a block or of a program is no alternative. -/
theorem Lookahead.Apart.append {s : Stmt} {ts : List Token} (h : Lookahead.direct.Apart s ts)
    {r : Token} (kind : r.kind ≠ .keyword .otherwise) (rest : List Token) :
    Lookahead.direct.Apart s (ts ++ r :: rest) := by
  cases ts with
  | nil => simp [Lookahead.Apart, Lookahead.findsAlternative, nextIs, kind]
  | cons t ts => exact h

theorem scanCallStatement_of {t : Token} {ts : List Token} {es : List Expr}
    (d : Expr.Derives ts (.arguments es)) (next : Token) (rest : List Token) :
    scanCallStatement t (ts ++ next :: rest) =
      .ok (.expr t.line (.call t.line t.lexeme es),
        if next.kind = .mark .dollar then rest else next :: rest) := by
  rw [scanCallStatement_eq, d.read t (next :: rest)]
  simp only [Except.ok_bind]
  split <;> rfl

theorem scanOne_call {t : Token} (kind : t.kind = .name) {ts : List Token} {es : List Expr}
    (d : Expr.Derives ts (.arguments es)) (rest : List Token) :
    scanOne (t :: (ts ++ rest)) = noted (scanCallStatement t (ts ++ rest)) := by
  have paren := d.arguments_head rest
  have equals : nextIs (.mark .equals) (ts ++ rest) = false := by
    cases d with
    | noArguments left | someArguments left => simp [nextIs, left]
  simp [scanOne_cons, kind, paren, equals]

/-! ### What is read of each rule -/

section

variable {t name typed word initially equals dollar otherwise l r : Token}
  {ps ts us vs : List Token} {names : List String} {type : DataType} {e init : Expr}
  {es : List Expr} {s yes no : Stmt} {ss : List Stmt}

/-- The statement is read and takes nothing along. -/
theorem Phrase.Read.of_scanOne (h : ∀ rest, scanOne (ts ++ rest) = .ok (some s, rest)) :
    (one s).Read ts :=
  fun rest _ _ => ⟨rest, h rest, .inl rfl⟩

theorem Phrase.Read.declare (kind : t.kind = .keyword .declare) (named : name.kind = .name)
    (colon : typed.kind = .keyword .typed) (typeWord : word.kind = .keyword (.dataType type))
    (equals : initially.kind = .keyword .initially)
    (value : Expr.Derives ts (.level .logicalOr init)) (ends : dollar.kind = .mark .dollar) :
    (one (.declare t.line name.lexeme type init)).Read
      (t :: name :: typed :: word :: initially :: (ts ++ [dollar])) := by
  refine .of_scanOne fun rest => ?_
  simp only [List.cons_append, List.append_assoc, List.nil_append, scanOne_cons, kind,
    scanDeclaration_eq, scanToken_of named, scanToken_of colon, scanDataType_cons, typeWord,
    scanToken_of equals, value.scanAt_mark ends (by decide), scanToken_of ends, Except.ok_bind]
  rfl

theorem Phrase.Read.assign (kind : t.kind = .name) (sign : equals.kind = .mark .equals)
    (value : Expr.Derives ts (.level .logicalOr e)) (ends : dollar.kind = .mark .dollar) :
    (one (.expr t.line (.assign t.line t.lexeme e))).Read (t :: equals :: (ts ++ [dollar])) := by
  refine .of_scanOne fun rest => ?_
  simp only [List.cons_append, List.append_assoc, List.nil_append, scanOne_cons, kind, nextIs,
    sign, decide_true, if_true, scanAssignment_eq, scanToken_of sign,
    value.scanAt_mark ends (by decide), scanToken_of ends, Except.ok_bind]
  rfl

/-- A call takes a dollar sign along if one is next. -/
theorem Phrase.Read.call (kind : t.kind = .name) (arguments : Expr.Derives ts (.arguments es)) :
    (one (.expr t.line (.call t.line t.lexeme es))).Read (t :: ts) := by
  intro rest nonempty _
  cases rest with
  | nil => exact absurd rfl nonempty
  | cons next tail =>
    rw [List.cons_append, scanOne_call kind arguments, scanCallStatement_of arguments]
    by_cases dollar : next.kind = .mark .dollar
    · exact ⟨tail, by rw [if_pos dollar]; rfl, .inr ⟨next, dollar, rfl⟩⟩
    · exact ⟨next :: tail, by rw [if_neg dollar]; rfl, .inl rfl⟩

theorem Phrase.Read.callEnded (kind : t.kind = .name)
    (arguments : Expr.Derives ts (.arguments es)) (ends : dollar.kind = .mark .dollar) :
    (one (.expr t.line (.call t.line t.lexeme es))).Read (t :: (ts ++ [dollar])) := by
  refine .of_scanOne fun rest => ?_
  rw [List.cons_append, List.append_assoc, List.singleton_append, scanOne_call kind arguments,
    scanCallStatement_of arguments, if_pos ends]
  rfl

theorem Phrase.Read.print (kind : t.kind = .keyword .print)
    (value : Expr.Derives ts (.enclosed e)) (ends : dollar.kind = .mark .dollar) :
    (one (.print t.line e)).Read (t :: (ts ++ [dollar])) := by
  refine .of_scanOne fun rest => ?_
  simp only [List.cons_append, List.append_assoc, List.nil_append, scanOne_cons, kind,
    scanPrint_eq, scanParenthesized_of value, scanToken_of ends, Except.ok_bind]
  rfl

theorem Phrase.Read.loop (kind : t.kind = .keyword .loop)
    (condition : Expr.Derives ts (.enclosed e)) (body : (block s).Read us) :
    (one (.loop t.line e s)).Read (t :: (ts ++ us)) := by
  refine .of_scanOne fun rest => ?_
  simp only [List.cons_append, List.append_assoc, scanOne_cons, kind,
    scanParenthesized_of condition, Except.ok_bind]
  rw [body rest]
  rfl

theorem Phrase.Read.condition (h : (cond s).Read ts) : (one s).Read ts := by
  intro rest nonempty apart
  obtain ⟨t, us, rfl, kind, read⟩ := h rest nonempty apart
  refine ⟨rest, ?_, .inl rfl⟩
  simp only [List.cons_append, scanOne_cons, kind, read]
  rfl

theorem Phrase.Read.dangling (kind : t.kind = .keyword .otherwise) (h : (branch s).Read ts) :
    (one s).Read (t :: ts) := by
  intro rest nonempty apart
  refine ⟨rest, ?_, .inl rfl⟩
  simp only [List.cons_append, scanOne_cons, kind]
  rw [h rest nonempty apart]
  rfl

theorem Phrase.Read.function (kind : t.kind = .keyword .function) (named : name.kind = .name)
    (params : DerivesParams ps names) (h : (body ss).Read ts) :
    (one (.function t.line name.lexeme names ss)).Read (t :: name :: (ps ++ ts)) := by
  refine .of_scanOne fun rest => ?_
  simp only [List.cons_append, List.append_assoc, scanOne_cons, kind, scanToken_of named,
    params.read, Except.ok_bind]
  rw [h rest]
  rfl

theorem Phrase.Read.ret (kind : t.kind = .keyword .ret)
    (value : Expr.Derives ts (.level .logicalOr e)) (ends : dollar.kind = .mark .dollar) :
    (one (.ret t.line e)).Read (t :: (ts ++ [dollar])) := by
  refine .of_scanOne fun rest => ?_
  simp only [List.cons_append, List.append_assoc, List.nil_append, scanOne_cons, kind,
    scanReturn_eq, value.scanAt_mark ends (by decide), scanToken_of ends, Except.ok_bind]
  rfl

theorem Phrase.Read.comment (kind : t.kind = .comment) :
    (one (.comment t.line (commentText t.lexeme))).Read [t] :=
  .of_scanOne fun rest => by simp [scanOne_cons, kind]

/-- What is next is no alternative, so the condition ends with its block. -/
theorem Phrase.Read.withoutAlternative (kind : t.kind = .keyword .cond)
    (condition : Expr.Derives ts (.enclosed e)) (h : (block yes).Read us) :
    (cond (.cond t.line e yes none)).Read (t :: (ts ++ us)) := by
  intro rest nonempty apart
  refine ⟨_, _, rfl, kind, ?_⟩
  rw [List.append_assoc, scanCond_eq, scanParenthesized_of condition]
  simp only [Except.ok_bind]
  rw [h rest]
  cases rest with
  | nil => exact absurd rfl nonempty
  | cons next tail =>
    have other : next.kind ≠ .keyword .otherwise := by
      simpa [Lookahead.findsAlternative, nextIs] using apart rfl
    simp only [Except.ok_bind]
    rw [if_neg other]
    rfl

theorem Phrase.Read.withAlternative (kind : t.kind = .keyword .cond)
    (condition : Expr.Derives ts (.enclosed e)) (first : (block yes).Read us)
    (word : otherwise.kind = .keyword .otherwise) (second : (branch no).Read vs) :
    (cond (.cond t.line e yes (some no))).Read (t :: (ts ++ (us ++ otherwise :: vs))) := by
  intro rest nonempty apart
  refine ⟨_, _, rfl, kind, ?_⟩
  rw [List.append_assoc, List.append_assoc, scanCond_eq, scanParenthesized_of condition]
  simp only [Except.ok_bind]
  rw [first _]
  simp only [Except.ok_bind, List.cons_append]
  rw [if_pos word, second rest nonempty apart]
  rfl

theorem Phrase.Read.branchCond (h : (cond s).Read ts) : (branch s).Read ts := by
  intro rest nonempty apart
  obtain ⟨t, us, rfl, kind, read⟩ := h rest nonempty apart
  rw [List.cons_append, scanBranch_cons, if_pos kind, read]

theorem Phrase.Read.branchBlock (d : Derives .direct ts (.block s)) (h : (block s).Read ts) :
    (branch s).Read ts := by
  intro rest _ _
  have read := h rest
  cases d with
  | block body =>
    obtain ⟨t, tail, eq, left⟩ := body.body_head
    cases eq
    rw [List.cons_append] at read ⊢
    rw [scanBranch_cons, if_neg (by simp [left]), read]

theorem Phrase.Read.block (h : (body ss).Read (t :: ts)) :
    (block (.block t.line ss)).Read (t :: ts) := by
  intro rest
  have read := h rest
  rw [List.cons_append] at read ⊢
  rw [scanBlock_cons, read]
  rfl

theorem Phrase.Read.body (left : l.kind = .mark .leftBrace) (h : (many ss).Read ts)
    (right : r.kind = .mark .rightBrace) : (body ss).Read (l :: (ts ++ [r])) := by
  intro rest
  rw [List.cons_append, List.append_assoc, List.singleton_append, scanBody_eq, scanToken_of left]
  exact (h r rest).1 right

theorem Phrase.Read.nil : (many []).Read [] := by
  intro r rest
  constructor
  · intro right
    rw [List.nil_append, scanMany_cons, if_pos right]
  · intro eof
    rw [List.nil_append, readStatements_cons, if_pos eof]

theorem Phrase.Read.empty (kind : t.kind = .mark .dollar) (h : (many ss).Read ts) :
    (many ss).Read (t :: ts) := by
  intro r rest
  rw [List.cons_append, scanMany_empty kind, readStatements_empty kind]
  exact h r rest

/-- What ends the sequence is no alternative to its first statement. -/
theorem Phrase.Read.cons (d : Derives .direct us (.one s)) (first : (one s).Read us)
    (others : (many ss).Read vs) (apart : Lookahead.direct.Apart s vs) :
    (many (s :: ss)).Read (us ++ vs) := by
  intro r rest
  have kept (kind : r.kind ≠ .keyword .otherwise) :=
    first (vs ++ r :: rest) (by simp) (apart.append kind rest)
  obtain ⟨t, tail, rfl, notBrace, notEnd⟩ := d.head
  rw [List.append_assoc]
  constructor
  · intro right
    obtain ⟨rest', read, dropped⟩ := kept (by simp [right])
    have more := (others r rest).1 right
    rw [List.cons_append] at read ⊢
    rw [scanMany_cons, if_neg notBrace, if_neg notEnd, read]
    simp only [Except.ok_bind]
    rw [dropped.scanMany, more]
    rfl
  · intro eof
    obtain ⟨rest', read, dropped⟩ := kept (by simp [eof])
    have more := (others r rest).2 eof
    rw [List.cons_append] at read ⊢
    rw [readStatements_cons, if_neg notEnd, if_neg notBrace, read]
    simp only [Except.ok_bind]
    rw [dropped.readStatements, more]
    rfl

end

theorem Derives.read {ts : List Token} {phrase : Phrase} (d : Derives .direct ts phrase) :
    phrase.Read ts := by
  induction d with
  | declare kind named colon typeWord equals value ends =>
    exact .declare kind named colon typeWord equals value ends
  | assign kind sign value ends => exact .assign kind sign value ends
  | call kind arguments => exact .call kind arguments
  | callEnded kind arguments ends => exact .callEnded kind arguments ends
  | print kind value ends => exact .print kind value ends
  | loop kind condition _ ih => exact .loop kind condition ih
  | condition _ ih => exact .condition ih
  | dangling kind _ ih => exact .dangling kind ih
  | function kind named params _ ih => exact .function kind named params ih
  | ret kind value ends => exact .ret kind value ends
  | comment kind => exact .comment kind
  | withoutAlternative kind condition _ ih => exact .withoutAlternative kind condition ih
  | withAlternative kind condition _ word _ first second =>
    exact .withAlternative kind condition first word second
  | branchCond _ ih => exact .branchCond ih
  | branchBlock block ih => exact .branchBlock block ih
  | block _ ih => exact .block ih
  | body left _ right ih => exact .body left ih right
  | nil => exact .nil
  | empty kind _ ih => exact .empty kind ih
  | cons first _ apart one others => exact .cons first one others apart

end Stmt
end Betik
