/-
What the parser reads, the grammar derives.

Readers call each other in a circle, on fewer and fewer tokens.  Each gets a lemma
that supposes the others sound on shorter lists, and one induction on the number of
tokens closes the circle.
-/
import Betik.Proofs.Syntax.Grammar
import Betik.Proofs.Syntax.Scanner

namespace Betik

theorem promptText?_some {lexeme text : List Char} (h : promptText? lexeme = some text) :
    lexeme = '?' :: '?' :: (text ++ ['?', '?']) := by
  unfold promptText? at h
  split at h
  · rename_i rest
    split at h
    · rename_i reversed
      cases h
      have := congrArg List.reverse reversed
      simp only [List.reverse_reverse, List.reverse_cons] at this
      simp [this]
    · cases h
  · cases h

/-- Any way to go from level to level reaches all of them. -/
theorem Precedence.tighter_induction {motive : Precedence → Prop} (primary : motive .primary)
    (step : ∀ level, level ≠ .primary → motive level.next → motive level) (level : Precedence) :
    motive level := by
  have multiplication := step .multiplication (by decide) primary
  have addition := step .addition (by decide) multiplication
  have comparison := step .comparison (by decide) addition
  have equality := step .equality (by decide) comparison
  have conjunction := step .logicalAnd (by decide) equality
  have disjunction := step .logicalOr (by decide) conjunction
  cases level <;> assumption

namespace Expr

/-- A primary expression is one of every level. -/
theorem Derives.of_primary {ts : List Token} {e : Expr} (d : Derives ts (.level .primary e))
    (level : Precedence) : Derives ts (.level level e) := by
  induction level using Precedence.tighter_induction with
  | primary => exact d
  | step level loose ih => exact .tighter loose ih

theorem scanAt_shorter {level : Precedence} {ts rest : List Token} {e : Expr}
    (h : scanAt level ts = .ok (e, rest)) : rest.length < ts.length :=
  (scanned_ok.1 h).1

theorem Derives.of_atom {t : Token} {e : Expr} (h : t.atom = .ok e) :
    Derives [t] (.level .primary e) := by
  simp only [Token.atom] at h
  split at h
  · rename_i kind
    cases value : Number.integer? t.lexeme.toList with
    | none => simp [value] at h
    | some n =>
      simp only [value, Option.map_some, Except.ok.injEq] at h
      exact h ▸ .integer kind value
  · rename_i kind
    cases value : Number.double? t.lexeme.toList with
    | none => simp [value] at h
    | some x =>
      simp only [value, Option.map_some, Except.ok.injEq] at h
      exact h ▸ .decimal kind value
  · rename_i kind
    cases h
    exact .text kind
  · rename_i b kind
    cases h
    exact .truth kind
  · rename_i kind
    split at h
    · rename_i text found
      cases h
      refine .prompt kind (String.toList_inj.1 ?_)
      simp [promptText?_some found]
    · cases h
  · rename_i kind
    cases h
    exact .var kind
  · cases h

structure Sound (ts : List Token) : Prop where
  level : ∀ level e rest, scanAt level ts = .ok (e, rest) →
    ∃ us, ts = us ++ rest ∧ Derives us (.level level e)
  operands : ∀ level lhs e rest us, scanOperands level lhs ts = .ok (e, rest) →
    Derives us (.level level lhs) → ∃ vs, ts = vs ++ rest ∧ Derives (us ++ vs) (.level level e)
  listed : ∀ es rest, scanArgs ts = .ok (es, rest) →
    ∃ us r, ts = us ++ r :: rest ∧ r.kind = .mark .rightParen ∧ Derives us (.listed es)

section

variable {ts rest : List Token} (shorter : ∀ us : List Token, us.length < ts.length → Sound us)

include shorter

theorem scanCall_sound {callee : Token} {e : Expr} (h : scanCall callee ts = .ok (e, rest)) :
    ∃ us es, ts = us ++ rest ∧ e = .call callee.line callee.lexeme es ∧
      Derives us (.arguments es) := by
  simp only [scanCall_eq, Except.bind_eq_ok, Prod.exists, scanToken_ok] at h
  obtain ⟨l, us, ⟨rfl, left⟩, h⟩ := h
  split at h
  · cases h
  · rename_i r tail
    split at h
    · rename_i right
      cases h
      exact ⟨[l, r], [], rfl, rfl, .noArguments left right⟩
    · simp only [Except.bind_eq_ok, Prod.exists] at h
      obtain ⟨es, vs, args, h⟩ := h
      cases h
      obtain ⟨us, r, split, right, listed⟩ := (shorter _ (by simp)).listed _ _ args
      exact ⟨l :: (us ++ [r]), es, by simp [split], rfl, .someArguments left listed right⟩

theorem scanPrimary_sound {e : Expr} (h : scanPrimary ts = .ok (e, rest)) :
    ∃ us, ts = us ++ rest ∧ Derives us (.level .primary e) := by
  cases ts with
  | nil => simp at h
  | cons t ts =>
    rw [scanPrimary_cons] at h
    split at h
    · rename_i left
      simp only [Except.bind_eq_ok, Prod.exists, scanToken_ok] at h
      obtain ⟨e, vs, inside, r, ws, ⟨rfl, right⟩, h⟩ := h
      cases h
      obtain ⟨us, rfl, d⟩ := (shorter ts (by simp)).level _ _ _ inside
      exact ⟨t :: (us ++ [r]), by simp, .parentheses (.enclosed left d right)⟩
    · split at h
      · rename_i callable
        simp only [Bool.and_eq_true] at callable
        have shorter' (us : List Token) (h : us.length < ts.length) : Sound us :=
          shorter us (by simp only [List.length_cons]; omega)
        obtain ⟨us, es, rfl, rfl, d⟩ := scanCall_sound shorter' h
        exact ⟨t :: us, rfl, .call callable.1 d⟩
      · simp only [Except.bind_eq_ok] at h
        obtain ⟨e, atom, h⟩ := h
        cases h
        exact ⟨[t], rfl, .of_atom atom⟩

theorem scanAt_sound {level : Precedence} {e : Expr} (h : scanAt level ts = .ok (e, rest)) :
    ∃ us, ts = us ++ rest ∧ Derives us (.level level e) := by
  induction level using Precedence.tighter_induction generalizing e rest with
  | primary =>
    rw [scanAt_primary] at h
    exact scanPrimary_sound shorter h
  | step level loose ih =>
    simp only [scanAt_of_ne loose, Except.bind_eq_ok, Prod.exists] at h
    obtain ⟨lhs, vs, first, h⟩ := h
    obtain ⟨us, split, d⟩ := ih first
    have soundly := shorter vs (scanAt_shorter first)
    obtain ⟨ws, rfl, d⟩ := soundly.operands _ _ _ _ us h (.tighter loose d)
    exact ⟨us ++ ws, by simp [split], d⟩

theorem scanOperands_sound {level : Precedence} {lhs e : Expr} {us : List Token}
    (h : scanOperands level lhs ts = .ok (e, rest)) (left : Derives us (.level level lhs)) :
    ∃ vs, ts = vs ++ rest ∧ Derives (us ++ vs) (.level level e) := by
  cases ts with
  | nil => simp at h
  | cons t ts =>
    cases found : t.kind.joinerAt? level with
    | none =>
      rw [scanOperands_stop found] at h
      cases h
      exact ⟨[], rfl, by simpa using left⟩
    | some joiner =>
      simp only [scanOperands_join found, Except.bind_eq_ok, Prod.exists] at h
      obtain ⟨rhs, vs, second, h⟩ := h
      obtain ⟨kind, precedence⟩ := Option.filter_eq_some_iff.1 found
      simp only [decide_eq_true_eq] at precedence
      subst precedence
      obtain ⟨ws, rfl, right⟩ := (shorter ts (by simp)).level _ _ _ second
      have short := scanAt_shorter second
      have soundly := shorter vs (by simp only [List.length_cons]; omega)
      obtain ⟨xs, rfl, d⟩ := soundly.operands _ _ _ _ _ h (.joined left kind right)
      exact ⟨t :: (ws ++ xs), by simp, by simpa using d⟩

theorem scanArgs_sound {es : List Expr} (h : scanArgs ts = .ok (es, rest)) :
    ∃ us r, ts = us ++ r :: rest ∧ r.kind = .mark .rightParen ∧ Derives us (.listed es) := by
  rw [scanArgs_eq] at h
  simp only [Except.bind_eq_ok, Prod.exists] at h
  obtain ⟨e, vs, first, h⟩ := h
  have short := scanAt_shorter first
  obtain ⟨us, rfl, d⟩ := scanAt_sound shorter first
  split at h
  · cases h
  · rename_i t tail
    split at h
    · rename_i comma
      simp only [Except.bind_eq_ok, Prod.exists] at h
      obtain ⟨es, ws, others, h⟩ := h
      cases h
      have soundly := shorter tail (by simp only [List.length_cons] at short; omega)
      obtain ⟨ws, r, rfl, right, listed⟩ := soundly.listed _ _ others
      exact ⟨us ++ t :: ws, r, by simp, right, .more d comma listed⟩
    · simp only [Except.bind_eq_ok, Prod.exists, scanToken_ok] at h
      obtain ⟨r, ws, ⟨h', right⟩, h⟩ := h
      cases h
      cases h'
      exact ⟨us, t, rfl, right, .last d⟩

end

theorem sound (ts : List Token) : Sound ts := by
  induction n : ts.length using Nat.strongRecOn generalizing ts with
  | ind n ih =>
    subst n
    have shorter (us : List Token) (h : us.length < ts.length) : Sound us := ih _ h us rfl
    exact ⟨fun _ _ _ => scanAt_sound shorter, fun _ _ _ _ _ => scanOperands_sound shorter,
      fun _ _ => scanArgs_sound shorter⟩

end Expr

namespace Stmt

theorem scanParenthesized_shorter {ts rest : List Token} {e : Expr}
    (h : scanParenthesized ts = .ok (e, rest)) : rest.length < ts.length :=
  (scanned_ok.1 h).1

theorem scanOne_shorter {ts rest : List Token} {s : Option Stmt}
    (h : scanOne ts = .ok (s, rest)) : rest.length < ts.length :=
  (scanned_ok.1 h).1

theorem scanBlock_shorter {ts rest : List Token} {s : Stmt}
    (h : scanBlock ts = .ok (s, rest)) : rest.length < ts.length :=
  (scanned_ok.1 h).1

theorem scanNames_sound {ts rest : List Token} {names : List String}
    (h : scanNames ts = .ok (names, rest)) :
    ∃ us r, ts = us ++ r :: rest ∧ r.kind = .mark .rightParen ∧ DerivesNames us names := by
  induction n : ts.length using Nat.strongRecOn generalizing ts rest names with
  | ind n ih =>
    subst n
    rw [scanNames_eq] at h
    simp only [Except.bind_eq_ok, Prod.exists, scanToken_ok] at h
    obtain ⟨name, vs, ⟨rfl, kind⟩, h⟩ := h
    split at h
    · cases h
    · rename_i t tail
      split at h
      · rename_i comma
        simp only [Except.bind_eq_ok, Prod.exists] at h
        obtain ⟨names, ws, others, h⟩ := h
        cases h
        obtain ⟨us, r, rfl, right, d⟩ := ih _ (by simp only [List.length_cons]; omega) others rfl
        exact ⟨name :: t :: us, r, rfl, right, .more kind comma d⟩
      · simp only [Except.bind_eq_ok, Prod.exists, scanToken_ok] at h
        obtain ⟨r, ws, ⟨h', right⟩, h⟩ := h
        cases h
        cases h'
        exact ⟨[name], t, rfl, right, .last kind⟩

theorem scanParams_sound {ts rest : List Token} {names : List String}
    (h : scanParams ts = .ok (names, rest)) :
    ∃ us, ts = us ++ rest ∧ DerivesParams us names := by
  rw [scanParams_eq] at h
  simp only [Except.bind_eq_ok, Prod.exists, scanToken_ok] at h
  obtain ⟨l, vs, ⟨rfl, left⟩, h⟩ := h
  split at h
  · cases h
  · rename_i r tail
    split at h
    · rename_i right
      cases h
      exact ⟨[l, r], rfl, .none left right⟩
    · obtain ⟨us, r, split, right, d⟩ := scanNames_sound h
      exact ⟨l :: (us ++ [r]), by simp [split], .some left d right⟩

theorem scanParenthesized_sound {ts rest : List Token} {e : Expr}
    (h : scanParenthesized ts = .ok (e, rest)) :
    ∃ us, ts = us ++ rest ∧ Expr.Derives us (.enclosed e) := by
  simp only [scanParenthesized_eq, Except.bind_eq_ok, Prod.exists, scanToken_ok] at h
  obtain ⟨l, vs, ⟨rfl, left⟩, e, ws, inside, r, xs, ⟨rfl, right⟩, h⟩ := h
  cases h
  obtain ⟨us, rfl, d⟩ := (Expr.sound vs).level _ _ _ inside
  exact ⟨l :: (us ++ [r]), by simp, .enclosed left d right⟩

def OneSound (ts rest : List Token) : Option Stmt → Prop
  | none => ∃ t, t.kind = .mark .dollar ∧ ts = t :: rest
  | some s => ∃ us, ts = us ++ rest ∧ Derives .direct us (.one s) ∧ Lookahead.direct.Apart s rest

structure Sound (ts : List Token) : Prop where
  one : ∀ s rest, scanOne ts = .ok (s, rest) → OneSound ts rest s
  cond : ∀ (t : Token) s rest, t.kind = .keyword .cond → scanCond t.line ts = .ok (s, rest) →
    ∃ us, ts = us ++ rest ∧ Derives .direct (t :: us) (.cond s) ∧ Lookahead.direct.Apart s rest
  branch : ∀ s rest, scanBranch ts = .ok (s, rest) →
    ∃ us, ts = us ++ rest ∧ Derives .direct us (.branch s) ∧ Lookahead.direct.Apart s rest
  block : ∀ s rest, scanBlock ts = .ok (s, rest) →
    ∃ us, ts = us ++ rest ∧ Derives .direct us (.block s)
  body : ∀ ss rest, scanBody ts = .ok (ss, rest) →
    ∃ us, ts = us ++ rest ∧ Derives .direct us (.body ss)
  many : ∀ ss rest, scanMany ts = .ok (ss, rest) →
    ∃ us r, ts = us ++ r :: rest ∧ r.kind = .mark .rightBrace ∧ Derives .direct us (.many ss)

/-- A block ends with its brace. -/
theorem Derives.block_apart {look : Lookahead} {us : List Token} {s : Stmt}
    (d : Derives look us (.block s)) (look' : Lookahead) (ts : List Token) :
    look'.Apart s ts := by
  cases d
  exact fun h => by cases h

theorem nextIs_append {kind : TokenKind} {ts : List Token} (h : nextIs kind ts) (us : List Token) :
    nextIs kind (ts ++ us) := by
  cases ts with
  | nil => cases h
  | cons t ts => exact h

/-- One more statement in front of a sequence, or one more dollar sign. -/
theorem OneSound.cons {ts vs rest : List Token} {r : Token} {s : Option Stmt} {ss : List Stmt}
    (first : OneSound ts (vs ++ r :: rest) s) (d : Derives .direct vs (.many ss)) :
    ∃ us, ts = us ++ r :: rest ∧ Derives .direct us (.many (s.toList ++ ss)) := by
  cases s with
  | none =>
    obtain ⟨t, dollar, rfl⟩ := first
    exact ⟨t :: vs, rfl, .empty dollar d⟩
  | some s =>
    obtain ⟨us, rfl, one, apart⟩ := first
    have apart' : Lookahead.direct.Apart s vs := fun h found => apart h (nextIs_append found _)
    exact ⟨us ++ vs, by simp, .cons one d apart'⟩

/-! The statements that contain no others, from their second token on. -/

section

variable {t : Token} {ts rest : List Token} {s : Stmt}

theorem scanDeclaration_sound (kind : t.kind = .keyword .declare)
    (h : scanDeclaration t.line ts = .ok (s, rest)) : OneSound (t :: ts) rest (some s) := by
  simp only [scanDeclaration_eq, Except.bind_eq_ok, Prod.exists, scanToken_ok, scanDataType_ok] at h
  obtain ⟨name, _, ⟨rfl, named⟩, typed, _, ⟨rfl, colon⟩, type, _, ⟨word, rfl, typeWord⟩,
    initially, vs, ⟨rfl, equals⟩, init, _, value, dollar, _, ⟨rfl, ends⟩, h⟩ := h
  cases h
  obtain ⟨us, rfl, d⟩ := (Expr.sound vs).level _ _ _ value
  exact ⟨t :: name :: typed :: word :: initially :: (us ++ [dollar]), by simp,
    .declare kind named colon typeWord equals d ends, fun h => by cases h⟩

theorem scanAssignment_sound (kind : t.kind = .name) (h : scanAssignment t ts = .ok (s, rest)) :
    OneSound (t :: ts) rest (some s) := by
  simp only [scanAssignment_eq, Except.bind_eq_ok, Prod.exists, scanToken_ok] at h
  obtain ⟨equals, vs, ⟨rfl, sign⟩, e, _, value, dollar, _, ⟨rfl, ends⟩, h⟩ := h
  cases h
  obtain ⟨us, rfl, d⟩ := (Expr.sound vs).level _ _ _ value
  exact ⟨t :: equals :: (us ++ [dollar]), by simp, .assign kind sign d ends, fun h => by cases h⟩

theorem scanCallStatement_sound (kind : t.kind = .name)
    (h : scanCallStatement t ts = .ok (s, rest)) : OneSound (t :: ts) rest (some s) := by
  simp only [scanCallStatement_eq, Except.bind_eq_ok, Prod.exists] at h
  obtain ⟨call, vs, arguments, h⟩ := h
  obtain ⟨us, es, rfl, rfl, d⟩ := Expr.scanCall_sound (fun us _ => Expr.sound us) arguments
  split at h
  · cases h
  · rename_i dollar tail
    split at h
    · rename_i ends
      cases h
      exact ⟨t :: (us ++ [dollar]), by simp, .callEnded kind d ends, fun h => by cases h⟩
    · cases h
      exact ⟨t :: us, by simp, .call kind d, fun h => by cases h⟩

theorem scanPrint_sound (kind : t.kind = .keyword .print)
    (h : scanPrint t.line ts = .ok (s, rest)) : OneSound (t :: ts) rest (some s) := by
  simp only [scanPrint_eq, Except.bind_eq_ok, Prod.exists, scanToken_ok] at h
  obtain ⟨e, _, value, dollar, _, ⟨rfl, ends⟩, h⟩ := h
  cases h
  obtain ⟨us, rfl, d⟩ := scanParenthesized_sound value
  exact ⟨t :: (us ++ [dollar]), by simp, .print kind d ends, fun h => by cases h⟩

theorem scanReturn_sound (kind : t.kind = .keyword .ret)
    (h : scanReturn t.line ts = .ok (s, rest)) : OneSound (t :: ts) rest (some s) := by
  simp only [scanReturn_eq, Except.bind_eq_ok, Prod.exists, scanToken_ok] at h
  obtain ⟨e, _, value, dollar, _, ⟨rfl, ends⟩, h⟩ := h
  cases h
  obtain ⟨us, rfl, d⟩ := (Expr.sound ts).level _ _ _ value
  exact ⟨t :: (us ++ [dollar]), by simp, .ret kind d ends, fun h => by cases h⟩

end

section

variable {ts rest : List Token} (shorter : ∀ us : List Token, us.length < ts.length → Sound us)

include shorter

theorem scanCond_sound {t : Token} {s : Stmt} (kind : t.kind = .keyword .cond)
    (h : scanCond t.line ts = .ok (s, rest)) :
    ∃ us, ts = us ++ rest ∧ Derives .direct (t :: us) (.cond s) ∧
      Lookahead.direct.Apart s rest := by
  simp only [scanCond_eq, Except.bind_eq_ok, Prod.exists] at h
  obtain ⟨c, vs, condition, yes, ws, block, h⟩ := h
  have shorter₁ := scanParenthesized_shorter condition
  have shorter₂ := scanBlock_shorter block
  obtain ⟨us, rfl, d⟩ := scanParenthesized_sound condition
  obtain ⟨bs, rfl, b⟩ := (shorter vs (by omega)).block _ _ block
  split at h
  · cases h
  · rename_i next tail
    split at h
    · rename_i otherwise
      simp only [Except.bind_eq_ok, Prod.exists] at h
      obtain ⟨no, xs, branch, h⟩ := h
      cases h
      have soundly := shorter tail (by simp only [List.length_cons] at shorter₂; omega)
      obtain ⟨cs, rfl, n, apart⟩ := soundly.branch _ _ branch
      exact ⟨us ++ (bs ++ next :: cs), by simp, .withAlternative kind d b otherwise n, apart⟩
    · rename_i other
      cases h
      refine ⟨us ++ bs, by simp, .withoutAlternative kind d b, fun _ => ?_⟩
      simpa [Lookahead.findsAlternative, nextIs] using other

theorem scanBody_sound {ss : List Stmt} (h : scanBody ts = .ok (ss, rest)) :
    ∃ us, ts = us ++ rest ∧ Derives .direct us (.body ss) := by
  simp only [scanBody_eq, Except.bind_eq_ok, Prod.exists, scanToken_ok] at h
  obtain ⟨l, vs, ⟨rfl, left⟩, h⟩ := h
  obtain ⟨us, r, rfl, right, d⟩ := (shorter vs (by simp)).many _ _ h
  exact ⟨l :: (us ++ [r]), by simp, .body left d right⟩

theorem scanBlock_sound {s : Stmt} (h : scanBlock ts = .ok (s, rest)) :
    ∃ us, ts = us ++ rest ∧ Derives .direct us (.block s) := by
  cases ts with
  | nil => simp at h
  | cons t ts =>
    simp only [scanBlock_cons, Except.bind_eq_ok, Prod.exists] at h
    obtain ⟨ss, vs, body, h⟩ := h
    cases h
    obtain ⟨us, split, d⟩ := scanBody_sound shorter body
    cases d with
    | body left inside right =>
      cases split
      exact ⟨_, rfl, .block (.body left inside right)⟩

theorem scanBranch_sound {s : Stmt} (h : scanBranch ts = .ok (s, rest)) :
    ∃ us, ts = us ++ rest ∧ Derives .direct us (.branch s) ∧ Lookahead.direct.Apart s rest := by
  cases ts with
  | nil => simp at h
  | cons t ts =>
    rw [scanBranch_cons] at h
    split at h
    · rename_i kind
      obtain ⟨us, rfl, d, apart⟩ := (shorter ts (by simp)).cond _ _ _ kind h
      exact ⟨t :: us, rfl, .branchCond d, apart⟩
    · obtain ⟨us, split, d⟩ := scanBlock_sound shorter h
      exact ⟨us, split, .branchBlock d, d.block_apart _ _⟩

theorem scanOne_sound {s : Option Stmt} (h : scanOne ts = .ok (s, rest)) :
    OneSound ts rest s := by
  cases ts with
  | nil => simp at h
  | cons t ts =>
    have shorter' (us : List Token) (le : us.length ≤ ts.length) : Sound us :=
      shorter us (by simp only [List.length_cons]; omega)
    rw [scanOne_cons] at h
    split at h
    · rename_i kind
      obtain ⟨_, some, form⟩ := noted_ok.1 h
      exact some ▸ scanDeclaration_sound kind form
    · rename_i kind
      split at h
      · obtain ⟨_, some, form⟩ := noted_ok.1 h
        exact some ▸ scanAssignment_sound kind form
      · split at h
        · obtain ⟨_, some, form⟩ := noted_ok.1 h
          exact some ▸ scanCallStatement_sound kind form
        · cases h
    · rename_i kind
      obtain ⟨_, some, form⟩ := noted_ok.1 h
      exact some ▸ scanPrint_sound kind form
    · rename_i kind
      simp only [Except.bind_eq_ok, Prod.exists] at h
      obtain ⟨c, vs, condition, body, ws, block, h⟩ := h
      cases h
      obtain ⟨us, rfl, d⟩ := scanParenthesized_sound condition
      obtain ⟨bs, rfl, b⟩ := (shorter' vs (by simp)).block _ _ block
      exact ⟨t :: (us ++ bs), by simp, .loop kind d b, fun h => by cases h⟩
    · rename_i kind
      obtain ⟨_, rfl, form⟩ := noted_ok.1 h
      obtain ⟨us, rfl, d, apart⟩ := (shorter' ts (by simp)).cond _ _ _ kind form
      exact ⟨t :: us, rfl, .condition d, apart⟩
    · rename_i kind
      obtain ⟨_, rfl, form⟩ := noted_ok.1 h
      obtain ⟨us, rfl, d, apart⟩ := (shorter' ts (by simp)).branch _ _ form
      exact ⟨t :: us, rfl, .dangling kind d, apart⟩
    · rename_i kind
      simp only [Except.bind_eq_ok, Prod.exists, scanToken_ok] at h
      obtain ⟨name, vs, ⟨rfl, named⟩, params, ws, head, ss, xs, body, h⟩ := h
      cases h
      obtain ⟨ps, rfl, p⟩ := scanParams_sound head
      have soundly := shorter' ws (by simp only [List.length_cons, List.length_append]; omega)
      obtain ⟨us, rfl, d⟩ := soundly.body _ _ body
      exact ⟨t :: name :: (ps ++ us), by simp, .function kind named p d, fun h => by cases h⟩
    · rename_i kind
      obtain ⟨_, some, form⟩ := noted_ok.1 h
      exact some ▸ scanReturn_sound kind form
    · rename_i kind
      cases h
      exact ⟨[t], rfl, .comment kind, fun h => by cases h⟩
    · rename_i kind
      cases h
      exact ⟨t, kind, rfl⟩
    · cases h

theorem scanMany_sound {ss : List Stmt} (h : scanMany ts = .ok (ss, rest)) :
    ∃ us r, ts = us ++ r :: rest ∧ r.kind = .mark .rightBrace ∧
      Derives .direct us (.many ss) := by
  cases ts with
  | nil => simp at h
  | cons t ts =>
    rw [scanMany_cons] at h
    split at h
    · rename_i right
      cases h
      exact ⟨[], t, rfl, right, .nil⟩
    · split at h
      · cases h
      · simp only [Except.bind_eq_ok, Prod.exists] at h
        obtain ⟨s, vs, one, ss, ws, many, h⟩ := h
        cases h
        obtain ⟨us, r, rfl, right, d⟩ := (shorter vs (scanOne_shorter one)).many _ _ many
        obtain ⟨us, split, d⟩ := (scanOne_sound shorter one).cons d
        exact ⟨us, r, split, right, d⟩

end

theorem sound (ts : List Token) : Sound ts := by
  induction n : ts.length using Nat.strongRecOn generalizing ts with
  | ind n ih =>
    subst n
    have shorter (us : List Token) (h : us.length < ts.length) : Sound us := ih _ h us rfl
    exact {
      one := fun _ _ => scanOne_sound shorter
      cond := fun _ _ _ => scanCond_sound shorter
      branch := fun _ _ => scanBranch_sound shorter
      block := fun _ _ => scanBlock_sound shorter
      body := fun _ _ => scanBody_sound shorter
      many := fun _ _ => scanMany_sound shorter }

end Stmt

/-- The statements that are read stand in front of an end of file. -/
theorem readStatements_sound {ts : List Token} {ss : List Stmt} (h : readStatements ts = .ok ss) :
    ∃ us eof rest, ts = us ++ eof :: rest ∧ eof.kind = .endOfFile ∧
      Stmt.Derives .direct us (.many ss) := by
  induction n : ts.length using Nat.strongRecOn generalizing ts ss with
  | ind n ih =>
    subst n
    cases ts with
    | nil => simp at h
    | cons t ts =>
      rw [readStatements_cons] at h
      split at h
      · rename_i eof
        cases h
        exact ⟨[], t, ts, rfl, eof, .nil⟩
      · split at h
        · cases h
        · simp only [Except.bind_eq_ok, Prod.exists] at h
          obtain ⟨s, vs, one, ss, many, h⟩ := h
          cases h
          obtain ⟨us, eof, rest, rfl, kind, d⟩ := ih _ (Stmt.scanOne_shorter one) many rfl
          obtain ⟨us, split, d⟩ := ((Stmt.sound _).one _ _ one).cons d
          exact ⟨us, eof, rest, split, kind, d⟩

end Betik
