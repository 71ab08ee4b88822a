/-
Readers that find an error as early as it can be found.

Where a punctual reader fails, the tokens before the offending one begin a phrase,
and no tokens behind it could have helped: the reader has looked at one more token at
most, and at none behind an end of file.  To put punctual readers together, it must
also be known how far a reader looks that succeeds, which is the first token it
leaves.
-/
import Betik.Proofs.Syntax.Exactness

namespace Betik

/-- The error names the token: its line, and its text as messages show it or as it
was written. -/
def ParseError.About (t : Token) : ParseError → Prop
  | emptyInput | beyondEndOfFile => False
  | expectedToken line _ found | expectedDataType line found | expectedExpr line found
  | unexpectedToken line found => line = t.line ∧ found = t.found
  | invalidLiteral line lexeme => line = t.line ∧ lexeme = t.lexeme

/-- The kind of the next token.  A list that just stops looks like an end of file to
the token in front. -/
def nextKind : List Token → TokenKind
  | [] => .endOfFile
  | t :: _ => t.kind

theorem nextIs_eq {kind : TokenKind} (inside : kind ≠ .endOfFile) (ts : List Token) :
    nextIs kind ts = decide (nextKind ts = kind) := by
  cases ts with
  | nil => simp [nextIs, nextKind, inside.symm]
  | cons t ts => rfl

theorem nextKind_of_head? {us vs : List Token} (same : us.head? = vs.head?) :
    nextKind us = nextKind vs := by
  cases us <;> cases vs <;> simp_all [nextKind]

def Spells {α : Type} (D : List Token → α → Prop) (ts : List Token) : Prop :=
  ∃ a, D ts a

def Splits {α : Type} (r : List Token → Except ParseError (α × List Token))
    (D : List Token → α → Prop) : Prop :=
  ∀ ts a rest, r ts = .ok (a, rest) → ∃ us, ts = us ++ rest ∧ D us a

/-- The tokens begin a phrase. -/
def Opens (E : List Token → Prop) (us : List Token) : Prop :=
  ∃ vs, E (us ++ vs)

section

variable {E : List Token → Prop} {us vs : List Token}

theorem Opens.of (h : E us) : Opens E us :=
  ⟨[], by rwa [List.append_nil]⟩

theorem Opens.before (h : Opens E (us ++ vs)) : Opens E us := by
  obtain ⟨ws, h⟩ := h
  exact ⟨vs ++ ws, by rwa [← List.append_assoc]⟩

end

section

variable {α β γ : Type} {E : List Token → Prop} {pre : List Token}

/-- Why reading the tokens ends with the error.  Either they just stop, or one of them
is to blame: what is in front of it, together with what was read earlier, begins a
phrase, and with it the error is certain. -/
inductive Fault (r : List Token → Except ParseError γ) (E : List Token → Prop)
    (pre : List Token) : List Token → ParseError → Prop
  | stop {ts : List Token} (endless : Lacks .endOfFile ts) : Fault r E pre ts .beyondEndOfFile
  | token {us rest : List Token} {t : Token} {e : ParseError} (about : e.About t)
    (before : Lacks .endOfFile us) (opens : Opens E (pre ++ us))
    (certain : ∀ rest', t.kind = .endOfFile ∨ nextKind rest' = nextKind rest →
      r (us ++ t :: rest') = .error e) : Fault r E pre (us ++ t :: rest) e

namespace Fault

variable {r : List Token → Except ParseError γ} {ts : List Token} {e : ParseError}

theorem imp {F : List Token → Prop} {pre' : List Token} (h : Fault r E pre ts e)
    (opens : ∀ us, E (pre ++ us) → Opens F (pre' ++ us)) : Fault r F pre' ts e := by
  cases h with
  | stop endless => exact .stop endless
  | @token us _ _ _ about before begins certain =>
    obtain ⟨vs, word⟩ := begins
    rw [List.append_assoc] at word
    have begins' := opens _ word
    rw [← List.append_assoc] at begins'
    exact .token about before begins'.before certain

/-- The first token is to blame. -/
theorem here {t : Token} {rest : List Token} (about : e.About t) (opens : Opens E pre)
    (certain : ∀ rest', t.kind = .endOfFile ∨ nextKind rest' = nextKind rest →
      r (t :: rest') = .error e) : Fault r E pre (t :: rest) e := by
  have begins : Opens E (pre ++ []) := by rwa [List.append_nil]
  exact .token about (lacks_nil _) begins certain

/-- Another reader that does the same with lists of this first token. -/
theorem congr {s : List Token → Except ParseError γ} {t : Token} {tail : List Token}
    (h : Fault r E pre (t :: tail) e) (same : ∀ us, s (t :: us) = r (t :: us)) :
    Fault s E pre (t :: tail) e := by
  generalize split : t :: tail = ts at h
  cases h with
  | stop endless => exact .stop endless
  | @token us rest t' _ about before opens certain =>
    refine .token about before opens fun rest' sees => ?_
    obtain ⟨us', head⟩ : ∃ us', us ++ t' :: rest' = t :: us' := by
      cases us with
      | nil =>
        cases split
        exact ⟨rest', rfl⟩
      | cons u us =>
        cases split
        exact ⟨us ++ t' :: rest', rfl⟩
    rw [head, same, ← head, certain rest' sees]

/-- An error is not changed by what would have been done with a result. -/
theorem bind {δ : Type} {f : γ → Except ParseError δ} (h : Fault r E pre ts e) :
    Fault (fun ts => r ts >>= f) E pre ts e := by
  cases h with
  | stop endless => exact .stop endless
  | token about before opens certain =>
    refine .token about before opens fun rest' sees => ?_
    simp only [certain rest' sees]
    rfl

end Fault

/-- Reading the tokens succeeds whatever is behind the first token that it leaves, and
fails early. -/
structure PunctualAt (r : List Token → Except ParseError (α × List Token))
    (E : List Token → Prop) (pre ts : List Token) : Prop where
  ok : ∀ a rest, r ts = .ok (a, rest) → ∃ us, ts = us ++ rest ∧ Lacks .endOfFile us ∧
    ∀ rest', rest'.head? = rest.head? → r (us ++ rest') = .ok (a, rest')
  error : ∀ e, r ts = .error e → Fault r E pre ts e

/-- The reader, which goes on behind `pre` in a phrase, is punctual on all lists of
fewer than `n` tokens. -/
structure Punctual (n : Nat) (r : List Token → Except ParseError (α × List Token))
    (E : List Token → Prop) (pre : List Token) : Prop where
  opens : Opens E pre
  at_ : ∀ ts : List Token, ts.length < n → PunctualAt r E pre ts

/-! ## Single lists -/

namespace PunctualAt

variable {r s : List Token → Except ParseError (α × List Token)} {t : Token}
  {ts tail : List Token}

theorem nil (stops : s [] = .error .beyondEndOfFile) : PunctualAt s E pre [] where
  ok _ _ h := by cases stops.symm.trans h
  error _ h := by
    cases stops.symm.trans h
    exact .stop (lacks_nil _)

/-- A reader that leaves all tokens. -/
theorem rest {a : α} (same : ∀ us, us.head? = ts.head? → s us = .ok (a, us)) :
    PunctualAt s E pre ts where
  ok _ _ h := by
    cases (same ts rfl).symm.trans h
    exact ⟨[], rfl, lacks_nil _, same⟩
  error _ h := by cases (same ts rfl).symm.trans h

/-- A reader that takes the first token only. -/
theorem single {a : α} (inside : t.kind ≠ .endOfFile)
    (same : ∀ us, us.head? = tail.head? → s (t :: us) = .ok (a, us)) :
    PunctualAt s E pre (t :: tail) where
  ok _ _ h := by
    cases (same tail rfl).symm.trans h
    exact ⟨[t], rfl, by simpa using inside, same⟩
  error _ h := by cases (same tail rfl).symm.trans h

/-- A reader that refuses the first token. -/
theorem fail {e : ParseError} (about : e.About t) (opens : Opens E pre)
    (certain : ∀ us, t.kind = .endOfFile ∨ nextKind us = nextKind tail →
      s (t :: us) = .error e) : PunctualAt s E pre (t :: tail) where
  ok _ _ h := by cases (certain tail (.inr rfl)).symm.trans h
  error _ h := by
    cases (certain tail (.inr rfl)).symm.trans h
    exact .here about opens certain

/-- A reader that leaves the list to another one because of its first token. -/
theorem congr (same : ∀ us, s (t :: us) = r (t :: us)) (h : PunctualAt r E pre (t :: tail)) :
    PunctualAt s E pre (t :: tail) where
  ok a rest read := by
    obtain ⟨us, split, before, lasts⟩ := h.ok a rest ((same tail).symm.trans read)
    refine ⟨us, split, before, fun rest' heads => ?_⟩
    obtain ⟨us', head⟩ : ∃ us', us ++ rest' = t :: us' := by
      rw [← List.head?_eq_some_iff, List.head?_append, heads, ← List.head?_append, ← split,
        List.head?_cons]
    rw [head, same, ← head, lasts rest' heads]
  error e read := (h.error e ((same tail).symm.trans read)).congr same

/-- A reader that takes the first token and leaves the others to another one, perhaps
because of the second. -/
theorem step {f : List Token → Except ParseError (α × List Token)} (inside : t.kind ≠ .endOfFile)
    (same : ∀ us, us.head? = tail.head? → s (t :: us) = f us)
    (h : PunctualAt f E (pre ++ [t]) tail) : PunctualAt s E pre (t :: tail) where
  ok a rest read := by
    obtain ⟨us, rfl, before, lasts⟩ := h.ok a rest ((same tail rfl).symm.trans read)
    refine ⟨t :: us, rfl, lacks_cons.2 ⟨inside, before⟩, fun rest' heads => ?_⟩
    rw [List.cons_append, same _ (by rw [List.head?_append, heads, ← List.head?_append]),
      lasts rest' heads]
  error e read := by
    cases h.error e ((same tail rfl).symm.trans read) with
    | stop endless => exact .stop (lacks_cons.2 ⟨inside, endless⟩)
    | @token us rest _ _ about before opens certain =>
      rw [List.append_assoc, List.singleton_append] at opens
      rw [← List.cons_append]
      refine .token about (lacks_cons.2 ⟨inside, before⟩) opens fun rest' sees => ?_
      rw [List.cons_append, same _ (by simp [List.head?_append]), certain rest' sees]

end PunctualAt

/-! ## One reader after another -/

/-- The second reader fails, behind what the first one has read. -/
theorem Fault.behind {r : List Token → Except ParseError (α × List Token)}
    {f : α × List Token → Except ParseError γ} {us rest : List Token} {a : α} {e : ParseError}
    (before : Lacks .endOfFile us)
    (lasts : ∀ rest', rest'.head? = rest.head? → r (us ++ rest') = .ok (a, rest'))
    (h : Fault (fun rest => f (a, rest)) E (pre ++ us) rest e) :
    Fault (fun ts => r ts >>= f) E pre (us ++ rest) e := by
  cases h with
  | stop endless => exact .stop (lacks_append.2 ⟨before, endless⟩)
  | @token vs rest t _ about before' opens certain =>
    rw [List.append_assoc] at opens
    rw [← List.append_assoc]
    refine .token about (lacks_append.2 ⟨before, before'⟩) opens fun rest' sees => ?_
    have first := lasts (vs ++ t :: rest') (by simp only [List.head?_append, List.head?_cons])
    simp only [List.append_assoc, first, Except.ok_bind]
    exact certain rest' sees

/-- Either the first reader fails or the second one does. -/
theorem Fault.of_bind {r : List Token → Except ParseError (α × List Token)}
    {f : α × List Token → Except ParseError γ} {ts : List Token} {e : ParseError}
    (first : PunctualAt r E pre ts)
    (second : ∀ us a rest, ts = us ++ rest → r ts = .ok (a, rest) → f (a, rest) = .error e →
      Fault (fun rest => f (a, rest)) E (pre ++ us) rest e)
    (h : (r ts >>= f) = .error e) : Fault (fun ts => r ts >>= f) E pre ts e := by
  cases read : r ts with
  | error e' =>
    simp only [read] at h
    cases h
    exact (first.error e read).bind
  | ok result =>
    obtain ⟨a, rest⟩ := result
    obtain ⟨us, rfl, before, lasts⟩ := first.ok a rest read
    simp only [read, Except.ok_bind] at h
    exact .behind before lasts (second us a rest rfl read h)

theorem PunctualAt.bind {r : List Token → Except ParseError (α × List Token)}
    {f : α × List Token → Except ParseError (β × List Token)} {ts : List Token}
    (first : PunctualAt r E pre ts)
    (second : ∀ us a rest, ts = us ++ rest → r ts = .ok (a, rest) →
      PunctualAt (fun rest => f (a, rest)) E (pre ++ us) rest) :
    PunctualAt (fun ts => r ts >>= f) E pre ts where
  ok b rest both := by
    obtain ⟨⟨a, middle⟩, read, read'⟩ := Except.bind_eq_ok.1 both
    obtain ⟨us, rfl, before, lasts⟩ := first.ok a middle read
    obtain ⟨vs, rfl, before', lasts'⟩ := (second us a middle rfl read).ok b rest read'
    refine ⟨us ++ vs, by simp, lacks_append.2 ⟨before, before'⟩, fun rest' heads => ?_⟩
    have again := lasts (vs ++ rest') (by rw [List.head?_append, heads, ← List.head?_append])
    simp only [List.append_assoc, again, Except.ok_bind]
    exact lasts' rest' heads
  error e both :=
    .of_bind first (fun us a rest split read => (second us a rest split read).error e) both

namespace Punctual

variable {n m : Nat} {r : List Token → Except ParseError (α × List Token)}
  {D : List Token → α → Prop}

theorem le (h : Punctual n r E pre) (le : m ≤ n) : Punctual m r E pre :=
  ⟨h.opens, fun ts short => h.at_ ts (by omega)⟩

theorem zero (opens : Opens E pre) : Punctual 0 r E pre :=
  ⟨opens, fun _ short => absurd short (Nat.not_lt_zero _)⟩

/-- A phrase inside another one, behind which that can be completed. -/
theorem within {F : List Token → Prop} {pre' : List Token} (h : Punctual n r E pre)
    (opens : ∀ us, E (pre ++ us) → Opens F (pre' ++ us)) : Punctual n r F pre' where
  opens := by
    obtain ⟨us, word⟩ := h.opens
    exact (opens us word).before
  at_ ts short := by
    have here := h.at_ ts short
    exact ⟨here.ok, fun e read => (here.error e read).imp opens⟩

theorem bind {f : α × List Token → Except ParseError (β × List Token)}
    (first : Punctual n r (Spells D) [])
    (sound : Splits r D)
    (second : ∀ us a, D us a → Punctual (n - us.length) (fun rest => f (a, rest)) E (pre ++ us)) :
    Punctual n (fun ts => r ts >>= f) E pre := by
  have begins : Punctual n r E pre := first.within fun us ⟨a, d⟩ => (second us a d).opens
  refine ⟨begins.opens, fun ts short => (begins.at_ ts short).bind ?_⟩
  rintro us a rest rfl read
  obtain ⟨us', split, d⟩ := sound _ _ _ read
  obtain rfl := List.append_cancel_right split
  refine (second us a d).at_ rest ?_
  rw [List.length_append] at short
  omega

/-- A reader that takes no token. -/
theorem pure {a : α} (h : E pre) : Punctual n (fun ts => Pure.pure (a, ts)) E pre :=
  ⟨.of h, fun _ _ => .rest fun _ _ => rfl⟩

/-- A reader whose tree is made from that of another one. -/
theorem map (h : Punctual n r E pre) (g : α → β) :
    Punctual n (fun ts => r ts >>= fun p => Pure.pure (g p.1, p.2)) E pre :=
  ⟨h.opens, fun ts short =>
    (h.at_ ts short).bind fun _ a _ _ _ => .rest (a := g a) fun _ _ => rfl⟩

/-- A reader that goes on behind a token of one kind, and leaves all others to another
reader. -/
theorem choice {s : List Token → Except ParseError (α × List Token)}
    {f : Token → List Token → Except ParseError (α × List Token)} {kind : TokenKind}
    (inside : kind ≠ .endOfFile) (stops : s [] = .error .beyondEndOfFile)
    (same : ∀ t us, s (t :: us) = if t.kind = kind then f t us else r (t :: us))
    (yes : ∀ t, t.kind = kind → Punctual (n - 1) (f t) E (pre ++ [t])) (no : Punctual n r E pre) :
    Punctual n s E pre := by
  refine ⟨no.opens, fun ts short => ?_⟩
  cases ts with
  | nil => exact .nil stops
  | cons t ts =>
    by_cases here : t.kind = kind
    · refine .step (here ▸ inside) (fun us _ => (same t us).trans (if_pos here)) ?_
      refine (yes t here).at_ ts ?_
      rw [List.length_cons] at short
      omega
    · exact .congr (fun us => (same t us).trans (if_neg here)) (no.at_ (t :: ts) short)

theorem noted {r : List Token → Except ParseError (Stmt × List Token)} (h : Punctual n r E pre) :
    Punctual n (fun ts => Stmt.noted (r ts)) E pre :=
  h.map some

end Punctual
end

def IsToken (kind : TokenKind) (ts : List Token) (t : Token) : Prop :=
  ts = [t] ∧ t.kind = kind

theorem scanToken_splits (kind : TokenKind) : Splits (scanToken kind) (IsToken kind) := by
  intro ts t rest h
  obtain ⟨rfl, same⟩ := scanToken_ok.1 h
  exact ⟨[t], rfl, rfl, same⟩

theorem scanToken_punctual {kind : TokenKind} (inside : kind ≠ .endOfFile) (n : Nat) :
    Punctual n (scanToken kind) (Spells (IsToken kind)) [] := by
  have opens : Opens (Spells (IsToken kind)) [] := ⟨[⟨kind, "", 0⟩], _, rfl, rfl⟩
  refine ⟨opens, fun ts _ => ?_⟩
  cases ts with
  | nil => exact .nil rfl
  | cons t ts =>
    by_cases same : t.kind = kind
    · exact .single (same ▸ inside) fun us _ => scanToken_of same us
    · refine .fail (e := .expectedToken t.line kind t.found) ⟨rfl, rfl⟩ opens fun us _ => ?_
      rw [scanToken_cons, if_neg same]

/-- A token of a kind, and a reader behind it. -/
theorem Punctual.token {α : Type} {n : Nat} {E : List Token → Prop} {pre : List Token}
    {kind : TokenKind} {f : Token × List Token → Except ParseError (α × List Token)}
    (inside : kind ≠ .endOfFile)
    (second : ∀ t, t.kind = kind → Punctual (n - 1) (fun rest => f (t, rest)) E (pre ++ [t])) :
    Punctual n (fun ts => scanToken kind ts >>= f) E pre := by
  refine (scanToken_punctual inside n).bind (scanToken_splits kind) ?_
  rintro _ t ⟨rfl, same⟩
  exact second t same

end Betik
