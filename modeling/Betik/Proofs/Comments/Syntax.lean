/-
What the parser makes of a program without its comments.
-/
import Betik.Proofs.Comments.Tree
import Betik.Proofs.Syntax.Alternatives

namespace Betik

@[simp] theorem withoutComments_nil : withoutComments [] = [] := rfl

theorem withoutComments_comment {t : Token} (h : t.kind = .comment) (ts : List Token) :
    withoutComments (t :: ts) = withoutComments ts := by
  simp [withoutComments, h]

@[simp] theorem withoutComments_cons {t : Token} (h : t.kind ≠ .comment) (ts : List Token) :
    withoutComments (t :: ts) = t :: withoutComments ts := by
  simp [withoutComments, h]

@[simp] theorem withoutComments_append (us vs : List Token) :
    withoutComments (us ++ vs) = withoutComments us ++ withoutComments vs :=
  List.filter_append _ _

theorem withoutComments_of_lacks {ts : List Token} (h : Lacks .comment ts) :
    withoutComments ts = ts := by
  simpa [withoutComments, Lacks] using h

namespace Stmt

/-- An alternative that is found behind comments is next when they are gone. -/
theorem nextIs_withoutComments (ts : List Token) :
    nextIs (.keyword .otherwise) (Betik.withoutComments ts) =
      Lookahead.pastComments.findsAlternative ts := by
  induction ts with
  | nil => rfl
  | cons t ts ih =>
    by_cases h : t.kind = .comment
    · rw [withoutComments_comment h, ih]
      simp [Lookahead.findsAlternative, h]
    · simp [Lookahead.findsAlternative, h, nextIs]

/-- Comments do not decide which alternatives belong to a statement. -/
theorem takesAlternative_withoutComments : ∀ s : Stmt,
    s.withoutComments.takesAlternative = s.takesAlternative
  | cond _ _ _ none => rfl
  | cond _ _ _ (some no) => by
    simpa [withoutComments, takesAlternative] using no.takesAlternative_withoutComments
  | declare .. | print .. | loop .. | function .. | ret .. | block .. | expr .. | comment .. => rfl

/-- The stripped tokens spell the stripped tree.  Of a comment nothing is left. -/
def Phrase.Stripped (look : Lookahead) : Phrase → List Token → Prop
  | one s, ts =>
    if s.isComment then Betik.withoutComments ts = []
    else Derives look (Betik.withoutComments ts) (.one s.withoutComments)
  | cond s, ts => Derives look (Betik.withoutComments ts) (.cond s.withoutComments)
  | branch s, ts => Derives look (Betik.withoutComments ts) (.branch s.withoutComments)
  | block s, ts => Derives look (Betik.withoutComments ts) (.block s.withoutComments)
  | body ss, ts => Derives look (Betik.withoutComments ts) (.body (dropComments ss))
  | many ss, ts => Derives look (Betik.withoutComments ts) (.many (dropComments ss))

theorem withoutComments_expr {ts : List Token} {phrase : Expr.Phrase} (d : Expr.Derives ts phrase) :
    Betik.withoutComments ts = ts :=
  withoutComments_of_lacks (d.lacks (.inl rfl))

theorem Derives.cond_not_comment {look : Lookahead} {ts : List Token} {s : Stmt}
    (d : Derives look ts (.cond s)) : ¬s.isComment := by
  cases d <;> simp [isComment]

theorem Derives.branch_not_comment {look : Lookahead} {ts : List Token} {s : Stmt}
    (d : Derives look ts (.branch s)) : ¬s.isComment := by
  cases d with
  | branchCond cond => exact cond.cond_not_comment
  | branchBlock block =>
    cases block
    simp [isComment]

theorem Phrase.Stripped.leaf {look : Lookahead} {ts : List Token} {s : Stmt}
    (d : Derives look ts (.one s)) (lacks : Lacks .comment ts) (other : ¬s.isComment)
    (same : s.withoutComments = s) : (one s).Stripped look ts := by
  rw [Phrase.Stripped, if_neg other, withoutComments_of_lacks lacks, same]
  exact d

/-- Comments can be taken out as long as no alternative is found in front of what is
left that was not found before. -/
theorem Derives.strip {look look' : Lookahead} {ts : List Token} {phrase : Phrase}
    (d : Derives look ts phrase) (found : ∀ us, look'.findsAlternative (Betik.withoutComments us) →
      look.findsAlternative us) : phrase.Stripped look' ts := by
  induction d with
  | declare kind named colon typeWord equals value ends =>
    exact .leaf (.declare kind named colon typeWord equals value ends)
      (by simp [kind, named, colon, typeWord, equals, value.lacks, ends]) (by simp [isComment]) rfl
  | assign kind sign value ends =>
    exact .leaf (.assign kind sign value ends) (by simp [kind, sign, value.lacks, ends])
      (by simp [isComment]) rfl
  | call kind arguments =>
    exact .leaf (.call kind arguments) (by simp [kind, arguments.lacks]) (by simp [isComment]) rfl
  | callEnded kind arguments ends =>
    exact .leaf (.callEnded kind arguments ends) (by simp [kind, arguments.lacks, ends])
      (by simp [isComment]) rfl
  | print kind value ends =>
    exact .leaf (.print kind value ends) (by simp [kind, value.lacks, ends])
      (by simp [isComment]) rfl
  | ret kind value ends =>
    exact .leaf (.ret kind value ends) (by simp [kind, value.lacks, ends])
      (by simp [isComment]) rfl
  | loop kind condition _ ih =>
    simpa [Phrase.Stripped, isComment, withoutComments, kind, withoutComments_expr condition]
      using Derives.loop kind condition ih
  | condition cond ih => simpa [Phrase.Stripped, cond.cond_not_comment] using .condition ih
  | dangling kind branch ih =>
    simpa [Phrase.Stripped, branch.branch_not_comment, kind] using .dangling kind ih
  | @function _ _ ps _ _ _ kind named params _ ih =>
    have same : Betik.withoutComments ps = ps := withoutComments_of_lacks (params.lacks (.inl rfl))
    simpa [Phrase.Stripped, isComment, withoutComments, kind, named, same]
      using Derives.function kind named params ih
  | comment kind => simp [Phrase.Stripped, isComment, withoutComments_comment kind]
  | withoutAlternative kind condition _ ih =>
    simpa [Phrase.Stripped, withoutComments, kind, withoutComments_expr condition]
      using Derives.withoutAlternative kind condition ih
  | withAlternative kind condition _ word _ ihb ihn =>
    simpa [Phrase.Stripped, withoutComments, kind, word, withoutComments_expr condition]
      using Derives.withAlternative kind condition ihb word ihn
  | branchCond _ ih => exact .branchCond ih
  | branchBlock _ ih => exact .branchBlock ih
  | block body ih =>
    obtain ⟨t, tail, eq, left⟩ := body.body_head
    cases eq
    simp only [Phrase.Stripped] at ih
    rw [withoutComments_cons (by simp [left])] at ih
    simpa [Phrase.Stripped, withoutComments, left] using Derives.block ih
  | body left _ right ih =>
    simpa [Phrase.Stripped, left, right] using Derives.body left ih right
  | nil => exact .nil
  | empty kind _ ih => simpa [Phrase.Stripped, kind] using Derives.empty kind ih
  | @cons us vs s ss _ _ apart ihf ihr =>
    by_cases comment : s.isComment
    · have gone : Betik.withoutComments us = [] := by simpa [Phrase.Stripped, comment] using ihf
      simpa [Phrase.Stripped, gone, dropComments_comment comment] using ihr
    · have first : Derives look' (Betik.withoutComments us) (.one s.withoutComments) := by
        simpa [Phrase.Stripped, comment] using ihf
      have apart' : look'.Apart s.withoutComments (Betik.withoutComments vs) := by
        intro takes next
        rw [takesAlternative_withoutComments] at takes
        exact apart takes (found vs next)
      simpa [Phrase.Stripped, dropComments_cons comment] using Derives.cons first ihr apart'

theorem Derives.strip_inert {ts : List Token} {phrase : Phrase}
    (d : Derives .pastComments ts phrase) : phrase.Stripped .direct ts :=
  d.strip fun us found => nextIs_withoutComments us ▸ found

/-! The converse: where a comment keeps an alternative from its condition, taking the
comment out changes the tree. -/

/-- Reading the tokens of the phrase with others behind them gives no such tree. -/
def Phrase.Misread : Phrase → List Token → List Token → Prop
  | one s, ts, rest => ∀ s' rest', scanOne (ts ++ rest) = .ok (s', rest') →
    ∃ x, s' = some x ∧ x ≠ s
  | cond s, ts, rest | branch s, ts, rest => ∀ s' rest',
    scanBranch (ts ++ rest) = .ok (s', rest') → s' ≠ s
  | block s, ts, rest => ∀ s' rest', scanBlock (ts ++ rest) = .ok (s', rest') → s' ≠ s
  | body ss, ts, rest => ∀ ss' rest', scanBody (ts ++ rest) = .ok (ss', rest') → ss' ≠ ss
  | many ss, ts, rest =>
    (∀ ss' rest', scanMany (ts ++ rest) = .ok (ss', rest') → ss' ≠ ss) ∧
      ∀ ss', readStatements (ts ++ rest) = .ok ss' → ss' ≠ ss

theorem Phrase.Misread.condition {t : Token} {ts rest : List Token} {s : Stmt}
    (kind : t.kind = .keyword .cond) (h : (cond s).Misread (t :: ts) rest) :
    (one s).Misread (t :: ts) rest := by
  intro s' rest' read
  simp only [List.cons_append, scanOne_cons, kind, noted_ok] at read
  obtain ⟨x, rfl, read⟩ := read
  refine ⟨x, rfl, h x rest' ?_⟩
  rw [List.cons_append, scanBranch_cons, if_pos kind]
  exact read

theorem Phrase.Misread.dangling {t : Token} {ts rest : List Token} {s : Stmt}
    (kind : t.kind = .keyword .otherwise) (h : (branch s).Misread ts rest) :
    (one s).Misread (t :: ts) rest := by
  intro s' rest' read
  simp only [List.cons_append, scanOne_cons, kind, noted_ok] at read
  obtain ⟨x, rfl, read⟩ := read
  exact ⟨x, rfl, h x rest' read⟩

/-- A statement that takes an alternative does so when one is next. -/
theorem Derives.takes {ts : List Token} {phrase : Phrase} (d : Derives .direct ts phrase)
    {next : Token} (word : next.kind = .keyword .otherwise) (rest : List Token) :
    match phrase with
    | .one s | .cond s | .branch s => s.takesAlternative → phrase.Misread ts (next :: rest)
    | _ => True := by
  induction d with
  | declare | assign | call | callEnded | print | ret | loop | function | comment =>
    exact fun takes => by cases takes
  | block | body | nil | empty | cons => trivial
  | condition cond ih =>
    intro takes
    obtain ⟨t, tail, rfl, kind⟩ := cond.cond_head
    exact .condition kind (ih takes)
  | dangling kind _ ih => exact fun takes => .dangling kind (ih takes)
  | branchCond _ ih => exact ih
  | branchBlock block =>
    cases block
    exact fun takes => by cases takes
  | withoutAlternative kind condition block =>
    intro _ s' rest' read
    rw [List.cons_append, List.append_assoc, scanBranch_cons, if_pos kind, scanCond_eq,
      scanParenthesized_of condition] at read
    simp only [Except.ok_bind] at read
    rw [block.read] at read
    simp only [Except.ok_bind, if_pos word, Except.bind_eq_ok, Prod.exists] at read
    obtain ⟨no, vs, _, h⟩ := read
    cases h
    simp
  | withAlternative kind condition block here branch _ ih =>
    intro takes s' rest' read
    rw [List.cons_append, List.append_assoc, List.append_assoc, scanBranch_cons, if_pos kind,
      scanCond_eq, scanParenthesized_of condition] at read
    simp only [Except.ok_bind] at read
    rw [block.read] at read
    simp only [Except.ok_bind, List.cons_append, if_pos here, Except.bind_eq_ok,
      Prod.exists] at read
    obtain ⟨no, vs, alternative, h⟩ := read
    cases h
    simpa using ih takes no _ alternative

/-- The stripped tokens never spell the stripped tree. -/
def Phrase.Spoiled : Phrase → List Token → Prop
  | one s, ts => ¬s.isComment ∧
    ∀ rest, (one s.withoutComments).Misread (Betik.withoutComments ts) rest
  | cond s, ts => ∀ rest, (cond s.withoutComments).Misread (Betik.withoutComments ts) rest
  | branch s, ts => ∀ rest, (branch s.withoutComments).Misread (Betik.withoutComments ts) rest
  | block s, ts => ∀ rest, (block s.withoutComments).Misread (Betik.withoutComments ts) rest
  | body ss, ts => ∀ rest, (body (dropComments ss)).Misread (Betik.withoutComments ts) rest
  | many ss, ts => ∀ (r : Token) rest, r.kind = .mark .rightBrace ∨ r.kind = .endOfFile →
    (many (dropComments ss)).Misread (Betik.withoutComments ts) (r :: rest)

/-- A block that is misread spoils the condition it belongs to. -/
theorem Phrase.Misread.block {line : Nat} {ts us : List Token} {e : Expr} {yes s : Stmt}
    (condition : Expr.Derives ts (.enclosed e)) {rest rest' : List Token}
    (h : (block yes).Misread us rest)
    (read : scanCond line (ts ++ (us ++ rest)) = .ok (s, rest')) (no : Option Stmt) :
    s ≠ .cond line e yes no := by
  rw [scanCond_eq, scanParenthesized_of condition] at read
  simp only [Except.ok_bind, Except.bind_eq_ok, Prod.exists] at read
  obtain ⟨yes', vs, block, read⟩ := read
  have other := h yes' vs block
  split at read
  · cases read
  · split at read
    · simp only [Except.bind_eq_ok, Prod.exists] at read
      obtain ⟨_, _, _, eq⟩ := read
      cases eq
      simp [other]
    · cases read
      simp [other]

/-- A first statement that is misread spoils the sequence. -/
theorem Phrase.Misread.cons {t : Token} {us vs : List Token} {s : Stmt}
    (notBrace : t.kind ≠ .mark .rightBrace) (notEnd : t.kind ≠ .endOfFile)
    (h : (one s).Misread (t :: us) vs) (ss : List Stmt) :
    (many (s :: ss)).Misread (t :: us) vs := by
  constructor
  · intro ss' rest' read
    rw [List.cons_append, scanMany_cons, if_neg notBrace, if_neg notEnd] at read
    simp only [Except.bind_eq_ok, Prod.exists] at read
    obtain ⟨s', ws, one, others, xs, _, eq⟩ := read
    obtain ⟨x, rfl, other⟩ := h s' ws one
    cases eq
    simp [other]
  · intro ss' read
    rw [List.cons_append, readStatements_cons, if_neg notEnd, if_neg notBrace] at read
    simp only [Except.bind_eq_ok, Prod.exists] at read
    obtain ⟨s', ws, one, others, _, eq⟩ := read
    obtain ⟨x, rfl, other⟩ := h s' ws one
    cases eq
    simp [other]

/-- So do the others, if the first is read as it is meant. -/
theorem Phrase.Misread.others {us vs : List Token} {s : Stmt} {ss : List Stmt}
    (first : Derives .direct us (.one s)) (apart : Lookahead.direct.Apart s vs) {r : Token}
    (closes : r.kind = .mark .rightBrace ∨ r.kind = .endOfFile) {rest : List Token}
    (h : (many ss).Misread vs (r :: rest)) : (many (s :: ss)).Misread us (vs ++ r :: rest) := by
  have kind : r.kind ≠ .keyword .otherwise := by
    obtain h | h := closes <;> simp [h]
  obtain ⟨t, tail, rfl, notBrace, notEnd⟩ := first.head
  obtain ⟨rest', one, dropped⟩ := first.read (vs ++ r :: rest) (by simp) (apart.append kind rest)
  rw [List.cons_append] at one
  constructor
  · intro ss' ws read
    rw [List.cons_append, scanMany_cons, if_neg notBrace, if_neg notEnd, one] at read
    simp only [Except.ok_bind, dropped.scanMany, Except.bind_eq_ok, Prod.exists] at read
    obtain ⟨xs, _, others, eq⟩ := read
    cases eq
    simpa using h.1 xs _ others
  · intro ss' read
    rw [List.cons_append, readStatements_cons, if_neg notEnd, if_neg notBrace, one] at read
    simp only [Except.ok_bind, dropped.readStatements, Except.bind_eq_ok] at read
    obtain ⟨xs, others, eq⟩ := read
    cases eq
    simpa using h.2 xs others

theorem Phrase.Misread.append {us vs rest : List Token} {ss : List Stmt}
    (h : (many ss).Misread us (vs ++ rest)) : (many ss).Misread (us ++ vs) rest := by
  simpa [Phrase.Misread] using h

/-- Only a comment begins with one. -/
theorem Derives.comment_head {look : Lookahead} {ts : List Token} {s : Stmt}
    (d : Derives look ts (.one s)) (other : ¬s.isComment) :
    ∃ t tail, ts = t :: tail ∧ t.kind ≠ .comment := by
  cases d with
  | condition cond =>
    obtain ⟨t, tail, rfl, kind⟩ := cond.cond_head
    exact ⟨t, tail, rfl, by simp [kind]⟩
  | comment => exact absurd rfl other
  | declare kind | assign kind | call kind | callEnded kind | print kind | loop kind
  | dangling kind | function kind | ret kind =>
    exact ⟨_, _, rfl, by simp [kind]⟩

theorem isComment_not_takes {s : Stmt} (h : s.isComment) : ¬s.takesAlternative := by
  cases s <;> simp_all [isComment, takesAlternative]

/-! One lemma for each rule of the grammar: what spoils a part spoils the whole. -/

theorem Phrase.Spoiled.loop {t : Token} {ts us : List Token} {e : Expr} {s : Stmt}
    (kind : t.kind = .keyword .loop) (condition : Expr.Derives ts (.enclosed e))
    (h : (block s).Spoiled us) : (one (.loop t.line e s)).Spoiled (t :: (ts ++ us)) := by
  refine ⟨by simp [isComment], fun rest s' rest' read => ?_⟩
  rw [withoutComments_cons (by simp [kind]), withoutComments_append,
    withoutComments_expr condition, List.cons_append, List.append_assoc, scanOne_cons,
    kind] at read
  simp only [scanParenthesized_of condition, Except.ok_bind, Except.bind_eq_ok,
    Prod.exists] at read
  obtain ⟨body, vs, block, eq⟩ := read
  cases eq
  simpa [withoutComments] using h rest body _ block

theorem Phrase.Spoiled.condition {ts : List Token} {s : Stmt}
    (d : Derives .direct ts (.cond s)) (h : (cond s).Spoiled ts) : (one s).Spoiled ts := by
  refine ⟨d.cond_not_comment, fun rest => ?_⟩
  obtain ⟨t, tail, rfl, kind⟩ := d.cond_head
  have misread := h rest
  rw [withoutComments_cons (by simp [kind])] at misread ⊢
  exact .condition kind misread

theorem Phrase.Spoiled.dangling {t : Token} {ts : List Token} {s : Stmt}
    (kind : t.kind = .keyword .otherwise) (d : Derives .direct ts (.branch s))
    (h : (branch s).Spoiled ts) : (one s).Spoiled (t :: ts) := by
  refine ⟨d.branch_not_comment, fun rest => ?_⟩
  rw [withoutComments_cons (by simp [kind])]
  exact .dangling kind (h rest)

theorem Phrase.Spoiled.function {t name : Token} {ps ts : List Token} {names : List String}
    {ss : List Stmt} (kind : t.kind = .keyword .function) (named : name.kind = .name)
    (params : DerivesParams ps names) (h : (body ss).Spoiled ts) :
    (one (.function t.line name.lexeme names ss)).Spoiled (t :: name :: (ps ++ ts)) := by
  refine ⟨by simp [isComment], fun rest s' rest' read => ?_⟩
  rw [withoutComments_cons (by simp [kind]), withoutComments_cons (by simp [named]),
    withoutComments_append, withoutComments_of_lacks (params.lacks (.inl rfl)), List.cons_append,
    List.cons_append, List.append_assoc, scanOne_cons, kind] at read
  simp only [scanToken_of named, params.read, Except.ok_bind, Except.bind_eq_ok,
    Prod.exists] at read
  obtain ⟨body, vs, braces, eq⟩ := read
  cases eq
  simpa [withoutComments] using h rest body _ braces

theorem Phrase.Spoiled.withoutAlternative {t : Token} {ts us : List Token} {e : Expr} {yes : Stmt}
    (kind : t.kind = .keyword .cond) (condition : Expr.Derives ts (.enclosed e))
    (h : (block yes).Spoiled us) : (cond (.cond t.line e yes none)).Spoiled (t :: (ts ++ us)) := by
  intro rest s' rest' read
  rw [withoutComments_cons (by simp [kind]), withoutComments_append,
    withoutComments_expr condition, List.cons_append, List.append_assoc, scanBranch_cons,
    if_pos kind] at read
  exact (h rest).block condition read none

section

variable {t otherwise : Token} {ts us vs : List Token} {e : Expr} {yes no : Stmt}
  (kind : t.kind = .keyword .cond) (condition : Expr.Derives ts (.enclosed e))
  (word : otherwise.kind = .keyword .otherwise)

include kind condition

theorem Phrase.Spoiled.withAlternative (h : (block yes).Spoiled us) :
    (cond (.cond t.line e yes (some no))).Spoiled (t :: (ts ++ (us ++ otherwise :: vs))) := by
  intro rest s' rest' read
  rw [withoutComments_cons (by simp [kind]), withoutComments_append, withoutComments_append,
    withoutComments_expr condition, List.cons_append, List.append_assoc, List.append_assoc,
    scanBranch_cons, if_pos kind] at read
  exact (h _).block condition read _

include word

theorem Phrase.Spoiled.alternative (d : Derives .pastComments us (.block yes))
    (h : (branch no).Spoiled vs) :
    (cond (.cond t.line e yes (some no))).Spoiled (t :: (ts ++ (us ++ otherwise :: vs))) := by
  intro rest s' rest' read
  rw [withoutComments_cons (by simp [kind]), withoutComments_append, withoutComments_append,
    withoutComments_cons (by simp [word]), withoutComments_expr condition, List.cons_append,
    List.append_assoc, List.append_assoc, scanBranch_cons, if_pos kind, scanCond_eq,
    scanParenthesized_of condition] at read
  simp only [Except.ok_bind] at read
  rw [d.strip_inert.read] at read
  simp only [Except.ok_bind, List.cons_append, if_pos word, Except.bind_eq_ok,
    Prod.exists] at read
  obtain ⟨no', _, branch, eq⟩ := read
  cases eq
  simpa [withoutComments] using h rest no' _ branch

end

theorem Phrase.Spoiled.branchBlock {ts : List Token} {s : Stmt}
    (d : Derives .direct ts (.block s)) (h : (block s).Spoiled ts) : (branch s).Spoiled ts := by
  intro rest s' rest' read
  cases d with
  | block body =>
    obtain ⟨t, tail, eq, left⟩ := body.body_head
    cases eq
    have misread := h rest s' rest'
    rw [withoutComments_cons (by simp [left])] at misread read
    rw [List.cons_append, scanBranch_cons, if_neg (by simp [left])] at read
    exact misread read

theorem Phrase.Spoiled.block {t : Token} {ts : List Token} {ss : List Stmt}
    (d : Derives .direct (t :: ts) (.body ss)) (h : (body ss).Spoiled (t :: ts)) :
    (Phrase.block (.block t.line ss)).Spoiled (t :: ts) := by
  intro rest s' rest' read
  obtain ⟨t, tail, eq, left⟩ := d.body_head
  cases eq
  have misread := h rest
  rw [withoutComments_cons (by simp [left])] at misread read
  simp only [List.cons_append, scanBlock_cons, Except.bind_eq_ok, Prod.exists] at read
  obtain ⟨ss, vs, braces, eq⟩ := read
  cases eq
  simpa [withoutComments] using misread ss _ braces

theorem Phrase.Spoiled.body {l r : Token} {ts : List Token} {ss : List Stmt}
    (left : l.kind = .mark .leftBrace) (right : r.kind = .mark .rightBrace)
    (h : (many ss).Spoiled ts) : (Phrase.body ss).Spoiled (l :: (ts ++ [r])) := by
  intro rest ss' rest' read
  rw [withoutComments_cons (by simp [left]), withoutComments_append,
    withoutComments_cons (by simp [right]), withoutComments_nil, List.cons_append,
    List.append_assoc, scanBody_eq, scanToken_of left] at read
  exact (h _ rest (.inl right)).1 ss' rest' read

theorem Phrase.Spoiled.empty {t : Token} {ts : List Token} {ss : List Stmt}
    (kind : t.kind = .mark .dollar) (h : (many ss).Spoiled ts) : (many ss).Spoiled (t :: ts) := by
  intro r rest closes
  have misread := h r rest closes
  rw [withoutComments_cons (by simp [kind])]
  constructor
  · intro ss' rest' read
    rw [List.cons_append, scanMany_empty kind] at read
    exact misread.1 ss' rest' read
  · intro ss' read
    rw [List.cons_append, readStatements_empty kind] at read
    exact misread.2 ss' read

/-- A comment leaves nothing, so what is left of the sequence is what is left of the
others. -/
theorem Phrase.Spoiled.comment {us vs : List Token} {s : Stmt} {ss : List Stmt}
    (d : Derives .pastComments us (.one s)) (comment : s.isComment) (h : (many ss).Spoiled vs) :
    (many (s :: ss)).Spoiled (us ++ vs) := by
  have gone : Betik.withoutComments us = [] := by
    simpa [Phrase.Stripped, comment] using d.strip_inert
  intro r rest closes
  rw [withoutComments_append, gone, dropComments_comment comment]
  exact h r rest closes

section

variable {us vs : List Token} {s : Stmt} {ss : List Stmt} (d : Derives .direct us (.one s))
  (other : ¬s.isComment)

include d other

theorem Phrase.Spoiled.of_misread
    (h : ∀ rest, (one s.withoutComments).Misread (Betik.withoutComments us)
      (Betik.withoutComments vs ++ rest)) : (many (s :: ss)).Spoiled (us ++ vs) := by
  obtain ⟨t, tail, rfl, kind⟩ := d.comment_head other
  obtain ⟨t, tail, eq, notBrace, notEnd⟩ := d.head
  cases eq
  intro r rest _
  have misread := h (r :: rest)
  rw [withoutComments_cons kind] at misread
  rw [withoutComments_append, withoutComments_cons kind, dropComments_cons other]
  exact (misread.cons notBrace notEnd _).append

theorem Phrase.Spoiled.first (h : (one s).Spoiled us) : (many (s :: ss)).Spoiled (us ++ vs) :=
  .of_misread d other fun _ => h.2 _

end

section

variable {us vs : List Token} {s : Stmt} {ss : List Stmt} (d : Derives .pastComments us (.one s))
  (other : ¬s.isComment)

include d other

theorem Derives.strip_one :
    Derives .direct (Betik.withoutComments us) (.one s.withoutComments) := by
  simpa [Phrase.Stripped, other] using d.strip_inert

theorem Phrase.Spoiled.others (apart : Lookahead.pastComments.Apart s vs)
    (h : (many ss).Spoiled vs) : (many (s :: ss)).Spoiled (us ++ vs) := by
  intro r rest closes
  rw [withoutComments_append, dropComments_cons other]
  have apart' : Lookahead.direct.Apart s.withoutComments (Betik.withoutComments vs) := by
    intro takes found
    rw [takesAlternative_withoutComments] at takes
    exact apart takes (nextIs_withoutComments vs ▸ found)
  exact .append (.others (d.strip_one other) apart' closes (h r rest closes))

end

/-- An alternative behind comments goes to the statement in front of them. -/
theorem Phrase.Spoiled.claimed {us vs : List Token} {s : Stmt} {ss : List Stmt}
    (d : Derives .direct us (.one s)) (clean : Derives .pastComments us (.one s))
    (other : ¬s.isComment) (apart : ¬Lookahead.pastComments.Apart s vs) :
    (many (s :: ss)).Spoiled (us ++ vs) := by
  simp only [Lookahead.Apart, Classical.not_imp, Classical.not_not] at apart
  obtain ⟨takes, found⟩ := apart
  rw [← takesAlternative_withoutComments] at takes
  rw [← nextIs_withoutComments] at found
  refine .of_misread d other fun rest => ?_
  cases others : Betik.withoutComments vs with
  | nil => simp [others, nextIs] at found
  | cons next tail =>
    have word : next.kind = .keyword .otherwise := by simpa [others, nextIs] using found
    exact (clean.strip_one other).takes word (tail ++ rest) takes

/-- Either the comments in the tokens of a phrase are inert or the phrase is spoiled
without them. -/
theorem Derives.inert_or_spoiled {ts : List Token} {phrase : Phrase}
    (d : Derives .direct ts phrase) : Derives .pastComments ts phrase ∨ phrase.Spoiled ts := by
  induction d with
  | declare kind named colon typeWord equals value ends =>
    exact .inl (.declare kind named colon typeWord equals value ends)
  | assign kind sign value ends => exact .inl (.assign kind sign value ends)
  | call kind arguments => exact .inl (.call kind arguments)
  | callEnded kind arguments ends => exact .inl (.callEnded kind arguments ends)
  | print kind value ends => exact .inl (.print kind value ends)
  | ret kind value ends => exact .inl (.ret kind value ends)
  | comment kind => exact .inl (.comment kind)
  | nil => exact .inl .nil
  | loop kind condition _ ih => exact ih.imp (.loop kind condition) (.loop kind condition)
  | condition cond ih => exact ih.imp .condition (.condition cond)
  | dangling kind branch ih => exact ih.imp (.dangling kind) (.dangling kind branch)
  | function kind named params _ ih =>
    exact ih.imp (.function kind named params) (.function kind named params)
  | withoutAlternative kind condition _ ih =>
    exact ih.imp (.withoutAlternative kind condition) (.withoutAlternative kind condition)
  | withAlternative kind condition _ word _ ihb ihn =>
    obtain clean | spoiled := ihb
    · exact ihn.imp (.withAlternative kind condition clean word)
        (.alternative kind condition word clean)
    · exact .inr (.withAlternative kind condition spoiled)
  | branchCond _ ih => exact ih.imp .branchCond id
  | branchBlock block ih => exact ih.imp .branchBlock (.branchBlock block)
  | block body ih => exact ih.imp .block (.block body)
  | body left _ right ih => exact ih.imp (fun clean => .body left clean right) (.body left right)
  | empty kind _ ih => exact ih.imp (.empty kind) (.empty kind)
  | @cons us vs s ss first _ _ ihf ihr =>
    by_cases comment : s.isComment
    · have clean : Derives .pastComments us (.one s) :=
        ihf.resolve_right fun spoiled => spoiled.1 comment
      have apart : Lookahead.pastComments.Apart s vs :=
        fun takes => absurd takes (isComment_not_takes comment)
      exact ihr.imp (fun others => .cons clean others apart) (.comment clean comment)
    · obtain clean | spoiled := ihf
      · by_cases apart : Lookahead.pastComments.Apart s vs
        · exact ihr.imp (fun others => .cons clean others apart) (.others clean comment apart)
        · exact .inr (.claimed first clean comment apart)
      · exact .inr (.first first comment spoiled)

end Stmt

def beforeEnd (ts : List Token) : List Token :=
  ts.takeWhile (·.kind ≠ .endOfFile)

theorem beforeEnd_append {ts : List Token} (before : Lacks .endOfFile ts) {eof : Token}
    (ends : eof.kind = .endOfFile) (rest : List Token) : beforeEnd (ts ++ eof :: rest) = ts := by
  have before : ∀ t ∈ ts, decide (t.kind ≠ .endOfFile) := by simpa [Lacks] using before
  rw [beforeEnd, List.takeWhile_append_of_pos before, List.takeWhile_cons_of_neg (by simp [ends]),
    List.append_nil]

/-- Without its comments a program is read as some program. -/
theorem parse_withoutComments_accepts {ts : List Token} {p : Program}
    (accepted : parse ts = .ok p) : ∃ q, parse (withoutComments ts) = .ok q := by
  obtain ⟨us, eof, rest, rfl, ends, d⟩ := readStatements_sound (parse_ok.1 accepted)
  have ambiguous : Stmt.Derives .never (withoutComments us) (.many p.withoutComments.statements) :=
    d.strip fun _ found => by cases found
  obtain ⟨ss, d'⟩ := Stmt.Derives.resolve ambiguous
  rw [withoutComments_append, withoutComments_cons (by simp [ends])]
  exact ⟨⟨ss⟩, (parse_eq_ok d'.lacks_endOfFile ends _ _).2 d'⟩

/-- A program that is read without its comments is the program without its comments
exactly if no comment keeps an alternative from its condition. -/
theorem parse_withoutComments {ts : List Token} {p : Program} (accepted : parse ts = .ok p) :
    parse (withoutComments ts) = .ok p.withoutComments ↔
      p.Derives .pastComments (beforeEnd ts) := by
  obtain ⟨us, eof, rest, rfl, ends, d⟩ := readStatements_sound (parse_ok.1 accepted)
  have lacks : Lacks .endOfFile (withoutComments us) :=
    fun t h => d.lacks_endOfFile t (List.mem_filter.1 h).1
  rw [beforeEnd_append d.lacks_endOfFile ends, withoutComments_append,
    withoutComments_cons (by simp [ends]), parse_eq_ok lacks ends]
  constructor
  · intro stripped
    refine d.inert_or_spoiled.resolve_right fun spoiled => ?_
    have read := ((Stmt.Derives.read stripped) eof (withoutComments rest)).2 ends
    exact (spoiled eof (withoutComments rest) (.inr ends)).2 _ read rfl
  · intro inert
    exact inert.strip_inert

end Betik
