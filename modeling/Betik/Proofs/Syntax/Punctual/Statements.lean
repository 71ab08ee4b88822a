/-
The readers of statements are punctual.

Whether tokens begin a statement is asked of the grammar without the rule for
alternatives.  What that grammar derives can be derived by the rule as well, and an
alternative that would belong to another condition need not be told apart here.
-/
import Betik.Proofs.Syntax.Alternatives
import Betik.Proofs.Syntax.Punctual.Expressions

namespace Betik
namespace Stmt

/-- A statement, or the dollar sign that leaves no trace. -/
def IsOne (ts : List Token) : Option Stmt → Prop
  | none => ∃ t, t.kind = .mark .dollar ∧ ts = [t]
  | some s => Derives .never ts (.one s)

abbrev IsCond (ts : List Token) (s : Stmt) : Prop :=
  Derives .never ts (.cond s)

abbrev IsBranch (ts : List Token) (s : Stmt) : Prop :=
  Derives .never ts (.branch s)

abbrev IsBlock (ts : List Token) (s : Stmt) : Prop :=
  Derives .never ts (.block s)

abbrev IsBody (ts : List Token) (ss : List Stmt) : Prop :=
  Derives .never ts (.body ss)

abbrev IsMany (ts : List Token) (ss : List Stmt) : Prop :=
  Derives .never ts (.many ss)

def ManyEnd (ts : List Token) (ss : List Stmt) : Prop :=
  ∃ us r, ts = us ++ [r] ∧ r.kind = .mark .rightBrace ∧ IsMany us ss

def NamesEnd (ts : List Token) (names : List String) : Prop :=
  ∃ us r, ts = us ++ [r] ∧ r.kind = .mark .rightParen ∧ DerivesNames us names

def IsDataType (ts : List Token) (type : DataType) : Prop :=
  ∃ t, ts = [t] ∧ t.kind = .keyword (.dataType type)

/-! ## What is read is a phrase -/

theorem scanDataType_splits : Splits scanDataType IsDataType := by
  intro ts type rest h
  obtain ⟨t, rfl, kind⟩ := scanDataType_ok.1 h
  exact ⟨[t], rfl, t, rfl, kind⟩

theorem scanParenthesized_splits : Splits scanParenthesized Expr.IsEnclosed :=
  fun _ _ _ => scanParenthesized_sound

theorem scanParams_splits : Splits scanParams DerivesParams :=
  fun _ _ _ => scanParams_sound

theorem scanOne_splits : Splits scanOne IsOne := by
  intro ts s rest h
  have first := (sound ts).one s rest h
  cases s with
  | none =>
    obtain ⟨t, dollar, rfl⟩ := first
    exact ⟨[t], rfl, t, dollar, rfl⟩
  | some s =>
    obtain ⟨us, rfl, d, -⟩ := first
    exact ⟨us, rfl, d.ambiguous⟩

theorem scanBlock_splits : Splits scanBlock IsBlock := by
  intro ts s rest h
  obtain ⟨us, split, d⟩ := (sound ts).block s rest h
  exact ⟨us, split, d.ambiguous⟩

theorem Derives.spells_one {ts : List Token} {s : Stmt} (d : Derives .never ts (.one s)) :
    Spells IsOne ts :=
  ⟨some s, d⟩

/-- One more statement in front of a sequence, or one more dollar sign. -/
theorem IsOne.cons {us vs : List Token} {s : Option Stmt} {ss : List Stmt} (first : IsOne us s)
    (others : IsMany vs ss) : IsMany (us ++ vs) (s.toList ++ ss) := by
  cases s with
  | none =>
    obtain ⟨t, dollar, rfl⟩ := first
    exact .empty dollar others
  | some s => exact .cons first others fun _ found => by cases found

theorem IsOne.ne_nil {us : List Token} {s : Option Stmt} (h : IsOne us s) : us ≠ [] := by
  cases s with
  | none =>
    obtain ⟨t, -, rfl⟩ := h
    simp
  | some s =>
    obtain ⟨t, tail, rfl, -⟩ := Derives.head h
    simp

theorem opens_one : Opens (Spells IsOne) [] :=
  ⟨[⟨.mark .dollar, "", 0⟩], none, _, rfl, rfl⟩

theorem opens_names : Opens (Spells NamesEnd) [] :=
  ⟨[⟨.name, "", 0⟩, ⟨.mark .rightParen, "", 0⟩], _, [_], _, rfl, rfl, .last rfl⟩

theorem opens_block : Opens (Spells IsBlock) [] :=
  ⟨[⟨.mark .leftBrace, "", 0⟩, ⟨.mark .rightBrace, "", 0⟩], _, .block (.body rfl .nil rfl)⟩

theorem opens_branch : Opens (Spells IsBranch) [] := by
  obtain ⟨us, s, block⟩ := opens_block
  exact ⟨us, s, .branchBlock block⟩

theorem opens_cond {t : Token} (kind : t.kind = .keyword .cond) : Opens (Spells IsCond) [t] := by
  obtain ⟨us, e, condition⟩ := (Expr.scanParenthesized_punctual 0).opens
  obtain ⟨vs, yes, block⟩ := opens_block
  have whole := Derives.withoutAlternative kind condition block
  exact ⟨us ++ vs, _, whole⟩

theorem opens_many : Opens (Spells ManyEnd) [] :=
  ⟨[⟨.mark .rightBrace, "", 0⟩], [], [], _, rfl, rfl, .nil⟩

/-! ## Readers that contain no statements -/

theorem scanDataType_punctual (n : Nat) : Punctual n scanDataType (Spells IsDataType) [] := by
  have opens : Opens (Spells IsDataType) [] :=
    ⟨[⟨.keyword (.dataType .integer), "", 0⟩], _, _, rfl, rfl⟩
  refine ⟨opens, fun ts _ => ?_⟩
  cases ts with
  | nil => exact .nil rfl
  | cons t ts =>
    by_cases word : ∃ type, t.kind = .keyword (.dataType type)
    · obtain ⟨type, kind⟩ := word
      refine .single (a := type) (by simp [kind]) fun us _ => ?_
      rw [scanDataType_cons, kind]
    · refine .fail (e := .expectedDataType t.line t.found) ⟨rfl, rfl⟩ opens fun us _ => ?_
      rw [scanDataType_cons]
      split
      · rename_i type kind
        exact absurd ⟨type, kind⟩ word
      · rfl

theorem scanNames_punctual (n : Nat) : Punctual n scanNames (Spells NamesEnd) [] := by
  induction n with
  | zero => exact .zero opens_names
  | succ n ih =>
    rw [funext scanNames_eq]
    refine .token (by decide) fun name kind => ?_
    have last : Punctual n (scanToken (.mark .rightParen)) (Spells NamesEnd) [name] := by
      refine (scanToken_punctual (by decide) n).within ?_
      rintro _ ⟨r, rfl, right⟩
      exact .of ⟨_, [name], r, rfl, right, .last kind⟩
    refine .choice (by decide) rfl (fun _ _ => rfl) ?_ (last.map fun _ => [name.lexeme])
    intro t comma
    have more : Punctual n scanNames (Spells NamesEnd) [name, t] := by
      refine ih.within ?_
      rintro _ ⟨names, us, r, rfl, right, d⟩
      exact .of ⟨_, name :: t :: us, r, rfl, right, .more kind comma d⟩
    exact (more.map (name.lexeme :: ·)).le (Nat.sub_le n 1)

theorem scanParams_punctual (n : Nat) : Punctual n scanParams (Spells DerivesParams) [] := by
  rw [funext scanParams_eq]
  refine .token (by decide) fun l left => ?_
  have names : Punctual (n - 1) scanNames (Spells DerivesParams) [l] := by
    refine (scanNames_punctual _).within ?_
    rintro _ ⟨names, us, r, rfl, right, d⟩
    exact .of ⟨names, .some left d right⟩
  refine .choice (by decide) rfl (fun _ _ => rfl) ?_ names
  exact fun r right => .pure ⟨[], .none left right⟩

section

variable {t : Token} (n : Nat)

theorem scanDeclaration_punctual (kind : t.kind = .keyword .declare) :
    Punctual n (scanDeclaration t.line) (Spells IsOne) [t] := by
  rw [funext (scanDeclaration_eq t.line)]
  refine .token (by decide) fun name named => ?_
  refine .token (by decide) fun typed colon => ?_
  refine (scanDataType_punctual _).bind scanDataType_splits ?_
  rintro _ type ⟨word, rfl, typeWord⟩
  refine .token (by decide) fun initially equals => ?_
  refine (Expr.scanExpr_punctual _).bind (Expr.scanAt_splits _) ?_
  intro us e d
  refine .token (by decide) fun dollar ends => ?_
  exact .pure (by simpa using (Derives.declare kind named colon typeWord equals d ends).spells_one)

theorem scanAssignment_punctual (kind : t.kind = .name) :
    Punctual n (scanAssignment t) (Spells IsOne) [t] := by
  rw [funext (scanAssignment_eq t)]
  refine .token (by decide) fun equals sign => ?_
  refine (Expr.scanExpr_punctual _).bind (Expr.scanAt_splits _) ?_
  intro us e d
  refine .token (by decide) fun dollar ends => ?_
  exact .pure (by simpa using (Derives.assign kind sign d ends).spells_one)

theorem scanCallStatement_punctual (kind : t.kind = .name) :
    Punctual n (scanCallStatement t) (Spells IsOne) [t] := by
  rw [funext (scanCallStatement_eq t)]
  refine (Expr.scanCall_punctual t n).bind (Expr.scanCall_splits t) ?_
  rintro us _ ⟨es, rfl, d⟩
  refine .choice (by decide) rfl (fun _ _ => rfl) ?_ (.pure (Derives.call kind d).spells_one)
  exact fun dollar ends => .pure (Derives.callEnded kind d ends).spells_one

theorem scanPrint_punctual (kind : t.kind = .keyword .print) :
    Punctual n (scanPrint t.line) (Spells IsOne) [t] := by
  rw [funext (scanPrint_eq t.line)]
  refine (Expr.scanParenthesized_punctual n).bind scanParenthesized_splits ?_
  intro us e d
  refine .token (by decide) fun dollar ends => ?_
  exact .pure (Derives.print kind d ends).spells_one

theorem scanReturn_punctual (kind : t.kind = .keyword .ret) :
    Punctual n (scanReturn t.line) (Spells IsOne) [t] := by
  rw [funext (scanReturn_eq t.line)]
  refine (Expr.scanExpr_punctual n).bind (Expr.scanAt_splits _) ?_
  intro us e d
  refine .token (by decide) fun dollar ends => ?_
  exact .pure (Derives.ret kind d ends).spells_one

end

/-! ## Readers that contain statements -/

structure AllPunctual (n : Nat) : Prop where
  cond : ∀ t : Token, t.kind = .keyword .cond →
    Punctual n (scanCond t.line) (Spells IsCond) [t]
  branch : Punctual n scanBranch (Spells IsBranch) []
  many : Punctual n scanMany (Spells ManyEnd) []

namespace AllPunctual

variable {n : Nat} (all : AllPunctual n)

include all

theorem body : Punctual (n + 1) scanBody (Spells IsBody) [] := by
  rw [funext scanBody_eq]
  refine .token (by decide) fun l left => ?_
  refine all.many.within ?_
  rintro _ ⟨ss, us, r, rfl, right, d⟩
  exact .of ⟨ss, .body left d right⟩

theorem block : Punctual (n + 1) scanBlock (Spells IsBlock) [] := by
  have bodies : Punctual (n + 1) scanBody (Spells IsBlock) [] := by
    refine all.body.within ?_
    rintro us ⟨ss, d⟩
    obtain ⟨l, tail, rfl, -⟩ := d.body_head
    exact .of ⟨_, .block d⟩
  refine ⟨bodies.opens, fun ts short => ?_⟩
  cases ts with
  | nil => exact .nil scanBlock_nil
  | cons t ts => exact .congr (scanBlock_cons t) ((bodies.map (Stmt.block t.line)).at_ _ short)

theorem cond_succ {t : Token} (kind : t.kind = .keyword .cond) :
    Punctual (n + 1) (scanCond t.line) (Spells IsCond) [t] := by
  rw [funext (scanCond_eq t.line)]
  refine (Expr.scanParenthesized_punctual _).bind scanParenthesized_splits ?_
  intro us e condition
  refine (all.block.le (Nat.sub_le _ _)).bind scanBlock_splits ?_
  intro vs yes block
  refine .choice (by decide) rfl (fun _ _ => rfl) ?_
    (.pure ⟨_, .withoutAlternative kind condition block⟩)
  intro otherwise word
  have alternative : Punctual n scanBranch (Spells IsCond) ([t] ++ us ++ vs ++ [otherwise]) := by
    refine all.branch.within ?_
    rintro ws ⟨no, branch⟩
    have whole := Derives.withAlternative kind condition block word branch
    exact .of ⟨_, by simpa using whole⟩
  exact (alternative.map fun no => Stmt.cond t.line e yes (some no)).le (by omega)

theorem branch_succ : Punctual (n + 1) scanBranch (Spells IsBranch) [] := by
  have blocks : Punctual (n + 1) scanBlock (Spells IsBranch) [] := by
    refine all.block.within ?_
    rintro us ⟨s, d⟩
    exact .of ⟨s, .branchBlock d⟩
  refine .choice (by decide) scanBranch_nil scanBranch_cons ?_ blocks
  intro t kind
  refine (all.cond t kind).within ?_
  rintro us ⟨s, d⟩
  exact .of ⟨s, .branchCond d⟩

theorem loop {t : Token} (kind : t.kind = .keyword .loop) :
    Punctual n (fun ts => do
      let (condition, rest) ← scanParenthesized ts
      let (body, rest) ← scanBlock rest
      return (some (Stmt.loop t.line condition body), rest)) (Spells IsOne) [t] := by
  refine (Expr.scanParenthesized_punctual n).bind scanParenthesized_splits ?_
  intro us e condition
  have bodies : Punctual (n + 1) scanBlock (Spells IsOne) ([t] ++ us) := by
    refine all.block.within ?_
    rintro vs ⟨s, block⟩
    exact .of (Derives.loop kind condition block).spells_one
  exact (bodies.map fun s => some (Stmt.loop t.line e s)).le (by omega)

theorem function {t : Token} (kind : t.kind = .keyword .function) :
    Punctual n (fun ts => do
      let (name, rest) ← scanToken .name ts
      let (params, rest) ← scanParams rest
      let (body, rest) ← scanBody rest
      return (some (Stmt.function t.line name.lexeme params body), rest)) (Spells IsOne) [t] := by
  refine .token (by decide) fun name named => ?_
  refine (scanParams_punctual _).bind scanParams_splits ?_
  intro us names params
  have bodies : Punctual (n + 1) scanBody (Spells IsOne) ([t] ++ [name] ++ us) := by
    refine all.body.within ?_
    rintro vs ⟨ss, body⟩
    exact .of (by simpa using (Derives.function kind named params body).spells_one)
  exact (bodies.map fun ss => some (Stmt.function t.line name.lexeme names ss)).le (by omega)

theorem one : Punctual (n + 1) scanOne (Spells IsOne) [] := by
  refine ⟨opens_one, fun ts short => ?_⟩
  cases ts with
  | nil => exact .nil scanOne_nil
  | cons t ts =>
    have short' : ts.length < n := by simpa using short
    have refused (h : ∀ us, t.kind = .endOfFile ∨ nextKind us = nextKind ts →
        scanOne (t :: us) = .error (.unexpectedToken t.line t.found)) :
        PunctualAt scanOne (Spells IsOne) [] (t :: ts) :=
      .fail (e := .unexpectedToken t.line t.found) ⟨rfl, rfl⟩ opens_one h
    -- each reader of a statement begins behind the token that announces it
    have behind {r : List Token → Except ParseError (Option Stmt × List Token)}
        (inside : t.kind ≠ .endOfFile)
        (same : ∀ us, us.head? = ts.head? → scanOne (t :: us) = r us)
        (h : Punctual n r (Spells IsOne) [t]) : PunctualAt scanOne (Spells IsOne) [] (t :: ts) :=
      .step inside same (h.at_ ts short')
    cases kind : t.kind with
    | keyword word =>
      cases word with
      | declare =>
        exact behind (by simp [kind]) (fun us _ => by rw [scanOne_cons, kind])
          (scanDeclaration_punctual n kind).noted
      | print =>
        exact behind (by simp [kind]) (fun us _ => by rw [scanOne_cons, kind])
          (scanPrint_punctual n kind).noted
      | ret =>
        exact behind (by simp [kind]) (fun us _ => by rw [scanOne_cons, kind])
          (scanReturn_punctual n kind).noted
      | loop =>
        exact behind (by simp [kind]) (fun us _ => by rw [scanOne_cons, kind]) (all.loop kind)
      | function =>
        exact behind (by simp [kind]) (fun us _ => by rw [scanOne_cons, kind]) (all.function kind)
      | cond =>
        refine behind (by simp [kind]) (fun us _ => by rw [scanOne_cons, kind]) ?_
        refine ((all.cond t kind).within ?_).noted
        rintro us ⟨s, d⟩
        exact .of (Derives.condition d).spells_one
      | otherwise =>
        refine behind (by simp [kind]) (fun us _ => by rw [scanOne_cons, kind]) ?_
        refine (all.branch.within ?_).noted
        rintro us ⟨s, d⟩
        exact .of (Derives.dangling kind d).spells_one
      | typed | initially | again | truth | connective | dataType =>
        exact refused fun us _ => by rw [scanOne_cons, kind]
    | name =>
      by_cases equals : nextKind ts = .mark .equals
      · refine behind (by simp [kind]) (fun us heads => ?_) (scanAssignment_punctual n kind).noted
        simp [scanOne_cons, kind, nextIs_eq, nextKind_of_head? heads, equals]
      · by_cases paren : nextKind ts = .mark .leftParen
        · refine behind (by simp [kind]) (fun us heads => ?_)
            (scanCallStatement_punctual n kind).noted
          simp [scanOne_cons, kind, nextIs_eq, nextKind_of_head? heads, paren]
        · refine refused fun us sees => ?_
          have same : nextKind us = nextKind ts := sees.resolve_left (by simp [kind])
          simp [scanOne_cons, kind, nextIs_eq, same, equals, paren]
    | comment =>
      refine .single (a := some (.comment t.line (commentText t.lexeme))) (by simp [kind]) ?_
      intro us _
      rw [scanOne_cons, kind]
    | mark sign =>
      cases sign with
      | dollar =>
        refine .single (a := none) (by simp [kind]) fun us _ => ?_
        rw [scanOne_cons, kind]
      | equals | leftParen | rightParen | leftBrace | rightBrace | comma =>
        exact refused fun us _ => by rw [scanOne_cons, kind]
    | _ => exact refused fun us _ => by rw [scanOne_cons, kind]

theorem many_succ : Punctual (n + 1) scanMany (Spells ManyEnd) [] := by
  have statements : Punctual (n + 1) (fun ts => scanOne ts >>= fun p => scanMany p.2 >>= fun q =>
      Pure.pure (p.1.toList ++ q.1, q.2)) (Spells ManyEnd) [] := by
    refine all.one.bind scanOne_splits ?_
    intro us s first
    have shorter : n + 1 - us.length ≤ n := by
      have := List.length_pos_iff.2 first.ne_nil
      omega
    have others : Punctual n scanMany (Spells ManyEnd) us := by
      refine all.many.within ?_
      rintro _ ⟨ss, vs, r, rfl, right, others⟩
      exact .of ⟨_, us ++ vs, r, by simp, right, first.cons others⟩
    exact (others.map (s.toList ++ ·)).le shorter
  refine ⟨opens_many, fun ts short => ?_⟩
  cases ts with
  | nil => exact .nil scanMany_nil
  | cons t ts =>
    by_cases right : t.kind = .mark .rightBrace
    · refine .single (a := []) (by simp [right]) fun us _ => ?_
      rw [scanMany_cons, if_pos right]
    · by_cases ends : t.kind = .endOfFile
      · refine .fail (e := .expectedToken t.line (.mark .rightBrace) t.found) ⟨rfl, rfl⟩
          opens_many fun us _ => ?_
        rw [scanMany_cons, if_neg right, if_pos ends]
      · refine .congr (fun us => ?_) (statements.at_ (t :: ts) short)
        rw [scanMany_cons, if_neg right, if_neg ends]

end AllPunctual

theorem allPunctual (n : Nat) : AllPunctual n := by
  induction n with
  | zero => exact ⟨fun _ kind => .zero (opens_cond kind), .zero opens_branch, .zero opens_many⟩
  | succ n ih => exact ⟨fun _ => ih.cond_succ, ih.branch_succ, ih.many_succ⟩

end Stmt

/-- Reading a program is punctual too, though it leaves no tokens. -/
theorem readStatements_fault {ts : List Token} {e : ParseError}
    (h : readStatements ts = .error e) : Fault readStatements (Spells Stmt.IsMany) [] ts e := by
  induction n : ts.length using Nat.strongRecOn generalizing ts e with
  | ind n ih =>
    subst n
    cases ts with
    | nil =>
      cases readStatements_nil.symm.trans h
      exact .stop (lacks_nil _)
    | cons t ts =>
      have equation := readStatements_cons t
      by_cases ends : t.kind = .endOfFile
      · simp only [if_pos ends] at equation
        cases (equation ts).symm.trans h
      by_cases brace : t.kind = .mark .rightBrace
      · simp only [if_neg ends, if_pos brace] at equation
        cases (equation ts).symm.trans h
        exact .here ⟨rfl, rfl⟩ (.of ⟨[], .nil⟩) fun us _ => equation us
      · simp only [if_neg ends, if_neg brace] at equation
        have first : Punctual (ts.length + 2) Stmt.scanOne (Spells Stmt.IsMany) [] := by
          refine (Stmt.allPunctual _).one.within ?_
          rintro us ⟨s, d⟩
          exact .of ⟨_, by simpa using d.cons .nil⟩
        refine Fault.congr (.of_bind (first.at_ (t :: ts) (by simp)) ?_
          ((equation ts).symm.trans h)) equation
        intro us s rest split read failed
        obtain ⟨us', split', d⟩ := Stmt.scanOne_splits _ _ _ read
        obtain rfl := List.append_cancel_right (split.symm.trans split')
        have others : readStatements rest = .error e := by
          cases read : readStatements rest with
          | error e' =>
            simp only [read] at failed
            cases failed
            rfl
          | ok ss =>
            simp only [read] at failed
            cases failed
        have fault : Fault readStatements (Spells Stmt.IsMany) us rest e := by
          refine (ih _ (Stmt.scanOne_shorter read) others rfl).imp ?_
          rintro vs ⟨ss, ds⟩
          exact .of ⟨_, d.cons ds⟩
        exact fault.bind (f := fun ss => pure (s.toList ++ ss))

end Betik
