/-
Where an expression needs parentheses.

An operand needs them if it would otherwise be taken apart: on the left if its operator
binds looser than the one it belongs to, and on the right also if both bind equally,
because operators associate to the left.  Written with these parentheses an expression
is derived at the level of its place, so that is what the parser reads.  More of them
change nothing, for they leave no trace in the tree.
-/
import Betik.Proofs.Lines.Relabel
import Betik.Proofs.Syntax.Exactness

namespace Betik

theorem Precedence.height_inj {p q : Precedence} (same : p.height = q.height) : p = q := by
  cases p <;> cases q <;> first | rfl | cases same

theorem Precedence.height_next_add_one {p : Precedence} (loose : p ≠ primary) :
    p.next.height + 1 = p.height := by
  cases p <;> first | rfl | exact absurd rfl loose

namespace Expr

/-- Where an expression stands: alone, or as an operand of an operator of a level. -/
inductive Place
  | alone
  | left (level : Precedence)
  | right (level : Precedence)

def joiner? : Expr → Option Joiner
  | binary _ op _ _ => some (.operator op)
  | logical _ c _ _ => some (.connective c)
  | _ => none

/-- A greater height is a lower precedence. -/
def Place.NeedsParentheses : Place → Expr → Prop
  | alone, _ => False
  | left level, e => ∃ j, e.joiner? = some j ∧ level.height < j.precedence.height
  | right level, e => ∃ j, e.joiner? = some j ∧ level.height ≤ j.precedence.height

inductive Writing
  | operand (place : Place) (e : Expr)
  /-- The arguments of a call in their parentheses. -/
  | arguments (es : List Expr)
  /-- One expression or more, with commas between them. -/
  | listed (es : List Expr)

/-- The tokens that an expression is written with.  Their lines do not matter.  There
are parentheses around an operand exactly if it needs them, or around any expression
and any number of them if redundant ones may be there. -/
inductive Written (redundant : Bool) : List Token → Writing → Prop
  | literal {t : Token} {line line' : Nat} {value : Literal} (place : Place)
    (atom : t.atom = .ok (.literal line' value)) :
    Written redundant [t] (.operand place (.literal line value))
  | var {t : Token} {line : Nat} (place : Place) (kind : t.kind = .name) :
    Written redundant [t] (.operand place (.var line t.lexeme))
  | prompt {t : Token} {line : Nat} {text : String} (place : Place) (kind : t.kind = .prompt)
    (lexeme : t.lexeme = "??" ++ text ++ "??") :
    Written redundant [t] (.operand place (.prompt line text))
  | call {t : Token} {line : Nat} {ts : List Token} {es : List Expr} (place : Place)
    (kind : t.kind.callable) (arguments : Written redundant ts (.arguments es)) :
    Written redundant (t :: ts) (.operand place (.call line t.lexeme es))
  | node {us vs : List Token} {t : Token} {line : Nat} {j : Joiner} {lhs rhs : Expr}
    (place : Place) (bare : ¬place.NeedsParentheses (join line j lhs rhs))
    (left : Written redundant us (.operand (.left j.precedence) lhs))
    (kind : t.kind.joiner? = some j)
    (right : Written redundant vs (.operand (.right j.precedence) rhs)) :
    Written redundant (us ++ t :: vs) (.operand place (join line j lhs rhs))
  | parentheses {l r : Token} {ts : List Token} {place : Place} {e : Expr}
    (allowed : place.NeedsParentheses e ∨ redundant) (left : l.kind = .mark .leftParen)
    (inside : Written redundant ts (.operand .alone e)) (right : r.kind = .mark .rightParen) :
    Written redundant (l :: (ts ++ [r])) (.operand place e)
  | noArguments {l r : Token} (left : l.kind = .mark .leftParen)
    (right : r.kind = .mark .rightParen) : Written redundant [l, r] (.arguments [])
  | someArguments {l r : Token} {ts : List Token} {es : List Expr}
    (left : l.kind = .mark .leftParen) (inside : Written redundant ts (.listed es))
    (right : r.kind = .mark .rightParen) : Written redundant (l :: (ts ++ [r])) (.arguments es)
  | last {ts : List Token} {e : Expr} (only : Written redundant ts (.operand .alone e)) :
    Written redundant ts (.listed [e])
  | more {us vs : List Token} {comma : Token} {e : Expr} {es : List Expr}
    (first : Written redundant us (.operand .alone e)) (between : comma.kind = .mark .comma)
    (rest : Written redundant vs (.listed es)) :
    Written redundant (us ++ comma :: vs) (.listed (e :: es))

/-! ## What is written is derived -/

abbrev lineless (e : Expr) : Expr :=
  e.relabel fun _ => 0

abbrev linelessAll (es : List Expr) : List Expr :=
  relabelAll (fun _ => 0) es

def Place.level : Place → Precedence
  | alone => .logicalOr
  | left level => level
  | right level => level.next

theorem Derives.loosen {ts : List Token} {e : Expr} {level : Precedence}
    (d : Derives ts (.level level e)) {level' : Precedence} (loose : level.height ≤ level'.height) :
    Derives ts (.level level' e) := by
  induction level' using Precedence.tighter_induction with
  | primary =>
    obtain rfl : level = .primary := Precedence.height_inj (Nat.le_zero.1 loose)
    exact d
  | step level' tighter ih =>
    by_cases same : level = level'
    · exact same ▸ d
    · have lower := Precedence.height_next_add_one tighter
      have ne : level.height ≠ level'.height := fun h => same (Precedence.height_inj h)
      exact .tighter tighter (ih (by omega))

@[simp] theorem joiner?_join (line : Nat) (j : Joiner) (lhs rhs : Expr) :
    (join line j lhs rhs).joiner? = some j := by
  cases j <;> rfl

/-- Without parentheses a node is read at the level of its place. -/
theorem Place.height_le_level {place : Place} {e : Expr} {j : Joiner}
    (bare : ¬place.NeedsParentheses e) (node : e.joiner? = some j) :
    j.precedence.height ≤ place.level.height := by
  cases place with
  | alone => exact Precedence.height_le _
  | left level => exact Nat.not_lt.1 fun lower => bare ⟨j, node, lower⟩
  | right level =>
    have tighter : j.precedence.height < level.height :=
      Nat.not_le.1 fun lower => bare ⟨j, node, lower⟩
    have ne : level ≠ .primary := by
      rintro rfl
      exact Nat.not_lt_zero _ tighter
    have lower := Precedence.height_next_add_one ne
    simp only [Place.level]
    omega

def Writing.Derived : Writing → List Token → Prop
  | operand place e, ts =>
    ∃ e' : Expr, e'.lineless = e.lineless ∧ Derives ts (.level place.level e')
  | arguments es, ts => ∃ es', linelessAll es' = linelessAll es ∧ Derives ts (.arguments es')
  | listed es, ts => ∃ es', linelessAll es' = linelessAll es ∧ Derives ts (.listed es')

theorem Written.derived {redundant : Bool} {ts : List Token} {writing : Writing}
    (w : Written redundant ts writing) : writing.Derived ts := by
  induction w with
  | literal place atom =>
    refine ⟨_, ?_, (Derives.of_atom atom).of_primary _⟩
    rfl
  | var place kind =>
    refine ⟨_, ?_, (Derives.var kind).of_primary _⟩
    rfl
  | prompt place kind lexeme =>
    refine ⟨_, ?_, (Derives.prompt kind lexeme).of_primary _⟩
    rfl
  | call place kind _ ih =>
    obtain ⟨es', same, d⟩ := ih
    refine ⟨_, ?_, (Derives.call kind d).of_primary _⟩
    simp only [Expr.lineless, relabel, same]
  | @node us vs t line j lhs rhs place bare _ kind _ ihl ihr =>
    obtain ⟨lhs', samel, dl⟩ := ihl
    obtain ⟨rhs', samer, dr⟩ := ihr
    have whole := Derives.joined dl kind dr
    refine ⟨_, ?_, whole.loosen (Place.height_le_level bare (joiner?_join ..))⟩
    simp only [Expr.lineless, join_relabel] at samel samer ⊢
    rw [samel, samer]
  | parentheses _ left _ right ih =>
    obtain ⟨e', same, d⟩ := ih
    exact ⟨e', same, (Derives.parentheses (.enclosed left d right)).of_primary _⟩
  | noArguments left right => exact ⟨[], rfl, .noArguments left right⟩
  | someArguments left _ right ih =>
    obtain ⟨es', same, d⟩ := ih
    exact ⟨es', same, .someArguments left d right⟩
  | last _ ih =>
    obtain ⟨e', same, d⟩ := ih
    exact ⟨[e'], by simp only [linelessAll, relabelAll, same], .last d⟩
  | more _ between _ ihf ihr =>
    obtain ⟨e', samef, df⟩ := ihf
    obtain ⟨es', samer, dr⟩ := ihr
    exact ⟨e' :: es', by simp only [linelessAll, relabelAll, samef, samer], .more df between dr⟩

/-! ## What can be written -/

mutual

/-- All literals of the tree can be read, and no assignment is part of it. -/
def Writable : Expr → Prop
  | literal _ value => ∃ (t : Token) (line : Nat), t.atom = .ok (.literal line value)
  | binary _ _ lhs rhs | logical _ _ lhs rhs => lhs.Writable ∧ rhs.Writable
  | var .. | prompt .. => True
  | assign .. => False
  | call _ _ args => AllWritable args

def AllWritable : List Expr → Prop
  | [] => True
  | e :: es => e.Writable ∧ AllWritable es

end

theorem exists_joiner (j : Joiner) : ∃ t : Token, t.kind.joiner? = some j := by
  cases j with
  | operator op => exact ⟨⟨.operator op, op.symbol, 0⟩, rfl⟩
  | connective c => exact ⟨⟨.keyword (.connective c), c.symbol, 0⟩, rfl⟩

/-- A node can be written wherever its operands can be written where they stand. -/
theorem exists_written_join {redundant : Bool} {j : Joiner} {lhs rhs : Expr}
    (left : ∃ us, Written redundant us (.operand (.left j.precedence) lhs))
    (right : ∃ vs, Written redundant vs (.operand (.right j.precedence) rhs)) (line : Nat)
    (place : Place) : ∃ ts, Written redundant ts (.operand place (join line j lhs rhs)) := by
  obtain ⟨us, l⟩ := left
  obtain ⟨vs, r⟩ := right
  obtain ⟨t, kind⟩ := exists_joiner j
  by_cases needed : place.NeedsParentheses (join line j lhs rhs)
  · have alone : Written redundant _ (.operand .alone (join line j lhs rhs)) :=
      .node .alone id l kind r
    exact ⟨_, .parentheses (l := ⟨.mark .leftParen, "(", 0⟩) (r := ⟨.mark .rightParen, ")", 0⟩)
      (.inl needed) rfl alone rfl⟩
  · exact ⟨_, .node place needed l kind r⟩

theorem exists_written_arguments {redundant : Bool} {es : List Expr}
    (listed : es = [] ∨ ∃ ts, Written redundant ts (.listed es)) :
    ∃ ts, Written redundant ts (.arguments es) := by
  obtain rfl | ⟨ts, listed⟩ := listed
  · exact ⟨[⟨.mark .leftParen, "(", 0⟩, ⟨.mark .rightParen, ")", 0⟩], .noArguments rfl rfl⟩
  · exact ⟨⟨.mark .leftParen, "(", 0⟩ :: (ts ++ [⟨.mark .rightParen, ")", 0⟩]),
      .someArguments rfl listed rfl⟩

mutual

theorem exists_written : ∀ e : Expr, e.Writable → ∀ place,
    ∃ ts, Written false ts (.operand place e)
  | literal _ _, ⟨t, _, atom⟩, place => ⟨[t], .literal place atom⟩
  | binary line op lhs rhs, ⟨l, r⟩, place =>
    exists_written_join (j := .operator op) (exists_written lhs l _) (exists_written rhs r _)
      line place
  | logical line c lhs rhs, ⟨l, r⟩, place =>
    exists_written_join (j := .connective c) (exists_written lhs l _) (exists_written rhs r _)
      line place
  | var _ name, _, place => ⟨[⟨.name, name, 0⟩], .var place rfl⟩
  | call _ name args, all, place => by
    obtain ⟨ts, arguments⟩ := exists_written_arguments (exists_written_listed args all)
    exact ⟨⟨.name, name, 0⟩ :: ts, .call place rfl arguments⟩
  | prompt _ text, _, place => ⟨[⟨.prompt, "??" ++ text ++ "??", 0⟩], .prompt place rfl rfl⟩

theorem exists_written_listed : ∀ es : List Expr, AllWritable es →
    es = [] ∨ ∃ ts, Written false ts (.listed es)
  | [], _ => .inl rfl
  | e :: es, ⟨first, others⟩ => by
    obtain ⟨us, w⟩ := exists_written e first .alone
    obtain rfl | ⟨vs, ws⟩ := exists_written_listed es others
    · exact .inr ⟨us, .last w⟩
    · exact .inr ⟨us ++ ⟨.mark .comma, ",", 0⟩ :: vs, .more w rfl ws⟩

end

/-- An expression that is written with the parentheses it needs, and perhaps with others,
is read back but for its lines, up to the first token that neither joins nor opens a
parenthesis. -/
theorem read_written (e : Expr) (writable : e.Writable) :
    (∃ ts, Written false ts (.operand .alone e)) ∧
    ∀ redundant ts, Written redundant ts (.operand .alone e) →
      ∀ t : Token, t.kind.joiner? = none → t.kind ≠ .mark .leftParen → ∀ rest,
        ∃ e' short, read (ts ++ t :: rest) = .ok ⟨e', t :: rest, short⟩ ∧
          e'.lineless = e.lineless := by
  refine ⟨exists_written e writable .alone, ?_⟩
  intro redundant ts written t notJoiner notParen rest
  obtain ⟨e', same, d⟩ := written.derived
  have follows : Follows .logicalOr (t :: rest) :=
    ⟨t, rest, rfl, notParen, fun j joins => by simp [notJoiner] at joins⟩
  have joinsNothing : t.kind.joinerAt? .logicalOr = none := by
    simp [TokenKind.joinerAt?, notJoiner]
  have stop := scanOperands_stop joinsNothing e' rest
  obtain ⟨short, whole⟩ := scanned_ok.1 ((d.read _ follows).trans stop)
  exact ⟨e', short, whole, same⟩

/-- A difference that is subtracted keeps its parentheses. -/
theorem read_written_difference :
    let name (s : String) : Token := ⟨.name, s, 1⟩
    let minus : Token := ⟨.operator .subtract, "-", 1⟩
    let e := binary 1 .subtract (var 1 "a") (binary 1 .subtract (var 1 "b") (var 1 "c"))
    let ts := [name "a", minus, ⟨.mark .leftParen, "(", 1⟩, name "b", minus, name "c",
      ⟨.mark .rightParen, ")", 1⟩]
    e.Writable ∧ Written false ts (.operand .alone e) ∧
      ∃ e' short, read (ts ++ [⟨.mark .dollar, "$", 2⟩]) =
        .ok ⟨e', [⟨.mark .dollar, "$", 2⟩], short⟩ ∧ e'.lineless = e.lineless := by
  intro name minus e ts
  have writable : e.Writable := by simp [e, Writable]
  have leaf (s : String) (place : Place) : Written false [name s] (.operand place (var 1 s)) :=
    .var place rfl
  have inner : Written false ([name "b"] ++ minus :: [name "c"])
      (.operand .alone (join 1 (.operator .subtract) (var 1 "b") (var 1 "c"))) :=
    .node .alone id (leaf "b" _) rfl (leaf "c" _)
  have needed : (Place.right .addition).NeedsParentheses
      (join 1 (.operator .subtract) (var 1 "b") (var 1 "c")) := ⟨_, rfl, Nat.le_refl _⟩
  have right := Written.parentheses (l := ⟨.mark .leftParen, "(", 1⟩)
    (r := ⟨.mark .rightParen, ")", 1⟩) (.inl needed) rfl inner rfl
  have written : Written false ts (.operand .alone e) :=
    .node (j := .operator .subtract) .alone id (leaf "a" _) rfl right
  exact ⟨writable, written,
    (read_written e writable).2 false ts written _ rfl (by decide) []⟩

end Expr
end Betik
