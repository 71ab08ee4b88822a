/-
Chains of conditions, and what running them comes to.

A run of a chain comes to its conditions in their order.  It goes on behind one only if that
has a value that does not hold, and a value that holds takes it to the branch of the
condition.  `ComesTo` says this without a word about the tree of the chain; that the tree is
run in this way is an induction on the conditions, of which the tree is a fold.
-/
import Betik.Proofs.Chain.Syntax
import Betik.Proofs.Machine.Unbounded

namespace Betik

open Betik.Action

def Stmt.runOption (fuel : Nat) : Option Stmt → Action Flow
  | some s => s.run fuel
  | none => .done .normal

theorem Stmt.runOption_grows (no : Option Stmt) : Grows (Stmt.runOption · no) := by
  cases no with
  | none => exact grows_always _
  | some s => exact s.run_grows

def Value.choice (value : Value) (yes : Stmt) (no : Option Stmt) : Option Stmt :=
  if value.truthy then some yes else no

section

variable {value : Value} {yes : Stmt} {no : Option Stmt}

theorem Value.choice_of_holds (holds : value.truthy = true) : value.choice yes no = some yes :=
  if_pos holds

theorem Value.choice_of_fails (fails : value.truthy = false) : value.choice yes no = no :=
  if_neg (Bool.eq_false_iff.1 fails)

end

section

variable {line : Nat} {c : Expr} {yes : Stmt} {no : Option Stmt} {m m' s : Machine}

theorem Stmt.run_cond (fuel : Nat) : (Stmt.cond line c yes no).run (fuel + 1) =
    c.eval fuel >>= fun value => Stmt.runOption fuel (value.choice yes no) := by
  refine congrArg (c.eval fuel >>= ·) (funext fun value => ?_)
  unfold Value.choice
  split
  · rfl
  · cases no <;> rfl

theorem finishes_cond_iff {r : Except RuntimeError Flow} :
    Finishes ((Stmt.cond line c yes no).run ·) m r m' ↔
      (∃ e, Finishes (c.eval ·) m (.error e) m' ∧ r = .error e) ∨
        ∃ value m₁, Finishes (c.eval ·) m (.ok value) m₁ ∧
          Finishes (Stmt.runOption · (value.choice yes no)) m₁ r m' := by
  rw [← finishes_succ_iff (Stmt.run_grows _)]
  simp only [Stmt.run_cond]
  exact finishes_bind_iff c.eval_grows fun _ => Stmt.runOption_grows _

theorem visits_cond_iff :
    Visits ((Stmt.cond line c yes no).run ·) m s ↔ Visits (c.eval ·) m s ∨
      ∃ value m₁, Finishes (c.eval ·) m (.ok value) m₁ ∧
        Visits (Stmt.runOption · (value.choice yes no)) m₁ s := by
  rw [← visits_succ_iff (Stmt.run_grows _)]
  simp only [Stmt.run_cond]
  exact visits_bind_iff c.eval_grows fun _ => Stmt.runOption_grows _

end

/-! ## The parts of a chain -/

/-- A condition of a chain, or a branch.  The branch behind the last condition is for when
none of them holds. -/
inductive Part
  | condition (i : Nat)
  | branch (i : Nat)

namespace Part

def succ : Part → Part
  | condition i => condition (i + 1)
  | branch i => branch (i + 1)

/-- The first part is a condition that has to be looked at before the second part. -/
def Before : Part → Part → Prop
  | condition i, condition j => i < j
  | condition i, branch j => i ≤ j
  | branch _, _ => False

@[simp] theorem succ_inj {part other : Part} : part.succ = other.succ ↔ part = other := by
  cases part <;> cases other <;> simp [succ]

@[simp] theorem condition_zero_ne_succ (part : Part) : condition 0 ≠ part.succ := by
  cases part <;> simp [succ]

@[simp] theorem branch_zero_ne_succ (part : Part) : branch 0 ≠ part.succ := by
  cases part <;> simp [succ]

theorem condition_before_succ (part : Part) : (condition 0).Before part.succ := by
  cases part <;> simp [succ, Before]

theorem Before.succ {part other : Part} (h : part.Before other) :
    part.succ.Before other.succ := by
  cases part <;> cases other <;> simp_all [Part.succ, Before]

/-- The part ends in this way, and the chain with it: a condition with an error, a branch in
any way.  If there is no branch nothing is done. -/
def Ends (cs : List Expr) (bs : List Stmt) : Part → Machine → Except RuntimeError Flow →
    Machine → Prop
  | condition i, m, r, m' => ∃ c e, cs[i]? = some c ∧ Finishes (c.eval ·) m (.error e) m' ∧
      r = .error e
  | branch i, m, r, m' => Finishes (Stmt.runOption · bs[i]?) m r m'

def Visits (cs : List Expr) (bs : List Stmt) : Part → Machine → Machine → Prop
  | condition i, m, s => ∃ c, cs[i]? = some c ∧ Action.Visits (c.eval ·) m s
  | branch i, m, s => Action.Visits (Stmt.runOption · bs[i]?) m s

theorem condition_zero_ends {c : Expr} {cs : List Expr} {bs : List Stmt} {m m' : Machine}
    {r : Except RuntimeError Flow} :
    (condition 0).Ends (c :: cs) bs m r m' ↔
      ∃ e, Finishes (c.eval ·) m (.error e) m' ∧ r = .error e := by
  simp [Ends]

theorem condition_zero_visits {c : Expr} {cs : List Expr} {bs : List Stmt} {m s : Machine} :
    (condition 0).Visits (c :: cs) bs m s ↔ Action.Visits (c.eval ·) m s := by
  simp [Visits]

theorem succ_ends (c : Expr) (cs : List Expr) (b : Stmt) (bs : List Stmt) (part : Part) :
    part.succ.Ends (c :: cs) (b :: bs) = part.Ends cs bs := by
  cases part <;> rfl

theorem succ_visits (c : Expr) (cs : List Expr) (b : Stmt) (bs : List Stmt) (part : Part) :
    part.succ.Visits (c :: cs) (b :: bs) = part.Visits cs bs := by
  cases part <;> rfl

end Part

/-! ## What is come to -/

/-- Looking at conditions in their order, from the first machine, comes to the part on the
second machine. -/
inductive ComesTo : List Expr → Machine → Part → Machine → Prop
  | condition (c : Expr) (cs : List Expr) (m : Machine) : ComesTo (c :: cs) m (.condition 0) m
  | branch {c : Expr} {m m₁ : Machine} {value : Value} (cs : List Expr)
    (evaluated : Finishes (c.eval ·) m (.ok value) m₁) (holds : value.truthy = true) :
    ComesTo (c :: cs) m (.branch 0) m₁
  | next {c : Expr} {cs : List Expr} {m m₁ m₂ : Machine} {value : Value} {part : Part}
    (evaluated : Finishes (c.eval ·) m (.ok value) m₁) (fails : value.truthy = false)
    (others : ComesTo cs m₁ part m₂) : ComesTo (c :: cs) m part.succ m₂
  | last (m : Machine) : ComesTo [] m (.branch 0) m

theorem comesTo_nil_iff {m m₂ : Machine} {part : Part} :
    ComesTo [] m part m₂ ↔ part = .branch 0 ∧ m₂ = m := by
  constructor
  · rintro ⟨⟩
    exact ⟨rfl, rfl⟩
  · rintro ⟨rfl, rfl⟩
    exact .last m₂

/-- Behind the first condition the branch is come to if it holds, and the other conditions
if it does not. -/
theorem comesTo_cons_iff {c : Expr} {cs : List Expr} {m m₂ : Machine} {part : Part} :
    ComesTo (c :: cs) m part m₂ ↔ part = .condition 0 ∧ m₂ = m ∨
      ∃ value m₁, Finishes (c.eval ·) m (.ok value) m₁ ∧
        (value.truthy = true ∧ part = .branch 0 ∧ m₂ = m₁ ∨
          value.truthy = false ∧ ∃ p : Part, part = p.succ ∧ ComesTo cs m₁ p m₂) := by
  constructor
  · rintro (_ | ⟨_, evaluated, holds⟩ | ⟨evaluated, fails, others⟩)
    · exact .inl ⟨rfl, rfl⟩
    · exact .inr ⟨_, _, evaluated, .inl ⟨holds, rfl, rfl⟩⟩
    · exact .inr ⟨_, _, evaluated, .inr ⟨fails, _, rfl, others⟩⟩
  · rintro (⟨rfl, rfl⟩ | ⟨value, m₁, evaluated, ⟨holds, rfl, rfl⟩ | ⟨fails, p, rfl, others⟩⟩)
    · exact .condition c cs m₂
    · exact .branch cs evaluated holds
    · exact .next evaluated fails others

/-- Something holds of a part that is come to: of the first condition, of its branch, or of
a part that the other conditions come to. -/
theorem exists_comesTo_cons_iff {c : Expr} {cs : List Expr} {m : Machine}
    {P : Part → Machine → Prop} :
    (∃ part m₁, ComesTo (c :: cs) m part m₁ ∧ P part m₁) ↔ P (.condition 0) m ∨
      ∃ value m₁, Finishes (c.eval ·) m (.ok value) m₁ ∧
        (value.truthy = true ∧ P (.branch 0) m₁ ∨
          value.truthy = false ∧ ∃ part m₂, ComesTo cs m₁ part m₂ ∧ P part.succ m₂) := by
  constructor
  · rintro ⟨_, _, comes, holds⟩
    cases comes with
    | condition => exact .inl holds
    | branch _ evaluated taken => exact .inr ⟨_, _, evaluated, .inl ⟨taken, holds⟩⟩
    | next evaluated fails others =>
      exact .inr ⟨_, _, evaluated, .inr ⟨fails, _, _, others, holds⟩⟩
  · rintro (holds | ⟨value, m₁, evaluated, ⟨taken, holds⟩ | ⟨fails, part, m₂, others, holds⟩⟩)
    · exact ⟨_, m, .condition c cs m, holds⟩
    · exact ⟨_, m₁, .branch cs evaluated taken, holds⟩
    · exact ⟨_, m₂, .next evaluated fails others, holds⟩

/-- A part is come to on one machine only, so no condition is looked at twice. -/
theorem ComesTo.unique {cs : List Expr} {m m₁ m₂ : Machine} {part : Part}
    (first : ComesTo cs m part m₁) (second : ComesTo cs m part m₂) : m₁ = m₂ := by
  induction first with
  | condition c cs m => exact (by simpa [comesTo_cons_iff] using second : m₂ = m).symm
  | @branch c m m₁ value cs evaluated holds =>
    rw [comesTo_cons_iff, c.eval_grows.exists_iff evaluated] at second
    exact (by simpa [holds] using second : m₂ = m₁).symm
  | @next c cs m m₁ m' value part evaluated fails others ih =>
    rw [comesTo_cons_iff, c.eval_grows.exists_iff evaluated] at second
    exact ih (by simpa [fails, eq_comm] using second)
  | last m => exact (comesTo_nil_iff.1 second).2.symm

/-- The part is the last of those that are come to: a branch, or a condition that has no
value. -/
structure StopsAt (cs : List Expr) (m : Machine) (part : Part) (m₁ : Machine) : Prop where
  comes : ComesTo cs m part m₁
  last : ∀ other m₂, ComesTo cs m other m₂ → other = part ∨ other.Before part
  stuck : ∀ i c, part = .condition i → cs[i]? = some c →
    ¬∃ value m₂, Finishes (c.eval ·) m₁ (.ok value) m₂

namespace StopsAt

variable {c : Expr} {cs : List Expr} {m m₁ m₂ : Machine} {value : Value} {part : Part}

theorem nil (m : Machine) : StopsAt [] m (.branch 0) m where
  comes := .last m
  last _ _ other := .inl (comesTo_nil_iff.1 other).1
  stuck _ _ := nofun

/-- Nothing is come to behind a condition that has no value, be it for an error or because
it goes on forever. -/
theorem condition (cs : List Expr) (never : ¬∃ value m₁, Finishes (c.eval ·) m (.ok value) m₁) :
    StopsAt (c :: cs) m (.condition 0) m where
  comes := .condition c cs m
  last part m₂ other := by
    obtain ⟨same, -⟩ | ⟨value, m₁, evaluated, -⟩ := comesTo_cons_iff.1 other
    · exact .inl same
    · exact absurd ⟨value, m₁, evaluated⟩ never
  stuck _ _ same found := by
    cases same
    cases found
    exact never

theorem branch (cs : List Expr) (evaluated : Finishes (c.eval ·) m (.ok value) m₁)
    (holds : value.truthy = true) : StopsAt (c :: cs) m (.branch 0) m₁ where
  comes := .branch cs evaluated holds
  last part m₂ other := by
    rw [comesTo_cons_iff, c.eval_grows.exists_iff evaluated] at other
    obtain ⟨rfl, -⟩ | ⟨-, same, -⟩ | ⟨fails, -⟩ := other
    · exact .inr (Nat.le_refl 0)
    · exact .inl same
    · exact absurd (holds.symm.trans fails) nofun
  stuck _ _ := nofun

theorem next (evaluated : Finishes (c.eval ·) m (.ok value) m₁) (fails : value.truthy = false)
    (stops : StopsAt cs m₁ part m₂) : StopsAt (c :: cs) m part.succ m₂ where
  comes := .next evaluated fails stops.comes
  last other m₃ comes := by
    rw [comesTo_cons_iff, c.eval_grows.exists_iff evaluated] at comes
    obtain ⟨rfl, -⟩ | ⟨holds, -⟩ | ⟨-, p, rfl, comes⟩ := comes
    · exact .inr part.condition_before_succ
    · exact absurd (holds.symm.trans fails) nofun
    · exact (stops.last p m₃ comes).imp (congrArg Part.succ) Part.Before.succ
  stuck _ _ same found := by
    cases part <;> cases same
    exact stops.stuck _ _ rfl found

end StopsAt

/-! ## Running a chain -/

namespace Arm

section

variable {arm : Arm} {arms : List Arm} {final : Option Stmt} {m m' m₁ s : Machine}
  {r : Except RuntimeError Flow}

/-- A condition that has a value is not the end. -/
theorem finishes_nest_cons_iff_of_value {value : Value}
    (evaluated : Finishes (arm.condition.eval ·) m (.ok value) m₁) :
    Finishes (Stmt.runOption · (nest (arm :: arms) final)) m r m' ↔
      Finishes (Stmt.runOption · (value.choice arm.block.tree (nest arms final))) m₁ r m' := by
  refine finishes_cond_iff.trans ?_
  rw [arm.condition.eval_grows.exists_iff evaluated]
  refine or_iff_right ?_
  rintro ⟨e, failed, -⟩
  cases arm.condition.eval_grows.unique evaluated failed

theorem finishes_nest_cons_iff_of_not
    (never : ¬∃ value m₁, Finishes (arm.condition.eval ·) m (.ok value) m₁) :
    Finishes (Stmt.runOption · (nest (arm :: arms) final)) m r m' ↔
      ∃ e, Finishes (arm.condition.eval ·) m (.error e) m' ∧ r = .error e := by
  refine finishes_cond_iff.trans (or_iff_left ?_)
  rintro ⟨value, m₁, evaluated, -⟩
  exact never ⟨value, m₁, evaluated⟩

theorem visits_nest_cons_iff :
    Visits (Stmt.runOption · (nest (arm :: arms) final)) m s ↔
      Visits (arm.condition.eval ·) m s ∨
        ∃ value m₁, Finishes (arm.condition.eval ·) m (.ok value) m₁ ∧
          Visits (Stmt.runOption · (value.choice arm.block.tree (nest arms final))) m₁ s :=
  visits_cond_iff

end

/-- A run of a chain comes to a last part, and ends as that part does. -/
theorem nest_stopsAt (arms : List Arm) (final : Option Stmt) (m : Machine) :
    ∃ part m₁, StopsAt (arms.map (·.condition)) m part m₁ ∧
      ∀ r m', Finishes (Stmt.runOption · (nest arms final)) m r m' ↔
        part.Ends (arms.map (·.condition)) (arms.map (·.block.tree) ++ final.toList) m₁ r m' := by
  induction arms generalizing m with
  | nil =>
    refine ⟨.branch 0, m, .nil m, fun r m' => ?_⟩
    cases final <;> rfl
  | cons arm arms ih =>
    simp only [List.map_cons, List.cons_append]
    by_cases has : ∃ value m₁, Finishes (arm.condition.eval ·) m (.ok value) m₁
    · obtain ⟨value, m₁, evaluated⟩ := has
      cases holds : value.truthy with
      | true =>
        refine ⟨.branch 0, m₁, .branch _ evaluated holds, fun r m' => ?_⟩
        rw [finishes_nest_cons_iff_of_value evaluated, Value.choice_of_holds holds]
        rfl
      | false =>
        obtain ⟨part, m₂, stops, ends⟩ := ih m₁
        refine ⟨part.succ, m₂, .next evaluated holds stops, fun r m' => ?_⟩
        rw [finishes_nest_cons_iff_of_value evaluated, Value.choice_of_fails holds, ends,
          Part.succ_ends]
    · refine ⟨.condition 0, m, .condition _ has, fun r m' => ?_⟩
      rw [finishes_nest_cons_iff_of_not has, Part.condition_zero_ends]

/-- A run of a chain comes through the machines that its parts come through, if they are come
to, and through no others. -/
theorem nest_visits_iff (arms : List Arm) (final : Option Stmt) (m s : Machine) :
    Visits (Stmt.runOption · (nest arms final)) m s ↔
      ∃ part m₁, ComesTo (arms.map (·.condition)) m part m₁ ∧
        part.Visits (arms.map (·.condition)) (arms.map (·.block.tree) ++ final.toList) m₁ s := by
  induction arms generalizing m with
  | nil =>
    have branch : Part.Visits [] final.toList (.branch 0) m s ↔
        Visits (Stmt.runOption · final) m s := by
      cases final <;> rfl
    simp only [List.map_nil, List.nil_append, comesTo_nil_iff]
    constructor
    · exact fun visits => ⟨.branch 0, m, ⟨rfl, rfl⟩, branch.2 visits⟩
    · rintro ⟨_, _, ⟨rfl, rfl⟩, visits⟩
      exact branch.1 visits
  | cons arm arms ih =>
    simp only [List.map_cons, List.cons_append]
    rw [visits_nest_cons_iff, exists_comesTo_cons_iff, Part.condition_zero_visits]
    refine or_congr .rfl (exists_congr fun value => exists_congr fun m₁ => and_congr .rfl ?_)
    cases holds : value.truthy with
    | true =>
      rw [Value.choice_of_holds holds]
      simp only [true_and, Bool.true_eq_false, false_and, or_false]
      rfl
    | false =>
      rw [Value.choice_of_fails holds, ih]
      simp only [Bool.false_eq_true, false_and, true_and, false_or, Part.succ_visits]

end Arm

/-- A chain runs one branch at most.  Its tokens are read as one statement, nested to the
right, whatever comes next but for a further alternative.  Running it comes to its conditions
in their order and to each of them once, up to a last part: a condition that fails or goes on
forever, or the branch of the first condition that holds, or the branch for when none holds,
which can be missing.  The chain ends as its last part does, and no machine is come through
but by the parts that are come to. -/
theorem Chain.runs_one_branch (chain : Chain) :
    (∀ next rest, (chain.last = none → next.kind ≠ .keyword .otherwise) →
      ∃ short, Stmt.readOne (chain.tokens ++ next :: rest) =
        .ok ⟨some chain.tree, next :: rest, short⟩) ∧
    (∀ eof rest, eof.kind = .endOfFile →
      Betik.parse (chain.tokens ++ eof :: rest) = .ok ⟨[chain.tree]⟩) ∧
    ∀ m,
      (∃ part m₁, StopsAt chain.conditions m part m₁ ∧
        ∀ r m', Finishes (chain.tree.run ·) m r m' ↔
          part.Ends chain.conditions chain.branches m₁ r m') ∧
      (∀ s, Visits (chain.tree.run ·) m s ↔ ∃ part m₁, ComesTo chain.conditions m part m₁ ∧
        part.Visits chain.conditions chain.branches m₁ s) ∧
      ∀ part m₁ m₂, ComesTo chain.conditions m part m₁ → ComesTo chain.conditions m part m₂ →
        m₁ = m₂ := by
  refine ⟨fun _ rest apart => chain.read apart rest, fun _ rest ends => chain.parse ends rest,
    fun m => ⟨?_, fun s => ?_, fun _ _ _ => ComesTo.unique⟩⟩
  · exact Arm.nest_stopsAt chain.arms chain.final m
  · exact Arm.nest_visits_iff chain.arms chain.final m s

def truthInParentheses (b : Bool) : List Token :=
  ⟨.mark .leftParen, "(", 1⟩ ::
    ([⟨.keyword (.truth b), truthWord b, 1⟩] ++ [⟨.mark .rightParen, ")", 1⟩])

theorem derives_truthInParentheses (b : Bool) :
    Expr.Derives (truthInParentheses b) (.enclosed (.literal 1 (.boolean b))) :=
  .enclosed rfl ((Expr.Derives.truth rfl).of_primary _) rfl

def Block.ofTruth (b : Bool) : Block where
  tokens := ⟨.mark .leftBrace, "\x7b", 1⟩ ::
    (⟨.keyword .print, printName, 1⟩ :: (truthInParentheses b ++ [⟨.mark .dollar, "$", 1⟩]) ++
      [⟨.mark .rightBrace, "\x7d", 1⟩])
  tree := .block 1 [.print 1 (.literal 1 (.boolean b))]
  spells := by
    have print : Stmt.Derives .direct
        (⟨.keyword .print, printName, 1⟩ :: (truthInParentheses b ++ [⟨.mark .dollar, "$", 1⟩]))
        (.one (.print 1 (.literal 1 (.boolean b)))) :=
      .print rfl (derives_truthInParentheses b) rfl
    have inside := Stmt.Derives.cons print .nil nofun
    rw [List.append_nil] at inside
    exact .block (.body rfl inside rfl)

def Arm.ofTruth (b : Bool) : Arm where
  word := ⟨.keyword .cond, "ise", 1⟩
  conditionTokens := truthInParentheses b
  condition := .literal 1 (.boolean b)
  block := .ofTruth b
  isCond := rfl
  spells := derives_truthInParentheses b

/-- The second condition holds, so its branch runs and prints, and nothing else is printed. -/
theorem Chain.runs_one_branch_second :
    let chain : Chain :=
      ⟨.ofTruth false, [⟨⟨.keyword .otherwise, "değilse", 1⟩, .ofTruth true, rfl⟩], none⟩
    let next : Token := ⟨.mark .dollar, "$", 1⟩
    let eof : Token := ⟨.endOfFile, "", 2⟩
    let m : Machine := { environment := .new .lexical }
    next.kind ≠ .keyword .otherwise ∧ eof.kind = .endOfFile ∧
      (∃ short, Stmt.readOne (chain.tokens ++ [next]) = .ok ⟨some chain.tree, [next], short⟩) ∧
      Betik.parse (chain.tokens ++ [eof]) = .ok ⟨[chain.tree]⟩ ∧
      ComesTo chain.conditions m (.branch 1) m ∧
      ∃ m', Finishes (chain.tree.run ·) m (.ok .normal) m' ∧
        m'.sink.written = "doğru\n".toUTF8 := by
  intro chain next eof m
  obtain ⟨read, parsed, run⟩ := chain.runs_one_branch
  obtain ⟨⟨part, m₁, stops, ends⟩, -, unique⟩ := run m
  have apart : next.kind ≠ .keyword .otherwise := by decide
  have second : ComesTo chain.conditions m (.branch 1) m :=
    .next ⟨1, rfl⟩ rfl (.branch [] ⟨1, rfl⟩ rfl)
  refine ⟨apart, rfl, read next [] fun _ => apart, parsed eof [] rfl, second, ?_⟩
  obtain rfl | before := stops.last _ m second
  · obtain rfl := unique _ _ _ stops.comes second
    exact ⟨_, (ends _ _).2 ⟨5, rfl⟩, rfl⟩
  · cases part <;> cases before

end Betik
