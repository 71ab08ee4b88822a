/-
Chains of conditions, and how they are read.

A condition whose alternative is a condition, and so on, is written as a chain: each
alternative belongs to the condition right before it.  So the tree of a chain is nested to
the right, however long the chain is.
-/
import Betik.Proofs.Syntax.Exactness

namespace Betik

structure Block where
  tokens : List Token
  tree : Stmt
  spells : Stmt.Derives .direct tokens (.block tree)

structure Arm where
  word : Token
  conditionTokens : List Token
  condition : Expr
  block : Block
  isCond : word.kind = .keyword .cond
  spells : Expr.Derives conditionTokens (.enclosed condition)

namespace Arm

def tokens (arm : Arm) : List Token :=
  arm.word :: (arm.conditionTokens ++ arm.block.tokens)

def tree (arm : Arm) (no : Option Stmt) : Stmt :=
  .cond arm.word.line arm.condition arm.block.tree no

/-- Conditions that are each the alternative of the one before, with an alternative of the
last one. -/
def nest (arms : List Arm) (final : Option Stmt) : Option Stmt :=
  arms.foldr (fun arm no => some (arm.tree no)) final

theorem derives (arm : Arm) : Stmt.Derives .direct arm.tokens (.cond (arm.tree none)) :=
  .withoutAlternative arm.isCond arm.spells arm.block.spells

theorem derives_some (arm : Arm) {word : Token} (isOtherwise : word.kind = .keyword .otherwise)
    {ts : List Token} {no : Stmt} (spells : Stmt.Derives .direct ts (.branch no)) :
    Stmt.Derives .direct (arm.tokens ++ word :: ts) (.cond (arm.tree (some no))) := by
  have whole := Stmt.Derives.withAlternative arm.isCond arm.spells arm.block.spells isOtherwise
    spells
  simpa [tokens, tree] using whole

end Arm

structure Otherwise (α : Type) where
  word : Token
  alternative : α
  isOtherwise : word.kind = .keyword .otherwise

/-- One condition or more, and at the end perhaps a block for when none of them holds. -/
structure Chain where
  first : Arm
  others : List (Otherwise Arm)
  last : Option (Otherwise Block)

namespace Chain

def tokens (chain : Chain) : List Token :=
  chain.first.tokens ++ chain.others.flatMap (fun o => o.word :: o.alternative.tokens) ++
    chain.last.toList.flatMap fun o => o.word :: o.alternative.tokens

def arms (chain : Chain) : List Arm :=
  chain.first :: chain.others.map (·.alternative)

def final (chain : Chain) : Option Stmt :=
  chain.last.map (·.alternative.tree)

def conditions (chain : Chain) : List Expr :=
  chain.arms.map (·.condition)

/-- The blocks, with one more of them than conditions if the last is for when none holds. -/
def branches (chain : Chain) : List Stmt :=
  chain.arms.map (·.block.tree) ++ chain.final.toList

def tree (chain : Chain) : Stmt :=
  chain.first.tree (Arm.nest (chain.others.map (·.alternative)) chain.final)

theorem tree_single (first : Arm) (last : Option (Otherwise Block)) :
    tree ⟨first, [], last⟩ = first.tree (last.map (·.alternative.tree)) := rfl

/-- The second condition and all after it are the alternative of the first. -/
theorem tree_cons (first : Arm) (o : Otherwise Arm) (others : List (Otherwise Arm))
    (last : Option (Otherwise Block)) :
    tree ⟨first, o :: others, last⟩ = first.tree (some (tree ⟨o.alternative, others, last⟩)) := rfl

theorem derives (chain : Chain) : Stmt.Derives .direct chain.tokens (.cond chain.tree) := by
  obtain ⟨first, others, last⟩ := chain
  induction others generalizing first with
  | nil =>
    cases last with
    | none => simpa [tokens, tree_single] using first.derives
    | some o =>
      have whole := first.derives_some o.isOtherwise (.branchBlock o.alternative.spells)
      simpa [tokens, tree_single] using whole
  | cons o others ih =>
    have whole := first.derives_some o.isOtherwise (.branchCond (ih o.alternative))
    simpa [tokens, tree_cons] using whole

theorem takesAlternative_tree (chain : Chain) :
    chain.tree.takesAlternative = chain.last.isNone := by
  obtain ⟨first, others, last⟩ := chain
  induction others generalizing first with
  | nil =>
    cases last with
    | none => rfl
    | some o =>
      obtain ⟨word, ⟨tokens, tree, spells⟩, isOtherwise⟩ := o
      cases spells
      rfl
  | cons o others ih => exact ih o.alternative

/-- A chain is read as one statement, and what is behind it is left.  Behind one that has no
last alternative there must not be another one. -/
theorem read (chain : Chain) {next : Token}
    (apart : chain.last = none → next.kind ≠ .keyword .otherwise) (rest : List Token) :
    ∃ short, Stmt.readOne (chain.tokens ++ next :: rest) =
      .ok ⟨some chain.tree, next :: rest, short⟩ := by
  refine scanned_ok.1 ?_
  have look : Stmt.Lookahead.direct.Apart chain.tree (next :: rest) := by
    intro takes
    rw [takesAlternative_tree, Option.isNone_iff_eq_none] at takes
    simpa [Stmt.Lookahead.findsAlternative, nextIs] using apart takes
  obtain ⟨t, us, split, kind, read⟩ := chain.derives.read (next :: rest) (by simp) look
  change Stmt.scanOne _ = _
  rw [split, List.cons_append, Stmt.scanOne_cons, kind]
  exact Stmt.noted_ok.2 ⟨_, rfl, read⟩

/-- A chain can be a whole program. -/
theorem parse (chain : Chain) {eof : Token} (ends : eof.kind = .endOfFile) (rest : List Token) :
    Betik.parse (chain.tokens ++ eof :: rest) = .ok ⟨[chain.tree]⟩ := by
  have whole : Stmt.Derives .direct chain.tokens (.many [chain.tree]) := by
    simpa using Stmt.Derives.cons (.condition chain.derives) .nil fun _ => nofun
  exact (parse_eq_ok chain.derives.lacks_endOfFile ends rest _).2 whole

end Chain
end Betik
