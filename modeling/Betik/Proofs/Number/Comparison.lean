/-
How integers compare in a program.  Equality of two integers is exact and the four
orderings are those of the nearest doubles.  Widening keeps the order, so the two
agree except on two integers that become one double: neither is less than the other
and still they are not equal.
-/
import Betik.Machine.Run
import Betik.Proofs.Number.Widening

namespace Betik

open Number

/-- An operator between operands that evaluate to `a` and then `b` gives a truth value,
whatever the operands are and whatever they do on the way. -/
def Operator.Decides (op : Operator) (a b : Int64) (answer : Bool) : Prop :=
  ∀ fuel line lhs rhs m m₁ m₂, Expr.eval fuel lhs m = some (.ok (.integer a), m₁) →
    Expr.eval fuel rhs m₁ = some (.ok (.integer b), m₂) →
    Expr.eval (fuel + 1) (.binary line op lhs rhs) m = some (.ok (.boolean answer), m₂)

/-- Two integers compare as integers do: exactly one of the three relations holds,
the weak orderings say what they should, and less is less. -/
def ComparesExactly (a b : Int64) : Prop :=
  ∃ lt eq gt le ge : Bool,
    Operator.less.Decides a b lt ∧ Operator.equal.Decides a b eq ∧
    Operator.greater.Decides a b gt ∧ Operator.lessEq.Decides a b le ∧
    Operator.greaterEq.Decides a b ge ∧
    [lt, eq, gt].count true = 1 ∧ (le ↔ lt ∨ eq) ∧ (ge ↔ gt ∨ eq) ∧ (lt ↔ a.toInt < b.toInt)

/-- Two literals are enough to see how an operator answers behind any operands. -/
theorem Operator.decides_iff {op : Operator} {a b : Int64} {answer : Bool} {p q : Prop}
    [Decidable p] [Decidable q]
    (applied : op.apply (.integer a) (.integer b) = .ok (.boolean (decide p))) (same : p ↔ q) :
    op.Decides a b answer ↔ answer = decide q := by
  rw [← decide_eq_decide.2 same]
  have eval (fuel line : Nat) {lhs rhs : Expr} {m m₁ m₂ : Machine}
      (left : lhs.eval fuel m = some (.ok (.integer a), m₁))
      (right : rhs.eval fuel m₁ = some (.ok (.integer b), m₂)) :
      Expr.eval (fuel + 1) (.binary line op lhs rhs) m = some (.ok (.boolean (decide p)), m₂) := by
    rw [Expr.eval, Action.bind_of_ok left, Action.bind_of_ok right, applied]
    rfl
  constructor
  · intro decides
    let m : Machine := { environment := .new .dynamic }
    have left : Expr.eval 1 (.literal 0 (.integer a)) m = some (.ok (.integer a), m) := rfl
    have right : Expr.eval 1 (.literal 0 (.integer b)) m = some (.ok (.integer b), m) := rfl
    have both := (decides 1 0 _ _ _ _ _ left right).symm.trans (eval 1 0 left right)
    injection both with both
    injection both with both
    injection both with both
    injection both
  · rintro rfl fuel line lhs rhs m m₁ m₂ left right
    exact eval fuel line left right

/-- An integer has few enough bits for every step of its conversion. -/
theorem log2_natAbs_toInt (n : Int64) : n.toInt.natAbs.log2 ≤ 64 := by
  have lower := n.le_toInt
  have upper := n.toInt_lt
  exact log2_le_of_lt (by omega)

section

variable (a b : Int64)

theorem decides_equal {answer : Bool} :
    Operator.equal.Decides a b answer ↔ answer = decide (a = b) :=
  Operator.decides_iff rfl .rfl

theorem decides_less {answer : Bool} :
    Operator.less.Decides a b answer ↔ answer = decide (widened a.toInt < widened b.toInt) :=
  Operator.decides_iff rfl (lt_ofInt_iff (log2_natAbs_toInt a) (log2_natAbs_toInt b))

theorem decides_greater {answer : Bool} :
    Operator.greater.Decides a b answer ↔ answer = decide (widened b.toInt < widened a.toInt) :=
  Operator.decides_iff rfl (lt_ofInt_iff (log2_natAbs_toInt b) (log2_natAbs_toInt a))

theorem decides_lessEq {answer : Bool} :
    Operator.lessEq.Decides a b answer ↔ answer = decide (widened a.toInt ≤ widened b.toInt) :=
  Operator.decides_iff rfl (le_ofInt_iff (log2_natAbs_toInt a) (log2_natAbs_toInt b))

theorem decides_greaterEq {answer : Bool} :
    Operator.greaterEq.Decides a b answer ↔ answer = decide (widened b.toInt ≤ widened a.toInt) :=
  Operator.decides_iff rfl (le_ofInt_iff (log2_natAbs_toInt b) (log2_natAbs_toInt a))

theorem comparesExactly_iff :
    ComparesExactly a b ↔ a = b ∨ widened a.toInt ≠ widened b.toInt := by
  simp only [ComparesExactly, decides_less, decides_equal, decides_greater, decides_lessEq,
    decides_greaterEq, exists_eq_left, exists_and_left, decide_eq_true_iff]
  constructor
  · rintro ⟨one, -⟩
    by_cases same : a = b
    · exact .inl same
    · refine .inr fun merged => ?_
      simp [merged, same] at one
  · rintro (rfl | apart)
    · simp
    · have ne : a ≠ b := fun same => apart (by rw [same])
      rcases Int.lt_or_gt_of_ne (mt Int64.toInt_inj.1 ne) with lt | gt
      · have mono := widened_mono (Int.le_of_lt lt)
        have below : widened a.toInt < widened b.toInt := by omega
        have notAbove : ¬widened b.toInt < widened a.toInt := by omega
        simp [below, notAbove, ne, lt, Int.not_le.2 below, Int.le_of_lt below]
      · have mono := widened_mono (Int.le_of_lt gt)
        have above : widened b.toInt < widened a.toInt := by omega
        have notBelow : ¬widened a.toInt < widened b.toInt := by omega
        simp [above, notBelow, ne, Int.not_lt.2 (Int.le_of_lt gt), Int.not_le.2 above,
          Int.le_of_lt above]

/-- Two integers compare exactly unless they are different and become one double.  Then
neither is less, neither is equal, and both are at most the other.  No integers up to
`2 ^ 53` on either side are such a pair. -/
theorem comparison_by_widening :
    (ComparesExactly a b ↔ a = b ∨ widened a.toInt ≠ widened b.toInt) ∧
    (a ≠ b → widened a.toInt = widened b.toInt →
      Operator.less.Decides a b false ∧ Operator.equal.Decides a b false ∧
      Operator.greater.Decides a b false ∧ Operator.lessEq.Decides a b true ∧
      Operator.greaterEq.Decides a b true) ∧
    (a.toInt.natAbs ≤ 2 ^ 53 → b.toInt.natAbs ≤ 2 ^ 53 → ComparesExactly a b) := by
  refine ⟨comparesExactly_iff a b, ?_, ?_⟩
  · intro ne merged
    simp [decides_less, decides_equal, decides_greater, decides_lessEq, decides_greaterEq, ne,
      merged]
  · intro small small'
    rw [comparesExactly_iff, widened_eq_self small, widened_eq_self small', ne_eq,
      Int64.toInt_inj]
    exact Classical.em _

end

/-- The least two neighbours that become one double are told apart by no ordering. -/
theorem comparison_by_widening_neighbours :
    Operator.less.Decides 9007199254740992 9007199254740993 false ∧
    Operator.equal.Decides 9007199254740992 9007199254740993 false ∧
    Operator.greater.Decides 9007199254740992 9007199254740993 false ∧
    ComparesExactly 9007199254740992 9007199254740991 := by
  obtain ⟨-, merged, -⟩ := comparison_by_widening 9007199254740992 9007199254740993
  obtain ⟨less, equal, greater, -⟩ := merged (by decide) (by decide)
  obtain ⟨-, -, small⟩ := comparison_by_widening 9007199254740992 9007199254740991
  exact ⟨less, equal, greater, small (by decide) (by decide)⟩

theorem neighbours_not_comparesExactly :
    ¬ComparesExactly 9007199254740992 9007199254740993 := by
  rw [comparesExactly_iff]
  decide

end Betik
