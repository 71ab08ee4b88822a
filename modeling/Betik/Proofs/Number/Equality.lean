/-
Equality of values.

Equality tells any two integers apart, but an integer and a decimal only as doubles.  So it
is not transitive: two integers that become one double equal the same decimal and not each
other.  This is the only exception, and `Merges` names it.  Symmetry has none, and neither
has reflexivity but for not-a-number.
-/
import Betik.Proofs.Number.Comparison

namespace Betik

namespace Number

theorem beq_comm (x y : Float) : (x == y) = (y == x) := by
  rw [Bool.eq_iff_iff, Float.beq_iff_ne_nan_and_eq, Float.beq_iff_ne_nan_and_eq]
  tauto

/-- Two doubles that are equal are one, or the two zeros. -/
theorem beq_congr {x y : Float} (same : x == y) (z : Float) : (x == z) = (y == z) := by
  rw [Float.beq_iff_ne_nan_and_eq] at same
  rw [Bool.eq_iff_iff, Float.beq_iff_ne_nan_and_eq, Float.beq_iff_ne_nan_and_eq]
  obtain ⟨hx, hy, rfl | ⟨rfl, rfl⟩ | ⟨rfl, rfl⟩⟩ := same <;> tauto

theorem beq_ofInt_iff {a b : Int} (ha : a.natAbs.log2 ≤ 64) (hb : b.natAbs.log2 ≤ 64) :
    Float.ofInt a == Float.ofInt b ↔ widened a = widened b := by
  have order := (stands_ofInt ha).compare_eq (stands_ofInt hb)
  change Float.Model.UnpackedFloat.beq _ _ = true ↔ _
  rw [Float.Model.UnpackedFloat.beq, order, beq_iff_eq, Option.some.injEq, Int.compare_eq_eq]

end Number

namespace Value

def isNaN : Value → Bool
  | decimal x => x.isNaN
  | _ => false

/-- Two integers on either side of a decimal. -/
inductive Merges : Value → Value → Value → Prop
  | integers {m n : Int64} (x : Float) (different : m ≠ n) :
    Merges (integer m) (decimal x) (integer n)

theorem same_self (a : Value) : a.same a ↔ ¬a.isNaN := by
  cases a with
  | decimal x =>
    simp only [same, isNaN, number?, Float.isNaN_eq_decide_eq_nan, decide_eq_true_eq]
    exact Float.beq_self_iff
  | _ => simp [same, isNaN]

theorem same_comm (a b : Value) : a.same b = b.same a := by
  cases a <;> cases b
  case integer.integer | text.text | boolean.boolean => exact Bool.beq_comm
  case integer.decimal | decimal.integer | decimal.decimal => exact Number.beq_comm _ _
  all_goals rfl

/-- A decimal is compared as a double with every number, so a number equal to it can stand
for it there. -/
theorem same_decimal {a : Value} {x y : Float} (number : a.number? = some y) :
    a.same (decimal x) = (y == x) := by
  cases a <;> cases number <;> rfl

theorem number?_of_same {a : Value} {x : Float} (h : a.same (decimal x)) :
    ∃ y, a.number? = some y := by
  cases a with
  | integer n => exact ⟨_, rfl⟩
  | decimal y => exact ⟨y, rfl⟩
  | _ => cases h

/-- Equality of two values that are no decimals is exact. -/
theorem eq_of_same {a b : Value} (ha : ∀ x, a ≠ decimal x) (hb : ∀ x, b ≠ decimal x)
    (h : a.same b) : a = b := by
  cases a <;> cases b
  case integer.integer | text.text | boolean.boolean => rw [eq_of_beq h]
  case null.null => rfl
  case decimal.integer | decimal.decimal => exact absurd rfl (ha _)
  case integer.decimal => exact absurd rfl (hb _)
  all_goals cases h

/-- Without two integers on either side of a decimal, equality is transitive. -/
theorem same_trans {a b c : Value} (h : a.same b) (h' : b.same c) (apart : ¬Merges a b c) :
    a.same c := by
  cases b with
  | decimal x =>
    obtain ⟨y, hy⟩ := number?_of_same h
    rw [same_decimal hy] at h
    rw [same_comm] at h'
    obtain ⟨z, hz⟩ := number?_of_same h'
    rw [same_decimal hz, Number.beq_comm] at h'
    cases c with
    | decimal w =>
      cases hz
      rwa [same_decimal hy, Number.beq_congr h]
    | integer n =>
      cases a with
      | decimal v =>
        cases hy
        rwa [same_comm, same_decimal hz, Number.beq_comm, Number.beq_congr h]
      | integer m =>
        refine beq_iff_eq.2 (Classical.byContradiction fun different => ?_)
        exact apart (.integers x different)
      | _ => cases hy
    | _ => cases hz
  | _ =>
    -- a decimal can only be on one side of a value that is none
    cases a with
    | decimal y =>
      cases c with
      | decimal z =>
        rw [same_comm] at h
        obtain ⟨w, hw⟩ := number?_of_same h
        rw [same_decimal hw] at h h'
        rwa [same_decimal rfl, ← Number.beq_congr h]
      | _ => rwa [← eq_of_same (by simp) (by simp) h']
    | _ => rwa [eq_of_same (by simp) (by simp) h]

end Value

/-! ## Values in place of equal ones -/

/-- It makes no difference to an equality or to an inequality with the third value, on either
side of it, which of the two is compared. -/
def Value.Interchangeable (a b c : Value) : Prop :=
  ∀ op : Operator, op = .equal ∨ op = .notEqual →
    op.apply a c = op.apply b c ∧ op.apply c a = op.apply c b

namespace Value

theorem interchangeable_iff {a b c : Value} : Interchangeable a b c ↔ a.same c = b.same c := by
  constructor
  · intro h
    have applied := (h .equal (.inl rfl)).1
    simpa [Operator.apply] using applied
  · rintro same op (rfl | rfl)
    · simp [Operator.apply, same, same_comm c]
    · simp [Operator.apply, same, same_comm c]

theorem Merges.not_same {a b c : Value} (h : Merges a b c) : ¬a.same c := by
  cases h with
  | integers x different => simpa [same] using different

theorem same_congr_iff {a b c : Value} (h : a.same b) :
    a.same c = b.same c ↔ ¬(b.same c ∧ Merges a b c) ∧ ¬(a.same c ∧ Merges b a c) := by
  have h' : b.same a := by rwa [same_comm]
  constructor
  · intro same
    refine ⟨fun ⟨hb, merged⟩ => merged.not_same (same ▸ hb), fun ⟨ha, merged⟩ => ?_⟩
    exact merged.not_same (same ▸ ha)
  · rintro ⟨forth, back⟩
    rw [Bool.eq_iff_iff]
    exact ⟨fun ha => same_trans h' ha fun merged => back ⟨ha, merged⟩,
      fun hb => same_trans h hb fun merged => forth ⟨hb, merged⟩⟩

/-- Which integers equal one decimal: those that become one double. -/
theorem exists_between_iff (m n : Int64) :
    (∃ x, (integer m).same (decimal x) ∧ (decimal x).same (integer n)) ↔
      Number.widened m.toInt = Number.widened n.toInt := by
  have merged := Number.beq_ofInt_iff (log2_natAbs_toInt m) (log2_natAbs_toInt n)
  have self := Number.beq_ofInt_iff (log2_natAbs_toInt m) (log2_natAbs_toInt m)
  constructor
  · rintro ⟨x, left, right⟩
    exact merged.1 ((Number.beq_congr left _).trans right)
  · intro same
    exact ⟨Float.ofInt m.toInt, self.2 rfl, merged.2 same⟩

end Value

open Value

/-- Equality of values is reflexive but for not-a-number, and symmetric.  It is transitive
but for two integers that are different and equal the same decimal, and these make all the
difference that a value can make in place of an equal one.  There are such integers only if
they become one double, so none up to `2 ^ 53` on either side. -/
theorem equality_of_values (a b c : Value) :
    (a.same a ↔ ¬a.isNaN) ∧ a.same b = b.same a ∧
    (a.same b → b.same c → (a.same c ↔ ¬Merges a b c)) ∧
    (a.same b → (Interchangeable a b c ↔
      ¬(b.same c ∧ Merges a b c) ∧ ¬(a.same c ∧ Merges b a c))) ∧
    (∀ m n : Int64, (∃ x, (integer m).same (decimal x) ∧ (decimal x).same (integer n)) ↔
      Number.widened m.toInt = Number.widened n.toInt) ∧
    ∀ (m n : Int64) x, m.toInt.natAbs ≤ 2 ^ 53 → n.toInt.natAbs ≤ 2 ^ 53 →
      (integer m).same (decimal x) → (decimal x).same (integer n) → m = n := by
  refine ⟨same_self a, same_comm a b, fun h h' => ⟨fun same merged => merged.not_same same,
    same_trans h h'⟩, fun h => interchangeable_iff.trans (same_congr_iff h),
    exists_between_iff, fun m n x small small' left right => ?_⟩
  have merged := (exists_between_iff m n).1 ⟨x, left, right⟩
  rw [Number.widened_eq_self small, Number.widened_eq_self small'] at merged
  exact Int64.toInt_inj.1 merged

/-- The least integer that no double equals, beside the decimal that it becomes. -/
theorem equality_of_values_neighbours :
    let a : Value := .integer 9007199254740993
    let b : Value := .decimal 9007199254740992
    let c : Value := .integer 9007199254740992
    a.same b ∧ b.same c ∧ Merges a b c ∧ ¬a.same c ∧ ¬Interchangeable a b c ∧
      Interchangeable b c (.decimal 0.5) := by
  intro a b c
  have left : a.same b := by decide
  have right : b.same c := by decide
  have merged : Merges a b c := .integers _ (by decide)
  obtain ⟨-, -, trans, congr, -⟩ := equality_of_values a b c
  refine ⟨left, right, merged, fun same => (trans left right).1 same merged, ?_, ?_⟩
  · exact fun same => ((congr left).1 same).1 ⟨right, merged⟩
  · have apart (d e : Value) : ¬Merges d e (.decimal 0.5) := fun merged => by cases merged
    obtain ⟨-, -, -, congr', -⟩ := equality_of_values b c (.decimal 0.5)
    exact (congr' right).2 ⟨fun h => apart b c h.2, fun h => apart c b h.2⟩

/-- Equality of values that are not not-a-number is no equivalence. -/
theorem same_not_transitive :
    ¬∀ a b c : Value, ¬a.isNaN → ¬b.isNaN → ¬c.isNaN → a.same b → b.same c → a.same c := by
  intro transitive
  have same := transitive (.integer 9007199254740993) (.decimal 9007199254740992)
    (.integer 9007199254740992) (by decide) (by decide) (by decide) (by decide) (by decide)
  exact absurd same (by decide)

end Betik
