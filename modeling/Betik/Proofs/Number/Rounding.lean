/-
How a double rounds.  A number of more than fifty-three bits is divided by the power
of two that leaves fifty-three, and the nearest quotient is kept, of two the even one.
The quotient can be `2 ^ 53` itself, one bit too many; then the double has the least
significand and the next exponent.  `Holds` covers both cases, so that nothing after
it asks again which one occurred.
-/
import Mathlib
import Betik.Machine.Arithmetic

namespace Betik
namespace Number

open Float.Model Float.Model.UnpackedFloat

/-- How often a unit goes into a number, to the nearest whole, and of two to the even
one. -/
def nearestQuotient (n unit : Nat) : Nat :=
  if 2 * (n % unit) < unit ∨ 2 * (n % unit) = unit ∧ n / unit % 2 = 0 then n / unit
  else n / unit + 1

example : [13, 14, 15, 18].map (nearestQuotient · 4) = [3, 4, 4, 4] := by decide

theorem nearestQuotient_bounds (n unit : Nat) :
    n / unit ≤ nearestQuotient n unit ∧ nearestQuotient n unit ≤ n / unit + 1 := by
  unfold nearestQuotient
  split <;> omega

theorem nearestQuotient_mono {m n : Nat} (h : m ≤ n) (unit : Nat) :
    nearestQuotient m unit ≤ nearestQuotient n unit := by
  have below := nearestQuotient_bounds m unit
  have above := nearestQuotient_bounds n unit
  have le : m / unit ≤ n / unit := Nat.div_le_div_right h
  rcases Nat.lt_or_eq_of_le le with lt | same
  · omega
  · -- one whole part, so the larger number has the larger rest
    have whole := Nat.div_add_mod m unit
    have whole' := Nat.div_add_mod n unit
    rw [same] at whole
    unfold nearestQuotient
    rw [same]
    split <;> split <;> omega

/-- A common factor of the number and the unit changes nothing. -/
theorem nearestQuotient_mul (n unit : Nat) {factor : Nat} (pos : 0 < factor) :
    nearestQuotient (n * factor) (unit * factor) = nearestQuotient n unit := by
  unfold nearestQuotient
  rw [Nat.mul_div_mul_right _ _ pos, Nat.mul_mod_mul_right, ← Nat.mul_assoc]
  have lt : 2 * (n % unit) * factor < unit * factor ↔ 2 * (n % unit) < unit :=
    Nat.mul_lt_mul_right pos
  have eq : 2 * (n % unit) * factor = unit * factor ↔ 2 * (n % unit) = unit :=
    Nat.mul_left_inj (by omega)
  simp only [lt, eq]

theorem nearestQuotient_mul_self (n : Nat) {unit : Nat} (pos : 0 < unit) :
    nearestQuotient (n * unit) unit = n := by
  simp [nearestQuotient, Nat.mul_mod_left, Nat.mul_div_cancel n pos, pos]

/-- A unit that leaves fifty-three bits of a number leaves them after rounding too,
unless all of them carry. -/
theorem nearestQuotient_log2 {m k : Nat} (size : m.log2 = 52 + k) :
    2 ^ 52 ≤ nearestQuotient m (2 ^ k) ∧ nearestQuotient m (2 ^ k) ≤ 2 ^ 53 := by
  have bounds := nearestQuotient_bounds m (2 ^ k)
  have pos : 0 < 2 ^ k := Nat.two_pow_pos k
  have ne : m ≠ 0 := by
    rintro rfl
    rw [Nat.log2_zero] at size
    omega
  have lower : 2 ^ 52 * 2 ^ k ≤ m := by
    rw [← Nat.pow_add, ← size]
    exact Nat.log2_self_le ne
  have upper : m < 2 ^ 53 * 2 ^ k := by
    rw [← Nat.pow_add, show 53 + k = m.log2 + 1 by omega]
    exact Nat.lt_log2_self
  have least := (Nat.le_div_iff_mul_le pos).2 lower
  have most := (Nat.div_lt_iff_lt_mul pos).2 upper
  omega

/-! The format shifts one bit at a time and keeps two bits of what it drops: whether
that is at least half of the unit, and whether it is neither half nor nothing. -/

theorem shifted (n k : Nat) :
    ExtendedMantissa.ofMantissaAndAccuracy n .exact >>> k =
      ⟨n / 2 ^ k, decide (2 ^ k ≤ 2 * (n % 2 ^ k)),
        decide (2 * (n % 2 ^ k) ≠ 0 ∧ 2 * (n % 2 ^ k) ≠ 2 ^ k)⟩ := by
  change Nat.repeat _ k _ = _
  induction k with
  | zero => simp [Nat.repeat, ExtendedMantissa.ofMantissaAndAccuracy, Nat.mod_one]
  | succ k ih =>
    rw [Nat.repeat, ih, ExtendedMantissa.shiftRightOne]
    have rest : n % 2 ^ (k + 1) = n % 2 ^ k + 2 ^ k * (n / 2 ^ k % 2) := by
      rw [Nat.pow_succ, Nat.mod_mul]
    have small : n % 2 ^ k < 2 ^ k := Nat.mod_lt _ (Nat.two_pow_pos k)
    have double : 2 ^ (k + 1) = 2 ^ k * 2 := Nat.pow_succ ..
    have bit : n / 2 ^ k % 2 = 0 ∨ n / 2 ^ k % 2 = 1 := by omega
    rw [rest, Nat.div_div_eq_div_mul, double]
    generalize 2 ^ k = unit at *
    simp only [ExtendedMantissa.mk.injEq, true_and]
    rcases bit with bit | bit <;>
    · simp [bit]
      constructor
      · omega
      · grind

theorem mantissa_shifted (n k : Nat) :
    (ExtendedMantissa.ofMantissaAndAccuracy n .exact >>> k).mantissa = n / 2 ^ k := by
  rw [shifted]

theorem roundedMantissa_shifted (n k : Nat) :
    (ExtendedMantissa.ofMantissaAndAccuracy n .exact >>> k).roundedMantissa =
      nearestQuotient n (2 ^ k) := by
  rw [shifted, nearestQuotient, ExtendedMantissa.roundedMantissa]
  have pos : 0 < 2 ^ k := Nat.two_pow_pos k
  generalize n % 2 ^ k = rest
  generalize n / 2 ^ k = whole
  generalize 2 ^ k = unit at *
  rcases Nat.lt_trichotomy (2 * rest) unit with lt | rfl | gt
  · have below : ¬unit ≤ 2 * rest := by omega
    rw [if_pos (.inl lt), decide_eq_false below]
    cases decide (2 * rest ≠ 0 ∧ 2 * rest ≠ unit) <;> rfl
  · simp [Nat.ne_of_gt pos, ExtendedMantissa.accuracy, Accuracy.roundToNearestEven]
    split <;> omega
  · have above : unit ≤ 2 * rest ∧ 2 * rest ≠ 0 ∧ 2 * rest ≠ unit ∧ ¬2 * rest < unit := by omega
    simp [above, ExtendedMantissa.accuracy, Accuracy.roundToNearestEven]

theorem targetExponent_eq (m : Nat) (x : Int) :
    Format.binary64.targetExponent (totalExponent m x) = max (m.log2 + x - 52) (-1074) := by
  simp [Format.targetExponent, totalExponent, Format.mantissaBits, Format.minExponent]
  omega

theorem shiftToTargetExponent_eq (m : Nat) (x : Int) :
    shiftToTargetExponent .binary64 m x .exact =
      (ExtendedMantissa.ofMantissaAndAccuracy m .exact >>>
          (max (m.log2 + x - 52) (-1074) - x).toNat,
        x + (max (m.log2 + x - 52) (-1074) - x).toNat) := by
  rw [shiftToTargetExponent, targetExponent_eq, shiftToExponent]

/-- Rounding shifts twice, because the first rounding may carry into one more bit. -/
theorem round_of_shifts {s : Sign} {m r m' : Nat} {x x₁ x₂ : Int} {em₁ em₂ : ExtendedMantissa}
    (first : shiftToTargetExponent .binary64 m x .exact = (em₁, x₁))
    (rounded : em₁.roundedMantissa = r)
    (second : shiftToTargetExponent .binary64 r x₁ .exact = (em₂, x₂))
    (mantissa : em₂.mantissa = m') (pos : 0 < m') :
    roundWithAccuracy .binary64 s m x .exact = .finite s m' x₂ pos := by
  subst rounded mantissa
  simp only [roundWithAccuracy, first, second]
  rw [dif_neg (Nat.ne_of_gt pos)]

/-- The double of this sign and of the magnitude `r * 2 ^ x`, where `r` has all of the
fifty-three bits or is the number after them. -/
inductive Holds (s : Sign) (r : Nat) (x : Int) : UnpackedFloat → Prop
  | whole (pos : 0 < r) (lower : 2 ^ 52 ≤ r) (upper : r < 2 ^ 53) : Holds s r x (.finite s r x pos)
  | carried (full : r = 2 ^ 53) : Holds s r x (.finite s (2 ^ 52) (x + 1) (Nat.two_pow_pos 52))

/-- A number of fifty-three bits and `k` more rounds to the nearest multiple of
`2 ^ k`. -/
theorem holds_round (s : Sign) {m k : Nat} {x : Int} (size : m.log2 = 52 + k)
    (range : -1074 ≤ x + k) :
    Holds s (nearestQuotient m (2 ^ k)) (x + k) (roundWithAccuracy .binary64 s m x .exact) := by
  have first := shiftToTargetExponent_eq m x
  rw [show (max (m.log2 + x - 52) (-1074) - x).toNat = k by omega] at first
  have rounded := roundedMantissa_shifted m k
  obtain ⟨lower, upper⟩ := nearestQuotient_log2 size
  generalize nearestQuotient m (2 ^ k) = r at *
  have second := shiftToTargetExponent_eq r (x + k)
  rcases Nat.lt_or_eq_of_le upper with small | rfl
  · have pos : 0 < r := by omega
    have log : r.log2 = 52 := (Nat.log2_eq_iff (by omega)).2 ⟨lower, small⟩
    rw [show (max (r.log2 + (x + k) - 52) (-1074) - (x + k)).toNat = 0 by omega] at second
    have settled := round_of_shifts (s := s) first rounded second (by simp [mantissa_shifted]) pos
    rw [settled, Int.ofNat_zero, Int.add_zero]
    exact .whole pos lower small
  · have one : (max (((53 : Nat) : Int) + (x + k) - 52) (-1074) - (x + k)).toNat = 1 := by omega
    rw [Nat.log2_two_pow, one] at second
    rw [round_of_shifts first rounded second (mantissa_shifted _ 1) (by decide)]
    exact .carried rfl

/-! A rounded double whose exponent the format has is not changed by its encoding. -/

theorem unpack_pack {s : Sign} {m : Nat} {x : Int} (pos : 0 < m) (lower : 2 ^ 52 ≤ m)
    (upper : m < 2 ^ 53) (range : -1074 ≤ x ∧ x ≤ 971) :
    (Float.Model.pack (.finite s m x pos)).unpack = .finite s m x pos := by
  have log : m.log2 = 52 := (Nat.log2_eq_iff (by omega)).2 ⟨lower, upper⟩
  obtain ⟨field, biased⟩ : ∃ field : Nat, (field : Int) = x + 1075 :=
    ⟨(x + 1075).toNat, by omega⟩
  have bias : (x + Format.binary64.exponentBias +
      Format.binary64.mantissaBitsWithoutImplicit).toNat = field := by
    simp [Format.exponentBias]
    omega
  have packed : UnpackedFloat.pack .binary64 (.finite s m x pos) =
      packComponents .binary64 s (BitVec.ofNat 11 field) (BitVec.ofNat 52 m) := by
    simp only [UnpackedFloat.pack, bias, log]
    rw [if_neg (by simp; omega), if_pos (show 52 + 1 = Format.binary64.mantissaBits from rfl)]
  -- the field is neither of the two that stand for something else
  have value : (BitVec.ofNat 11 field).toNat = field := by
    rw [BitVec.toNat_ofNat, Nat.mod_eq_of_lt (by omega)]
  have notTop : BitVec.ofNat 11 field ≠ -1#11 := by
    intro h
    have := congrArg BitVec.toNat h
    rw [value] at this
    simp at this
    omega
  have notZero : BitVec.ofNat 11 field ≠ 0#11 := by
    intro h
    have := congrArg BitVec.toNat h
    rw [value] at this
    simp at this
    omega
  have hidden : (1#1 ++ BitVec.ofNat 52 m).toNat = m := by
    rw [BitVec.toNat_append, ← Nat.shiftLeft_add_eq_or_of_lt (BitVec.isLt _)]
    simp [Nat.shiftLeft_eq]
    omega
  rw [Float.Model.unpack, Float.Model.pack]
  simp only [packed]
  rw [UnpackedFloat.unpack]
  simp only [unpackExponent_packComponents, unpackMantissa_packComponents,
    unpackSign_packComponents, Sign.ofBitVec_toBitVec]
  rw [if_neg notTop, if_neg notZero]
  simp only [hidden, value, UnpackedFloat.finite.injEq, true_and]
  simp [Format.exponentBias]
  omega

namespace Holds

variable {s : Sign} {r : Nat} {x : Int} {u : UnpackedFloat}

theorem unpack_pack (h : Holds s r x u) (range : -1074 ≤ x ∧ x ≤ 970) :
    (Float.Model.pack u).unpack = u := by
  cases h with
  | whole pos lower upper => exact Number.unpack_pack pos lower upper (by omega)
  | carried full => exact Number.unpack_pack _ (by decide) (by decide) (by omega)

theorem neg (h : Holds s r x u) : Holds (-s) r x u.neg := by
  cases h with
  | whole pos lower upper => exact .whole pos lower upper
  | carried full => exact .carried full

end Holds
end Number
end Betik
