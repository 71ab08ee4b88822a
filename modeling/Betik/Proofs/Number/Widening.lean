/-
Which integer an integer becomes as a double.  `widened` says it in whole numbers:
everything behind the fifty-three leading bits is rounded away.  Two routes lead to
the double, one for integers below `2 ^ 53`, which are converted and multiplied by
one, and one for larger ones; `stands_ofInt` is where they meet, and from there on
doubles of integers compare as the widened integers do.
-/
import Betik.Proofs.Number.Rounding

namespace Betik
namespace Number

open Float.Model Float.Model.UnpackedFloat

/-- The number with all but its fifty-three leading bits rounded away. -/
def rounded (n : Nat) : Nat :=
  nearestQuotient n (2 ^ (n.log2 - 52)) * 2 ^ (n.log2 - 52)

/-- The integer that an integer becomes as a double. -/
def widened (n : Int) : Int :=
  n.sign * rounded n.natAbs

theorem rounded_of_log2 {n : Nat} (log : n.log2 ≤ 52) : rounded n = n := by
  have whole := nearestQuotient_mul_self n Nat.one_pos
  rw [rounded, show n.log2 - 52 = 0 by omega, Nat.pow_zero, Nat.mul_one]
  rwa [Nat.mul_one] at whole

theorem rounded_mono {m n : Nat} (h : m ≤ n) : rounded m ≤ rounded n := by
  by_cases zero : m = 0
  · subst zero
    exact Nat.zero_le _
  have logs : m.log2 ≤ n.log2 :=
    (Nat.le_log2 (by omega)).2 (Nat.le_trans (Nat.log2_self_le zero) h)
  rcases Nat.lt_or_eq_of_le logs with lt | same
  · rcases Nat.le_total n.log2 52 with log | log
    · rwa [rounded_of_log2 log, rounded_of_log2 (Nat.le_trans logs log)]
    · -- the power of two that the larger number starts with lies between
      have below : rounded m ≤ 2 ^ n.log2 := by
        rcases Nat.le_total m.log2 52 with log' | log'
        · rw [rounded_of_log2 log']
          exact Nat.le_trans (Nat.le_of_lt Nat.lt_log2_self) (Nat.pow_le_pow_right (by decide) lt)
        · calc rounded m
            _ ≤ 2 ^ 53 * 2 ^ (m.log2 - 52) :=
              Nat.mul_le_mul_right _ (nearestQuotient_log2 (by omega)).2
            _ = 2 ^ (m.log2 + 1) := by rw [← Nat.pow_add]; congr 1; omega
            _ ≤ 2 ^ n.log2 := Nat.pow_le_pow_right (by decide) lt
      calc rounded m
        _ ≤ 2 ^ n.log2 := below
        _ = 2 ^ 52 * 2 ^ (n.log2 - 52) := by rw [← Nat.pow_add]; congr 1; omega
        _ ≤ rounded n := Nat.mul_le_mul_right _ (nearestQuotient_log2 (by omega)).1
  · rw [rounded, rounded, same]
    exact Nat.mul_le_mul_right _ (nearestQuotient_mono h _)

theorem widened_mono {a b : Int} (h : a ≤ b) : widened a ≤ widened b := by
  unfold widened
  rcases Int.lt_trichotomy a 0 with neg | rfl | pos
  · rw [Int.sign_eq_neg_one_of_neg neg]
    rcases Int.lt_trichotomy b 0 with neg' | rfl | pos'
    · have mono := rounded_mono (show b.natAbs ≤ a.natAbs by omega)
      rw [Int.sign_eq_neg_one_of_neg neg']
      omega
    · rw [Int.sign_zero]
      omega
    · rw [Int.sign_eq_one_of_pos pos']
      omega
  · rw [Int.sign_zero, Int.zero_mul]
    exact Int.mul_nonneg (Int.sign_nonneg_iff.2 h) (Int.natCast_nonneg _)
  · have mono := rounded_mono (show a.natAbs ≤ b.natAbs by omega)
    rw [Int.sign_eq_one_of_pos pos, Int.sign_eq_one_of_pos (by omega)]
    omega

theorem log2_le_of_lt {n k : Nat} (small : n < 2 ^ (k + 1)) : n.log2 ≤ k := by
  by_cases zero : n = 0
  · rw [zero, Nat.log2_zero]
    exact Nat.zero_le k
  · exact Nat.le_of_lt_succ ((Nat.log2_lt zero).2 small)

/-- Up to `2 ^ 53` on either side nothing is rounded away. -/
theorem widened_eq_self {n : Int} (small : n.natAbs ≤ 2 ^ 53) : widened n = n := by
  have kept : rounded n.natAbs = n.natAbs := by
    rcases Nat.lt_or_eq_of_le small with lt | eq
    · exact rounded_of_log2 (log2_le_of_lt lt)
    · rw [eq]
      decide
  rw [widened, kept, Int.sign_mul_natAbs]

/-! Doubles that hold a natural number.  The number is scaled so that its leading bit
is the fifty-third before it is rounded. -/

/-- The fifty-three leading bits of a number, rounded. -/
def significand (n : Nat) : Nat :=
  nearestQuotient (n * 2 ^ 52) (2 ^ n.log2)

theorem significand_of_log2 {n : Nat} (log : n.log2 ≤ 52) :
    significand n = n * 2 ^ (52 - n.log2) := by
  have whole : 2 ^ 52 = 2 ^ (52 - n.log2) * 2 ^ n.log2 := by
    rw [← Nat.pow_add]
    congr 1
    omega
  rw [significand, whole, ← Nat.mul_assoc, nearestQuotient_mul_self _ (Nat.two_pow_pos _)]

theorem log2_mul_two_pow {n : Nat} (h : n ≠ 0) (k : Nat) : (n * 2 ^ k).log2 = n.log2 + k := by
  have pos : 0 < 2 ^ k := Nat.two_pow_pos k
  refine (Nat.log2_eq_iff (Nat.mul_ne_zero h (Nat.ne_of_gt pos))).2 ⟨?_, ?_⟩
  · rw [Nat.pow_add]
    exact Nat.mul_le_mul_right _ (Nat.log2_self_le h)
  · rw [show n.log2 + k + 1 = n.log2 + 1 + k by omega, Nat.pow_add]
    exact Nat.mul_lt_mul_of_pos_right Nat.lt_log2_self pos

/-- The significand of a number that no rounding changes. -/
theorem significand_log2 {n : Nat} (h : n ≠ 0) (log : n.log2 ≤ 52) : (significand n).log2 = 52 := by
  rw [significand_of_log2 log, log2_mul_two_pow h]
  omega

theorem holds_toFloat {n : Nat} (h : n ≠ 0) (small : n < 2 ^ 53) :
    Holds .positive (significand n) (n.log2 - 52) n.toUInt64.toFloat.toModel.unpack := by
  have log := log2_le_of_lt small
  have held := holds_round .positive (m := significand n) (k := 0) (x := n.log2 - 52)
    (significand_log2 h log) (by omega)
  have whole := nearestQuotient_mul_self (significand n) Nat.one_pos
  rw [Nat.mul_one] at whole
  rw [Nat.pow_zero, whole, Int.ofNat_zero, Int.add_zero] at held
  have word : n.toUInt64.toNat = n := by
    simp
    omega
  have positive : compare (n : Int) 0 = .gt := Int.compare_eq_gt.2 (by omega)
  have converted : UnpackedFloat.ofUInt64 .binary64 n.toUInt64 =
      roundWithAccuracy .binary64 .positive (significand n) (n.log2 - 52) .exact := by
    rw [UnpackedFloat.ofUInt64, word, UnpackedFloat.ofNat, UnpackedFloat.ofInt,
      UnpackedFloat.normalize, positive]
    simp only [UnpackedFloat.round, targetExponent_eq, decreaseExponent, Int.toNat_natCast]
    have shift : (0 - max ((n.log2 : Int) + 0 - 52) (-1074)).toNat = 52 - n.log2 := by omega
    rw [shift, Nat.shiftLeft_eq, significand_of_log2 log]
    congr 1
    omega
  change Holds _ _ _ (Float.Model.pack (UnpackedFloat.ofUInt64 .binary64 n.toUInt64)).unpack
  rw [converted, held.unpack_pack (by omega)]
  exact held

theorem unpack_one : (Float.ofBits 4607182418800017408).toModel.unpack =
    .finite .positive (2 ^ 52) (-52) (Nat.two_pow_pos 52) := rfl

/-- The product with one, which is rounded again, is the converted number. -/
theorem holds_small {n : Nat} (h : n ≠ 0) (small : n < 2 ^ 53) :
    Holds .positive (significand n) (n.log2 - 52) (Float.ofNat n).toModel.unpack := by
  have log := log2_le_of_lt small
  have lead := significand_log2 h log
  have ne : significand n ≠ 0 := by
    intro zero
    rw [zero, Nat.log2_zero] at lead
    omega
  have size : (significand n * 2 ^ 52).log2 = 52 + 52 := by
    rw [log2_mul_two_pow ne, lead]
  have held := holds_round .positive (x := (n.log2 : Int) - 52 + -52) size (by omega)
  have exponent : (n.log2 : Int) - 52 + -52 + (52 : Nat) = n.log2 - 52 := by omega
  rw [nearestQuotient_mul_self _ (Nat.two_pow_pos 52), exponent] at held
  have packed := held.unpack_pack (by omega)
  have product : (Float.ofNat n).toModel = Float.Model.pack (UnpackedFloat.mul .binary64
      n.toUInt64.toFloat.toModel.unpack (Float.ofBits 4607182418800017408).toModel.unpack) := by
    have branch : n < 2 ^ 53 ∧ 0 ≤ 22 := ⟨small, by decide⟩
    change (Float.ofScientific n false 0).toModel = _
    rw [Float.ofScientific, dif_pos branch]
    rfl
  have converted := holds_toFloat h small
  rw [product, unpack_one]
  generalize n.toUInt64.toFloat.toModel.unpack = u at converted ⊢
  cases converted with
  | whole pos =>
    simp only [UnpackedFloat.mul]
    change Holds _ _ _ (Float.Model.pack (roundWithAccuracy _ .positive _ _ _)).unpack
    rw [packed]
    exact held
  | carried full =>
    rw [full, Nat.log2_two_pow] at lead
    omega

theorem holds_large {n : Nat} (large : 2 ^ 53 ≤ n) (bounded : n.log2 ≤ 64) :
    Holds .positive (significand n) (n.log2 - 52) (Float.ofNat n).toModel.unpack := by
  have h : n ≠ 0 := by omega
  have size : (n * 2 ^ 53).log2 = 52 + (n.log2 + 1) := by
    rw [log2_mul_two_pow h]
    omega
  have held := holds_round .positive (x := -53) size (by omega)
  have quotient : nearestQuotient (n * 2 ^ 53) (2 ^ (n.log2 + 1)) = significand n := by
    have scaled := nearestQuotient_mul (n * 2 ^ 52) (2 ^ n.log2) Nat.two_pos
    rwa [Nat.mul_assoc, ← Nat.pow_succ, ← Nat.pow_succ] at scaled
  rw [quotient, show (-53 : Int) + (n.log2 + 1 : Nat) = n.log2 - 52 by omega] at held
  have scientific : UnpackedFloat.ofScientific .binary64 n 0 =
      roundWithAccuracy .binary64 .positive (n * 2 ^ 53) (-53) .exact := by
    have exponents : (2 : Int) ^ Format.binary64.exponentBits = 2048 := rfl
    have mantissa : Format.binary64.mantissaBits = 53 := rfl
    rw [UnpackedFloat.ofScientific, dif_neg h, if_neg (by decide), if_neg (by omega),
      if_pos (by decide)]
    simp only [UnpackedFloat.mul, mantissa, Nat.shiftLeft_eq, Int.toNat_zero, Nat.pow_zero,
      Nat.mul_one, Int.add_zero]
    rfl
  have branch : ¬(n < 2 ^ 53 ∧ 0 ≤ 22) := by omega
  have converted : (Float.ofNat n).toModel =
      Float.Model.pack (UnpackedFloat.ofScientific .binary64 n 0) := by
    change (Float.ofScientific n false 0).toModel = _
    rw [Float.ofScientific, dif_neg branch]
    rfl
  rw [converted, scientific, held.unpack_pack (by omega)]
  exact held

theorem holds_ofNat {n : Nat} (h : n ≠ 0) (bounded : n.log2 ≤ 64) :
    Holds .positive (significand n) (n.log2 - 52) (Float.ofNat n).toModel.unpack := by
  rcases Nat.lt_or_ge n (2 ^ 53) with small | large
  · exact holds_small h small
  · exact holds_large large bounded

/-! Doubles that are integers.  They compare by sign, exponent and significand, in this
order, which is the order of the integers because every significand has its leading
bit. -/

def magnitude (m : Nat) (x : Int) : Nat :=
  m * 2 ^ (x + 52).toNat

theorem magnitude_significand (n : Nat) :
    magnitude (significand n) (n.log2 - 52) = rounded n * 2 ^ 52 := by
  rw [magnitude, show ((n.log2 : Int) - 52 + 52).toNat = n.log2 by omega]
  rcases Nat.le_total n.log2 52 with log | log
  · rw [rounded_of_log2 log, significand_of_log2 log, Nat.mul_assoc, ← Nat.pow_add,
      Nat.sub_add_cancel log]
  · obtain ⟨k, size⟩ : ∃ k, n.log2 = k + 52 := ⟨n.log2 - 52, by omega⟩
    rw [rounded, significand, size, Nat.add_sub_cancel, Nat.pow_add,
      nearestQuotient_mul _ _ (Nat.two_pow_pos 52), Nat.mul_assoc]

/-- A smaller exponent makes a smaller number, whatever the significands are. -/
theorem magnitude_lt {m m' : Nat} {x x' : Int} (upper : m < 2 ^ 53) (lower : 2 ^ 52 ≤ m')
    (range : -52 ≤ x) (lt : x < x') : magnitude m x < magnitude m' x' := by
  obtain ⟨d, gap⟩ : ∃ d : Nat, (x' + 52).toNat = (x + 52).toNat + 1 + d :=
    ⟨(x' - x - 1).toNat, by omega⟩
  rw [magnitude, magnitude, gap, Nat.pow_add, Nat.pow_succ]
  have pos : 0 < 2 ^ (x + 52).toNat := Nat.two_pow_pos _
  generalize 2 ^ (x + 52).toNat = unit at *
  calc m * unit
    _ < 2 ^ 53 * unit := Nat.mul_lt_mul_of_pos_right upper pos
    _ = 2 ^ 52 * (unit * 2) := by omega
    _ ≤ m' * (unit * 2) := Nat.mul_le_mul_right _ lower
    _ ≤ m' * (unit * 2 * 2 ^ d) :=
      Nat.mul_le_mul_left _ (Nat.le_mul_of_pos_right _ (Nat.two_pow_pos d))

theorem compare_mul {m n k : Nat} (pos : 0 < k) : compare (m * k) (n * k) = compare m n := by
  simpa only [cmp_eq_compare] using cmp_mul_pos_right pos m n

theorem compare_magnitude {m m' : Nat} {x x' : Int} (lower : 2 ^ 52 ≤ m) (upper : m < 2 ^ 53)
    (lower' : 2 ^ 52 ≤ m') (upper' : m' < 2 ^ 53) (range : -52 ≤ x) (range' : -52 ≤ x') :
    (compare x x').then (compare m m') = compare (magnitude m x) (magnitude m' x') := by
  rcases Int.lt_trichotomy x x' with lt | rfl | gt
  · rw [Int.compare_eq_lt.2 lt, Nat.compare_eq_lt.2 (magnitude_lt upper lower' range lt)]
    rfl
  · rw [Int.compare_eq_eq.2 rfl, magnitude, magnitude, compare_mul (Nat.two_pow_pos _)]
    rfl
  · rw [Int.compare_eq_gt.2 gt, Nat.compare_eq_gt.2 (magnitude_lt upper' lower range' gt)]
    rfl

inductive Stands : UnpackedFloat → Int → Prop
  | zero (s : Sign) : Stands (.zero s) 0
  | finite {s : Sign} {m n : Nat} {x : Int} (pos : 0 < m) (lower : 2 ^ 52 ≤ m) (upper : m < 2 ^ 53)
    (range : -52 ≤ x) (size : magnitude m x = n * 2 ^ 52) : Stands (.finite s m x pos) (s.apply n)

theorem Holds.stands {s : Sign} {r n : Nat} {x : Int} {u : UnpackedFloat} (h : Holds s r x u)
    (range : -52 ≤ x) (size : magnitude r x = n * 2 ^ 52) : Stands u (s.apply n) := by
  cases h with
  | whole pos lower upper => exact .finite pos lower upper range size
  | carried full =>
    subst full
    refine .finite _ (by decide) (by decide) (by omega) ?_
    rw [← size, magnitude, magnitude, show (x + 1 + 52).toNat = (x + 52).toNat + 1 by omega,
      Nat.pow_succ]
    omega

theorem compare_natCast (n n' : Nat) : compare (n : Int) n' = compare n n' := by
  simpa only [cmp_eq_compare] using Nat.strictMono_cast.cmp_map_eq n n'

theorem compare_neg (a b : Int) : compare (-a) (-b) = (compare a b).swap := by
  have reverses : StrictAnti fun n : Int => -n := fun _ _ => Int.neg_lt_neg
  have mirrored := reverses.cmp_map_eq a b
  rwa [← cmp_swap a b, cmp_eq_compare, cmp_eq_compare] at mirrored

theorem Stands.compare_eq {u v : UnpackedFloat} {a b : Int} (hu : Stands u a) (hv : Stands v b) :
    u.compare v = some (compare a b) := by
  have positive {m n : Nat} {x : Int} (pos : 0 < m) (size : magnitude m x = n * 2 ^ 52) :
      0 < n := by
    have scaled := Nat.mul_pos pos (Nat.two_pow_pos (x + 52).toNat)
    unfold magnitude at size
    omega
  cases hu with
  | zero s =>
    cases hv with
    | zero s' => rfl
    | @finite s' _ n' _ pos' _ _ _ size' =>
      have some' := positive pos' size'
      cases s' with
      | positive => exact congrArg some (Int.compare_eq_lt.2 (by simp [Sign.apply]; omega)).symm
      | negative => exact congrArg some (Int.compare_eq_gt.2 (by simp [Sign.apply]; omega)).symm
  | @finite s m n x pos lower upper range size =>
    have some := positive pos size
    cases hv with
    | zero s' =>
      cases s with
      | positive => exact congrArg _ (Int.compare_eq_gt.2 (by simp [Sign.apply]; omega)).symm
      | negative => exact congrArg _ (Int.compare_eq_lt.2 (by simp [Sign.apply]; omega)).symm
    | @finite s' m' n' x' pos' lower' upper' range' size' =>
      have some' := positive pos' size'
      have order : (compare x x').then (compare m m') = compare n n' := by
        rw [compare_magnitude lower upper lower' upper' range range', size, size',
          compare_mul (Nat.two_pow_pos 52)]
      cases s <;> cases s'
      case positive.positive =>
        simp only [UnpackedFloat.compare, order, Sign.apply, compare_natCast]
      case positive.negative =>
        exact congrArg _ (Int.compare_eq_gt.2 (by simp [Sign.apply]; omega)).symm
      case negative.positive =>
        exact congrArg _ (Int.compare_eq_lt.2 (by simp [Sign.apply]; omega)).symm
      case negative.negative =>
        simp only [UnpackedFloat.compare, order, Sign.apply, compare_neg, compare_natCast]

/-- No carry of a number this large leaves the range of the format. -/
theorem stands_ofInt {n : Int} (bounded : n.natAbs.log2 ≤ 64) :
    Stands (Float.ofInt n).toModel.unpack (widened n) := by
  match n with
  | .ofNat 0 => exact .zero .positive
  | .ofNat (n + 1) =>
    have held := holds_ofNat (n := n + 1) (by omega) bounded
    have stands := held.stands (by omega) (magnitude_significand (n + 1))
    have same : widened (.ofNat (n + 1)) = rounded (n + 1) := Int.one_mul _
    rw [same]
    exact stands
  | .negSucc n =>
    have log : (n + 1).log2 ≤ 64 := bounded
    have held := (holds_ofNat (n := n + 1) (by omega) log).neg
    have stands := held.stands (by omega) (magnitude_significand (n + 1))
    have same : widened (.negSucc n) = -rounded (n + 1) := Int.neg_one_mul _
    rw [same]
    change Stands (Float.Model.pack _).unpack _
    rw [held.unpack_pack (by omega)]
    exact stands

section

variable {a b : Int} (ha : a.natAbs.log2 ≤ 64) (hb : b.natAbs.log2 ≤ 64)

include ha hb

theorem lt_ofInt_iff : Float.ofInt a < Float.ofInt b ↔ widened a < widened b := by
  have order := (stands_ofInt ha).compare_eq (stands_ofInt hb)
  change decide (Float.Model.lt _ _ = true) = true ↔ _
  rw [decide_eq_true_iff, Float.Model.lt, UnpackedFloat.lt, order, beq_iff_eq, Option.some.injEq,
    Int.compare_eq_lt]

theorem le_ofInt_iff : Float.ofInt a ≤ Float.ofInt b ↔ widened a ≤ widened b := by
  have order := (stands_ofInt ha).compare_eq (stands_ofInt hb)
  change decide (Float.Model.le _ _ = true) = true ↔ _
  rw [decide_eq_true_iff, Float.Model.le, UnpackedFloat.le, order, Option.any_some,
    ← Int.compare_ne_gt]
  cases compare (widened a) (widened b) <;> decide

end

end Number
end Betik
