/-
Reading a decimal gives a number.

Of the ways to not-a-number, infinity by infinity, infinity by zero and zero by zero,
reading takes none: it multiplies and divides by powers of ten only.
-/
import Mathlib
import Betik.Number.Reader

namespace Betik
namespace Number

open Float.Model Float.Model.UnpackedFloat

/-- Where the encoding of a number has the greatest exponent, it is infinite. -/
theorem unpackMantissa_pack {u : UnpackedFloat} (number : u ≠ .notANumber)
    (top : unpackExponent (UnpackedFloat.pack .binary64 u) = -1#11) :
    unpackMantissa (UnpackedFloat.pack .binary64 u) = 0#52 := by
  cases u with
  | notANumber => exact absurd rfl number
  | infinity s => rw [UnpackedFloat.pack, packedInfinity, unpackMantissa_packComponents]; rfl
  | zero s =>
    rw [UnpackedFloat.pack, packedZero, unpackExponent_packComponents] at top
    exact absurd top (by decide)
  | finite s m e positive =>
    simp only [UnpackedFloat.pack] at top ⊢
    generalize (e + Format.binary64.exponentBias +
      Format.binary64.mantissaBitsWithoutImplicit).toNat = biased at top ⊢
    split at top
    · rename_i large
      rw [if_pos large, packedInfinity, unpackMantissa_packComponents]
      rfl
    · rename_i inside
      split at top
      · rw [unpackExponent_packComponents] at top
        have field := congrArg BitVec.toNat top
        rw [BitVec.toNat_ofNat] at field
        have most : (-1#11).toNat = 2047 := by decide
        have size : (2 : Nat) ^ Format.binary64.exponentBits = 2048 := rfl
        omega
      · rw [unpackExponent_packComponents] at top
        exact absurd top (by decide)

theorem unpack_pack_ne {u : UnpackedFloat} (number : u ≠ .notANumber) :
    (Float.Model.pack u).unpack ≠ .notANumber := by
  intro none
  have bits : UnpackedFloat.pack .binary64 u = packedNaN .binary64 :=
    (unpack_eq_notANumber_iff_of_valid (Float.Model.pack u).valid).1 none
  have top := @isNaNBits_packedNaN .binary64
  rw [← bits, isNaNBits, decide_eq_true_eq] at top
  exact top.2 (unpackMantissa_pack number top.1)

theorem roundWithAccuracy_ne (s : Sign) (m : Nat) (e : Int) (accuracy : Accuracy) :
    roundWithAccuracy .binary64 s m e accuracy ≠ .notANumber := by
  simp only [roundWithAccuracy]
  split <;> simp

/-- Whether the double is neither infinite nor zero, like all powers of ten. -/
def isProper : UnpackedFloat → Bool
  | .finite .. => true
  | _ => false

theorem mul_ne {u v : UnpackedFloat} (number : u ≠ .notANumber) (proper : isProper v) :
    UnpackedFloat.mul .binary64 u v ≠ .notANumber := by
  cases v with
  | finite =>
    cases u with
    | notANumber => exact absurd rfl number
    | infinity | zero => simp [UnpackedFloat.mul]
    | finite => exact roundWithAccuracy_ne _ _ _ _
  | _ => cases proper

theorem div_ne {u v : UnpackedFloat} (number : u ≠ .notANumber) (proper : isProper v) :
    UnpackedFloat.div .binary64 u v ≠ .notANumber := by
  cases v with
  | finite =>
    cases u with
    | notANumber => exact absurd rfl number
    | infinity | zero => simp [UnpackedFloat.div]
    | finite => exact roundWithAccuracy_ne _ _ _ _
  | _ => cases proper

theorem ofScientific_ne (m : Nat) (e : Int) :
    UnpackedFloat.ofScientific .binary64 m e ≠ .notANumber := by
  unfold UnpackedFloat.ofScientific
  split_ifs
  · simp
  · simp
  · simp
  · exact mul_ne (by simp) rfl
  · exact div_ne (by simp) rfl

theorem ofNat_ne (n : Nat) : UnpackedFloat.ofNat .binary64 n ≠ .notANumber := by
  simp only [UnpackedFloat.ofNat, UnpackedFloat.ofInt, UnpackedFloat.normalize]
  split
  · exact roundWithAccuracy_ne _ _ _ _
  · simp
  · exact roundWithAccuracy_ne _ _ _ _

theorem isProper_powerOfTen : ∀ i : Fin 23,
    isProper (Float.exactlyRepresentablePowersOfTen[i]).toModel.unpack := by
  decide +kernel

theorem isNaN_ofScientific (m : Nat) (negative : Bool) (e : Nat) :
    (Float.ofScientific m negative e).isNaN = false := by
  have packed {u : UnpackedFloat} (number : u ≠ .notANumber) :
      (Float.ofModel (Float.Model.pack u)).isNaN = false := by
    rw [Bool.eq_false_iff]
    exact fun none => unpack_pack_ne number (isNaN_iff.1 none)
  have whole : m.toUInt64.toFloat.toModel.unpack ≠ .notANumber := unpack_pack_ne (ofNat_ne _)
  unfold Float.ofScientific
  split
  · rename_i small
    have proper := isProper_powerOfTen ⟨e, by omega⟩
    simp only
    split
    · exact packed (div_ne whole proper)
    · exact packed (mul_ne whole proper)
  · exact packed (ofScientific_ne _ _)

/-- A decimal is read as a number. -/
theorem isNaN_nearest (digits : Nat) (exponent : Int) :
    (nearest digits exponent).isNaN = false := by
  simp only [nearest]
  split
  · decide
  · split
    · decide
    · exact isNaN_ofScientific ..

end Number
end Betik
