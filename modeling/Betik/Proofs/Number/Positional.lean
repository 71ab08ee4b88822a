/-
What the texts of numbers are written for.

A text with a point stands for one rational number, `Spells.unique`, and the texts that
decimals are given stand for their values.  So texts can be compared by comparing values.
-/
import Mathlib.Algebra.Order.Field.Rat
import Mathlib.Tactic.FieldSimp
import Mathlib.Tactic.Positivity
import Betik.Number.Text
import Betik.Proofs.Literals.Values

namespace Betik
namespace Number

theorem natural_append (us vs : List Char) :
    natural (us ++ vs) = 10 ^ vs.length * natural us + natural vs :=
  (Nat.ofDigitChars_append 0).trans Nat.ofDigitChars_eq_ofDigitChars_zero

theorem natural_zeros (n : Nat) : natural (List.replicate n '0') = 0 :=
  Nat.ofDigitChars_replicate_zero.trans (Nat.mul_zero _)

theorem isDigit_zeros (n : Nat) : ∀ c ∈ List.replicate n '0', isDigit c := fun c mem => by
  rw [List.eq_of_mem_replicate mem]
  decide

theorem digits_zero : Digits ['0'] :=
  ⟨List.cons_ne_nil _ _, isDigit_zeros 1⟩

theorem natural_digitChars (n : Nat) : natural (digitChars n) = n :=
  Nat.ofDigitChars_ten_toDigits

theorem digits_digitChars (n : Nat) : Digits (digitChars n) := by
  refine ⟨Nat.toDigits_ne_nil, fun d mem => ?_⟩
  have digit := Nat.isDigit_of_mem_toDigits (by decide) (by decide) mem
  simpa [Char.isDigit, isDigit, Char.le_def] using digit

theorem digitChars_inj {m n : Nat} (h : digitChars m = digitChars n) : m = n := by
  rw [← natural_digitChars m, h, natural_digitChars]

theorem minus_notMem_digitChars (n : Nat) : '-' ∉ digitChars n :=
  fun mem => absurd ((digits_digitChars n).2 '-' mem) (by decide)

/-- Integers are told apart by their texts. -/
theorem integerText_inj {m n : Int64} (h : integerText m = integerText n) : m = n := by
  have texts := congrArg String.toList h
  have minus (k : Nat) (rest : List Char) : digitChars k ≠ '-' :: rest := fun same =>
    minus_notMem_digitChars k (same ▸ List.mem_cons_self ..)
  have sizes (same : m.toInt.natAbs = n.toInt.natAbs) (signs : m < 0 ↔ n < 0) : m = n := by
    rw [Int64.lt_iff_toInt_lt, Int64.lt_iff_toInt_lt, Int64.toInt_zero] at signs
    refine Int64.toInt_inj.1 ?_
    omega
  simp only [integerText] at texts
  by_cases negative : m < 0 <;> by_cases negative' : n < 0
  · simp only [negative, negative', if_true, String.toList_append, String.toList_ofList,
      List.append_cancel_left_eq] at texts
    exact sizes (digitChars_inj texts) (by simp [negative, negative'])
  · simp only [negative, negative', if_true, if_false, String.toList_append,
      String.toList_ofList] at texts
    exact absurd texts.symm (minus _ _)
  · simp only [negative, negative', if_true, if_false, String.toList_append,
      String.toList_ofList] at texts
    exact absurd texts (minus _ _)
  · simp only [negative, negative', if_false, String.toList_ofList] at texts
    exact sizes (digitChars_inj texts) (by simp [negative, negative'])

/-- Digits on both sides of a point, and what they are written for. -/
structure Spells (text : List Char) (value : ℚ) (whole fraction : List Char) : Prop where
  split : text = whole ++ '.' :: fraction
  digits : Digits whole
  digits' : Digits fraction
  value : (natural (whole ++ fraction) : ℚ) = value * 10 ^ fraction.length

theorem point_notMem_of_digits {cs : List Char} (h : Digits cs) : '.' ∉ cs :=
  fun mem => absurd (h.2 '.' mem) (by decide)

theorem Spells.unique {text whole fraction whole' fraction' : List Char} {value value' : ℚ}
    (h : Spells text value whole fraction) (h' : Spells text value' whole' fraction') :
    value = value' := by
  have split := h.split.symm.trans h'.split
  have parts : whole = whole' ∧ fraction = fraction' := by
    have before := congrArg (List.takeWhile (· ≠ '.')) split
    have free (cs rest : List Char) (digits : Digits cs) :
        (cs ++ '.' :: rest).takeWhile (· ≠ '.') = cs := by
      rw [List.takeWhile_append_of_pos]
      · simp
      · intro c mem
        have other : c ≠ '.' := fun same => point_notMem_of_digits digits (same ▸ mem)
        simpa using other
    rw [free _ _ h.digits, free _ _ h'.digits] at before
    subst before
    exact ⟨rfl, List.tail_eq_of_cons_eq (List.append_cancel_left split)⟩
  obtain ⟨rfl, rfl⟩ := parts
  have power : (10 : ℚ) ^ fraction.length ≠ 0 := by positivity
  exact mul_right_cancel₀ power (h.value.symm.trans h'.value)

namespace Decimal

def value (d : Decimal) : ℚ :=
  d.digits * 10 ^ d.exponent

theorem value_mul {d : Decimal} {n : Nat} (h : d.exponent = -n) : d.value * 10 ^ n = d.digits := by
  have power : (10 : ℚ) ^ n ≠ 0 := by positivity
  rw [value, h, zpow_neg, zpow_natCast, mul_assoc, inv_mul_cancel₀ power, mul_one]

theorem positional_spells (d : Decimal) :
    ∃ whole fraction, Spells d.positional d.value whole fraction := by
  have digits := digits_digitChars d.digits
  have natural := natural_digitChars d.digits
  unfold positional
  simp only
  generalize digitChars d.digits = ds at *
  have length := List.length_pos_iff.2 digits.1
  split
  · -- the digits end in front of the point
    rename_i whole
    obtain ⟨n, exponent⟩ := Int.eq_ofNat_of_zero_le whole
    refine ⟨ds ++ List.replicate n '0', ['0'], ?_, ?_, digits_zero, ?_⟩
    · simp [exponent]
    · exact ⟨by simp [digits.1], List.forall_mem_append.2 ⟨digits.2, isDigit_zeros n⟩⟩
    · rw [natural_append, natural_append, natural_zeros, natural, List.length_replicate]
      simp only [value, exponent]
      push_cast
      simp only [Number.natural, zpow_natCast]
      simp [digitValue]
      ring
  · rename_i negative
    obtain ⟨n, exponent⟩ : ∃ n : Nat, d.exponent = -n := ⟨d.exponent.natAbs, by omega⟩
    split
    · -- the point stands between two digits
      rename_i inside
      obtain ⟨k, split⟩ : ∃ k : Nat, ds.length + d.exponent = k :=
        ⟨_, (Int.toNat_of_nonneg inside.le).symm⟩
      refine ⟨ds.take k, ds.drop k, by simp [split], ⟨?_, ?_⟩, ⟨?_, ?_⟩, ?_⟩
      · simp only [ne_eq, List.take_eq_nil_iff, digits.1, or_false]
        omega
      · exact fun c mem => digits.2 c (List.mem_of_mem_take mem)
      · rw [ne_eq, List.drop_eq_nil_iff]
        omega
      · exact fun c mem => digits.2 c (List.mem_of_mem_drop mem)
      · rw [List.take_append_drop, natural, List.length_drop, value_mul (by omega)]
    · -- there are zeros between the point and the digits
      rename_i outside
      obtain ⟨k, gap⟩ : ∃ k : Nat, -(ds.length + d.exponent) = k :=
        ⟨_, (Int.toNat_of_nonneg (by omega)).symm⟩
      refine ⟨['0'], List.replicate k '0' ++ ds, by simp [gap], digits_zero, ⟨?_, ?_⟩, ?_⟩
      · simp [digits.1]
      · exact List.forall_mem_append.2 ⟨isDigit_zeros k, digits.2⟩
      · rw [List.length_append, List.length_replicate, value_mul (by omega), natural_append,
          natural_append, natural_zeros, natural]
        simp [Number.natural, digitValue]

end Decimal

end Number
end Betik
