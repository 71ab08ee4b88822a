/-
The shortest digits of a double are digits of that double only.

The search for them tries grids down to one with steps of a quarter of the last place at
most, and such a grid has a point that rounds to the double.  So the search ends with a
point that does, and the reals that round to different doubles are apart: where two such
intervals meet, one of the two significands is odd and does not have the end.
-/
import Mathlib
import Betik.Proofs.Number.Positional

namespace Betik
namespace Number

namespace Roundings

variable {r : Roundings} {grid : Int} {point : Nat}

/-- The reals that round to the double. -/
def Spans (r : Roundings) (v : ℚ) : Prop :=
  if r.closed then r.low * 2 ^ r.exponent ≤ v ∧ v ≤ r.high * 2 ^ r.exponent
  else r.low * 2 ^ r.exponent < v ∧ v < r.high * 2 ^ r.exponent

/-- Both sides of a comparison in units, and what they are units of. -/
theorem exists_unit (r : Roundings) (grid : Int) : ∃ unit : ℚ, 0 < unit ∧
    (2 : ℚ) ^ r.exponent = (r.units grid).1 * unit ∧ (10 : ℚ) ^ grid = (r.units grid).2 * unit := by
  have halves {b : ℚ} (positive : 0 < b) (z : Int) : b ^ z = b ^ z.toNat / b ^ (-z).toNat := by
    have power : b ^ (-z).toNat ≠ 0 := by positivity
    rw [eq_div_iff power, ← zpow_natCast, ← zpow_natCast, ← zpow_add₀ positive.ne']
    congr 1
    omega
  refine ⟨1 / (10 ^ (-grid).toNat * 2 ^ (-r.exponent).toNat), by positivity, ?_, ?_⟩
  all_goals
    rw [halves (by norm_num), units]
    simp only [Nat.shiftLeft_eq, Nat.pow_eq]
    push_cast
    field_simp

theorem contains_iff : r.contains grid point ↔ r.Spans (point * 10 ^ grid) := by
  obtain ⟨unit, positive, quarter, step⟩ := r.exists_unit grid
  rw [Spans, quarter, step]
  simp only [contains, ← mul_assoc, mul_le_mul_iff_left₀ positive, mul_lt_mul_iff_left₀ positive]
  split <;> simp only [Bool.and_eq_true, decide_eq_true_eq] <;> norm_cast

theorem contains_of_nearest? (found : r.nearest? grid = some point) : r.contains grid point := by
  simp only [nearest?] at found
  split at found
  · split at found <;> cases found <;> assumption
  · cases found
    assumption
  · cases found
    assumption
  · cases found

/-- A grid as fine as a quarter has a point just below the double. -/
theorem nearest?_of_fine (low : r.low < r.middle) (high : r.middle < r.high)
    (fine : (r.units grid).2 ≤ (r.units grid).1) (positive : 0 < (r.units grid).2) :
    ∃ point, r.nearest? grid = some point := by
  have inside : r.contains grid (r.middle * (r.units grid).1 / (r.units grid).2) := by
    simp only [contains]
    generalize (r.units grid).1 = quarter at *
    generalize (r.units grid).2 = step at *
    have below := Nat.div_mul_le_self (r.middle * quarter) step
    have above := Nat.lt_div_mul_add positive (a := r.middle * quarter)
    have left : r.low * quarter + quarter ≤ r.middle * quarter := by
      rw [← Nat.succ_mul]
      exact Nat.mul_le_mul_right _ low
    have right : r.middle * quarter < r.high * quarter :=
      Nat.mul_lt_mul_of_pos_right high (positive.trans_le fine)
    split <;> simp only [Bool.and_eq_true, decide_eq_true_eq] <;> omega
  simp only [nearest?, inside]
  split <;> simp_all

/-- A search that comes to a grid with a point ends with a point of some grid. -/
theorem search_spans {count k : Nat} (tried : k < count)
    (found : ∃ point, r.nearest? (grid - k) = some point) :
    r.Spans (r.search grid count).value := by
  induction count generalizing grid k with
  | zero => omega
  | succ count ih =>
    simp only [search]
    cases here : r.nearest? grid with
    | some point => exact contains_iff.1 (contains_of_nearest? here)
    | none =>
      cases k with
      | zero =>
        obtain ⟨point, found⟩ := found
        rw [Int.natCast_zero, Int.sub_zero, here] at found
        cases found
      | succ k =>
        refine ih (k := k) (by omega) ?_
        rwa [show grid - 1 - (k : Int) = grid - (k + 1 : Nat) by omega]

end Roundings

/-! ## Every double has digits -/

/-- The significand and the exponent of a double, of which each double has one pair. -/
structure Canonical (significand : Nat) (exponent : Int) : Prop where
  small : significand < 2 ^ 53
  range : -1074 ≤ exponent ∧ exponent ≤ 971
  full : -1074 < exponent → 2 ^ 52 ≤ significand

/-! Powers of ten beside powers of two: the binary logarithm of ten is between `93 / 28` and
`10 / 3`. -/

theorem pow_ten_le_pow_two {a b : Nat} (h : 10 * a ≤ 3 * b) : 10 ^ a ≤ 2 ^ b := by
  refine (Nat.pow_le_pow_iff_left (show 3 ≠ 0 by decide)).1 ?_
  calc (10 ^ a) ^ 3 = (10 ^ 3) ^ a := Nat.pow_right_comm ..
    _ ≤ (2 ^ 10) ^ a := Nat.pow_le_pow_left (by decide) a
    _ = 2 ^ (10 * a) := (Nat.pow_mul ..).symm
    _ ≤ 2 ^ (3 * b) := Nat.pow_le_pow_right (by decide) h
    _ = (2 ^ b) ^ 3 := by rw [Nat.mul_comm, Nat.pow_mul]

theorem pow_two_le_pow_ten {a b : Nat} (h : 28 * b ≤ 93 * a) : 2 ^ b ≤ 10 ^ a := by
  refine (Nat.pow_le_pow_iff_left (show 28 ≠ 0 by decide)).1 ?_
  calc (2 ^ b) ^ 28 = 2 ^ (28 * b) := by rw [Nat.mul_comm, Nat.pow_mul]
    _ ≤ 2 ^ (93 * a) := Nat.pow_le_pow_right (by decide) h
    _ = (2 ^ 93) ^ a := Nat.pow_mul ..
    _ ≤ (10 ^ 28) ^ a := Nat.pow_le_pow_left (by decide) a
    _ = (10 ^ a) ^ 28 := Nat.pow_right_comm ..

variable {m m' : Nat} {e e' : Int} {v : ℚ}

/-- The last of the grids that are tried is fine enough. -/
theorem fine_grid (h : Canonical m e) (grid : Int) (last : grid = coarsestGrid m e - 20) :
    ((Roundings.ofBinary m e).units grid).2 ≤ ((Roundings.ofBinary m e).units grid).1 := by
  have log : m.log2 ≤ 52 := by
    by_cases zero : m = 0
    · simp [zero]
    · exact Nat.lt_succ_iff.1 ((Nat.log2_lt zero).2 h.small)
  obtain ⟨lower, upper⟩ := h.range
  rw [coarsestGrid] at last
  simp only [Roundings.units, Roundings.ofBinary, Nat.shiftLeft_eq, Nat.pow_eq]
  rcases Int.le_total 0 grid with positive | negative
  · have power := pow_ten_le_pow_two (show 10 * grid.toNat ≤ 3 * (e - 2).toNat by omega)
    rw [show (-grid).toNat = 0 by omega, show (-(e - 2)).toNat = 0 by omega]
    simpa using power
  · have power := pow_two_le_pow_ten (show 28 * (-(e - 2)).toNat ≤ 93 * (-grid).toNat by omega)
    rw [show grid.toNat = 0 by omega, Nat.pow_zero, Nat.one_mul]
    exact power.trans (Nat.le_mul_of_pos_right _ (by positivity))

theorem shortest_spans (h : Canonical m e) (positive : 0 < m) :
    (Roundings.ofBinary m e).Spans (shortest m e).value := by
  refine Roundings.search_spans (k := 20) (by decide) (Roundings.nearest?_of_fine ?_ ?_ ?_ ?_)
  · simp only [Roundings.ofBinary]
    split <;> omega
  · simp only [Roundings.ofBinary]
    omega
  · exact fine_grid h _ rfl
  · simp only [Roundings.units, Nat.shiftLeft_eq, Nat.pow_eq]
    positivity

example : shortest 1 (-1074) = ⟨5, -324⟩ := by decide +kernel

/-! ## Different doubles have different digits -/

theorem low_ofBinary (m : Nat) (e : Int) :
    (m = 2 ^ 52 ∧ -1074 < e) ∧ (Roundings.ofBinary m e).low = 4 * m - 1 ∨
      ¬(m = 2 ^ 52 ∧ -1074 < e) ∧ (Roundings.ofBinary m e).low = 4 * m - 2 := by
  simp only [Roundings.ofBinary]
  split
  · rename_i bottom
    exact .inl ⟨bottom, rfl⟩
  · rename_i bottom
    exact .inr ⟨bottom, rfl⟩

/-- Of two doubles the greater one takes over at most where the smaller one ends, and there
one of them is odd. -/
theorem high_le_low (h : Canonical m e) (h' : Canonical m' e')
    (less : e < e' ∨ e = e' ∧ m < m') (k : Nat) (apart : e' = e + k) :
    (Roundings.ofBinary m e).high ≤ (Roundings.ofBinary m' e').low * 2 ^ k ∧
      ((Roundings.ofBinary m e).closed → (Roundings.ofBinary m' e').closed →
        (Roundings.ofBinary m e).high < (Roundings.ofBinary m' e').low * 2 ^ k) := by
  obtain ⟨small, ⟨lower, -⟩, full⟩ := h
  obtain ⟨small', -, full'⟩ := h'
  have high : (Roundings.ofBinary m e).high = 4 * m + 2 := rfl
  have closed (m : Nat) (e : Int) : (Roundings.ofBinary m e).closed ↔ m % 2 = 0 :=
    beq_iff_eq
  rw [high, closed, closed]
  have low := low_ofBinary m' e'
  generalize (Roundings.ofBinary m' e').low = low' at *
  cases k with
  | zero => omega
  | succ k =>
    -- the next greater exponent at least doubles the greater one
    have wide := Nat.mul_le_mul_left low' (show 2 ≤ 2 ^ (k + 1) from Nat.le_self_pow (by omega) 2)
    have full'' := full' (by omega)
    omega

theorem not_spans_both (h : Canonical m e) (h' : Canonical m' e')
    (less : e < e' ∨ e = e' ∧ m < m') (spans : (Roundings.ofBinary m e).Spans v) :
    ¬(Roundings.ofBinary m' e').Spans v := by
  intro spans'
  obtain ⟨k, apart⟩ : ∃ k : Nat, e' = e + k := ⟨(e' - e).toNat, by omega⟩
  obtain ⟨meet, cross⟩ := high_le_low h h' less k apart
  have power : (0 : ℚ) < 2 ^ (e - 2) := zpow_pos (by norm_num) _
  have same (n : Nat) : (n : ℚ) * 2 ^ (e' - 2) = (n * 2 ^ k : Nat) * 2 ^ (e - 2) := by
    rw [apart, show e + k - 2 = k + (e - 2) by omega, zpow_add₀ (by norm_num), zpow_natCast]
    push_cast
    ring
  simp only [Roundings.Spans, show (Roundings.ofBinary m' e').exponent = e' - 2 from rfl,
    show (Roundings.ofBinary m e).exponent = e - 2 from rfl, same] at spans spans'
  have ends := mul_le_mul_of_nonneg_right (Nat.cast_le (α := ℚ) |>.2 meet) power.le
  split at spans <;> split at spans'
  · rename_i closed closed'
    have ends' := mul_lt_mul_of_pos_right (Nat.cast_lt (α := ℚ) |>.2 (cross closed closed')) power
    linarith
  all_goals linarith

theorem spans_unique (h : Canonical m e) (h' : Canonical m' e')
    (spans : (Roundings.ofBinary m e).Spans v) (spans' : (Roundings.ofBinary m' e').Spans v) :
    m = m' ∧ e = e' := by
  by_contra different
  rcases (by omega : (e < e' ∨ e = e' ∧ m < m') ∨ (e' < e ∨ e' = e ∧ m' < m)) with less | greater
  · exact not_spans_both h h' less spans spans'
  · exact not_spans_both h' h greater spans' spans

theorem spans_pos (positive : 0 < m) (spans : (Roundings.ofBinary m e).Spans v) : 0 < v := by
  have low : 0 < (Roundings.ofBinary m e).low := by
    have low := low_ofBinary m e
    omega
  have below : (0 : ℚ) < (Roundings.ofBinary m e).low * 2 ^ (Roundings.ofBinary m e).exponent :=
    mul_pos (by exact_mod_cast low) (zpow_pos (by norm_num) _)
  rw [Roundings.Spans] at spans
  split at spans <;> linarith

/-! ## The texts of doubles -/

namespace Binary64

inductive Decodes (bits : Nat) : Binary64 → Prop
  | nan (field : bits / 2 ^ 52 % 2048 = 2047) (fraction : bits % 2 ^ 52 ≠ 0) : Decodes bits .nan
  | infinite (field : bits / 2 ^ 52 % 2048 = 2047) (fraction : bits % 2 ^ 52 = 0) :
    Decodes bits (.infinite (2 ^ 63 ≤ bits))
  | subnormal (field : bits / 2 ^ 52 % 2048 = 0) :
    Decodes bits (.finite (2 ^ 63 ≤ bits) (bits % 2 ^ 52) (-1074))
  | normal {k : Nat} (field : bits / 2 ^ 52 % 2048 = k + 1) (range : k < 2046) :
    Decodes bits (.finite (2 ^ 63 ≤ bits) (2 ^ 52 + bits % 2 ^ 52) (k - 1074))

theorem decodes_ofFloat (x : Float) : Decodes x.toBits.toNat (ofFloat x) := by
  unfold ofFloat
  simp only
  generalize x.toBits.toNat = bits
  split
  · rename_i field
    split
    · rename_i fraction
      exact .infinite field fraction
    · rename_i fraction
      exact .nan field fraction
  · rename_i field
    split
    · rename_i field'
      exact .subnormal field'
    · rename_i field'
      obtain ⟨k, same⟩ := Nat.exists_eq_succ_of_ne_zero field'
      rw [same, show ((k.succ : Nat) : Int) + minExponent - 1 = k - 1074 by
        simp only [minExponent]; omega]
      exact .normal same (by omega)

example : ofFloat (-0.0) = .finite true 0 (-1074) := by decide

theorem Decodes.canonical {bits m : Nat} {negative : Bool} {e : Int}
    (h : Decodes bits (.finite negative m e)) : Canonical m e := by
  cases h with
  | subnormal => constructor <;> omega
  | normal => constructor <;> omega

/-- Bits that say the same number are the same. -/
theorem Decodes.unique {bits bits' : Nat} {b b' : Binary64} (h : Decodes bits b)
    (h' : Decodes bits' b') (same : b = b') (number : b ≠ .nan) (size : bits < 2 ^ 64)
    (size' : bits' < 2 ^ 64) : bits = bits' := by
  have sign (signs : decide (2 ^ 63 ≤ bits) = decide (2 ^ 63 ≤ bits')) :
      2 ^ 63 ≤ bits ↔ 2 ^ 63 ≤ bits' := decide_eq_decide.1 signs
  cases h with
  | nan => exact absurd rfl number
  | infinite =>
    cases h' <;> simp only [reduceCtorEq, infinite.injEq] at same
    have signs := sign same
    omega
  | subnormal | normal =>
    cases h' <;> simp only [reduceCtorEq, finite.injEq] at same
    all_goals
      have signs := sign same.1
      omega

open Float.Model.UnpackedFloat in
/-- There is one not-a-number only. -/
theorem eq_nan_of_ofFloat {x : Float} (h : ofFloat x = .nan) : x = Float.nan := by
  have decodes := decodes_ofFloat x
  rw [h] at decodes
  cases decodes with
  | nan field fraction =>
    have canonical := x.toModel.valid.eq_packedNaN ?_ ?_
    · exact Float.toBits_inj.1 (UInt64.toBitVec_inj.1 canonical)
    · refine BitVec.eq_of_toNat_eq ?_
      rw [unpackExponent_def, BitVec.extractLsb'_toNat, Nat.shiftRight_eq_div_pow]
      exact field
    · intro zero
      have zero := congrArg BitVec.toNat zero
      rw [unpackMantissa_def, BitVec.extractLsb'_toNat, Nat.shiftRight_zero] at zero
      exact fraction zero

theorem ofFloat_inj {x y : Float} (h : ofFloat x = ofFloat y) : x = y := by
  by_cases number : ofFloat x = .nan
  · rw [eq_nan_of_ofFloat number, eq_nan_of_ofFloat (h.symm.trans number)]
  · exact Float.toBits_inj.1 (UInt64.toNat_inj.1 ((decodes_ofFloat x).unique (decodes_ofFloat y) h
      number x.toBits.toNat_lt y.toBits.toNat_lt))

end Binary64

def digitsOf (m : Nat) (e : Int) : Decimal :=
  if m = 0 then ⟨0, 0⟩ else shortest m e

theorem digitsOf_inj (h : Canonical m e) (h' : Canonical m' e')
    (same : (digitsOf m e).positional = (digitsOf m' e').positional) : m = m' ∧ e = e' := by
  have value : (digitsOf m e).value = (digitsOf m' e').value := by
    obtain ⟨_, _, spells⟩ := (digitsOf m e).positional_spells
    obtain ⟨_, _, spells'⟩ := (digitsOf m' e').positional_spells
    exact spells.unique (same ▸ spells')
  have zero : Decimal.value ⟨0, 0⟩ = 0 := by simp [Decimal.value]
  have least {m : Nat} {e : Int} (h : Canonical m e) (none : m = 0) : e = -1074 := by
    have := h.range
    have := h.full
    omega
  unfold digitsOf at value
  split at value <;> split at value
  · rename_i none none'
    rw [none, none', least h none, least h' none']
    exact ⟨rfl, rfl⟩
  · rename_i none some'
    have some' := Nat.pos_of_ne_zero some'
    have positive := spans_pos some' (shortest_spans h' some')
    rw [← value, zero] at positive
    exact absurd positive (lt_irrefl 0)
  · rename_i some none'
    have some := Nat.pos_of_ne_zero some
    have positive := spans_pos some (shortest_spans h some)
    rw [value, zero] at positive
    exact absurd positive (lt_irrefl 0)
  · rename_i some some'
    have spans := shortest_spans h (Nat.pos_of_ne_zero some)
    rw [value] at spans
    exact spans_unique h h' spans (shortest_spans h' (Nat.pos_of_ne_zero some'))

def Binary64.written : Binary64 → Bool × List Char
  | nan => (false, ['N', 'a', 'N'])
  | infinite negative => (negative, ['i', 'n', 'f'])
  | finite negative m e => (negative, (digitsOf m e).positional)

theorem toList_doubleText (x : Float) : (doubleText x).toList =
    (if (Binary64.ofFloat x).written.1 then ['-'] else []) ++ (Binary64.ofFloat x).written.2 := by
  unfold doubleText
  simp only
  cases Binary64.ofFloat x with
  | nan => rfl
  | infinite negative => cases negative <;> rfl
  | finite negative m e => cases negative <;> simp [Binary64.written, digitsOf]

example : doubleText 1e-7 = "0.0000001" := by decide +kernel

theorem positional_head (d : Decimal) :
    ∃ c rest, d.positional = c :: rest ∧ isDigit c ∧ '.' ∈ d.positional := by
  obtain ⟨whole, fraction, spells⟩ := d.positional_spells
  obtain ⟨c, whole, rfl⟩ := List.exists_cons_of_ne_nil spells.digits.1
  refine ⟨c, whole ++ '.' :: fraction, spells.split, spells.digits.2 c (List.mem_cons_self ..), ?_⟩
  simp [spells.split]

theorem Binary64.written_inj {b b' : Binary64} {bits bits' : Nat} (h : Decodes bits b)
    (h' : Decodes bits' b') (same : b.written = b'.written) : b = b' := by
  have letters {d : Decimal} {c : Char} {rest : List Char} (letter : ¬isDigit c) :
      d.positional ≠ c :: rest := by
    intro same
    obtain ⟨_, _, split, digit, -⟩ := positional_head d
    cases split.symm.trans same
    exact letter digit
  cases b <;> cases b' <;> simp only [written, Prod.mk.injEq] at same
  · rfl
  · exact absurd same.2 (by decide)
  · exact absurd same.2.symm (letters (by decide))
  · exact absurd same.2 (by decide)
  · rw [same.1]
  · exact absurd same.2.symm (letters (by decide))
  · exact absurd same.2 (letters (by decide))
  · exact absurd same.2 (letters (by decide))
  · obtain ⟨rfl, rfl⟩ := digitsOf_inj h.canonical h'.canonical same.2
    rw [same.1]

theorem Binary64.minus_ne_written (b : Binary64) (rest : List Char) :
    b.written.2 ≠ '-' :: rest := by
  intro same
  cases b with
  | nan => cases same
  | infinite => cases same
  | finite negative m e =>
    obtain ⟨_, _, split, digit, -⟩ := positional_head (digitsOf m e)
    cases split.symm.trans same
    exact absurd digit (by decide)

/-- Doubles are told apart by their texts. -/
theorem doubleText_inj {x y : Float} (h : doubleText x = doubleText y) : x = y := by
  have texts := congrArg String.toList h
  rw [toList_doubleText, toList_doubleText] at texts
  have minus := (Binary64.ofFloat x).minus_ne_written
  have minus' := (Binary64.ofFloat y).minus_ne_written
  refine Binary64.ofFloat_inj (Binary64.written_inj (Binary64.decodes_ofFloat x)
    (Binary64.decodes_ofFloat y) (Prod.ext_iff.2 ?_))
  generalize (Binary64.ofFloat x).written = w at *
  generalize (Binary64.ofFloat y).written = w' at *
  obtain ⟨negative, body⟩ := w
  obtain ⟨negative', body'⟩ := w'
  cases negative <;> cases negative'
  · exact ⟨rfl, texts⟩
  · exact absurd texts (minus _)
  · exact absurd texts.symm (minus' _)
  · exact ⟨rfl, List.tail_eq_of_cons_eq texts⟩

end Number
end Betik
