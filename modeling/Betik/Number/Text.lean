/-
How numbers are written.  Integers have no point and doubles always have one,
with at least one digit on each side, so the text shows which of the two a value
is.  There are no exponents.
-/
import Betik.Number.Shortest

namespace Betik
namespace Number

def digitChars (n : Nat) : List Char :=
  Nat.toDigits 10 n

def integerText (n : Int64) : String :=
  let size := String.ofList (digitChars n.toInt.natAbs)
  if n < 0 then "-" ++ size else size

namespace Decimal

/-- The digits with the point at its place, and zeros up to it where the digits
do not reach. -/
def positional (d : Decimal) : List Char :=
  let ds := digitChars d.digits
  let whole := ds.length + d.exponent
  if 0 ≤ d.exponent then
    ds ++ List.replicate d.exponent.toNat '0' ++ ['.', '0']
  else if 0 < whole then
    ds.take whole.toNat ++ '.' :: ds.drop whole.toNat
  else
    ['0', '.'] ++ List.replicate (-whole).toNat '0' ++ ds

end Decimal

/-- The shortest digits that read back, in positional form.  Zero keeps its sign
and not-a-number has none. -/
def doubleText (x : Float) : String :=
  let sign (negative : Bool) : String := if negative then "-" else ""
  match Binary64.ofFloat x with
  | .nan => "NaN"
  | .infinite negative => sign negative ++ "inf"
  | .finite negative significand exponent =>
    let size := if significand = 0 then ⟨0, 0⟩ else shortest significand exponent
    sign negative ++ String.ofList size.positional

end Number
end Betik
