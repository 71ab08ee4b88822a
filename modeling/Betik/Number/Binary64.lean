/-
Doubles as exact numbers.  A finite double is a sign, a natural number below
`2 ^ 53` and a power of two; every exact computation on doubles starts from this
form and, where it ends in a double again, returns to it.
-/

namespace Betik
namespace Number

/-- The value of a double.  The sign of a finite one stands apart from the
significand because zero has one too. -/
inductive Binary64
  | nan
  | infinite (negative : Bool)
  | finite (negative : Bool) (significand : Nat) (exponent : Int)
deriving DecidableEq, Repr

namespace Binary64

def minExponent : Int := -1074

/-- The least significand that needs all fifty-three bits. -/
def hiddenBit : Nat := 0x10000000000000

def signBit : Nat := 0x8000000000000000

/-- Splits the bits of a double.  The lowest two exponent fields stand for the
same power of two; only the hidden bit tells them apart. -/
def ofFloat (x : Float) : Binary64 :=
  let bits := x.toBits.toNat
  let negative := decide (signBit ≤ bits)
  let field := bits / hiddenBit % 2048
  let fraction := bits % hiddenBit
  if field = 2047 then
    if fraction = 0 then .infinite negative else .nan
  else if field = 0 then
    .finite negative fraction minExponent
  else
    .finite negative (hiddenBit + fraction) (field + minExponent - 1)

/-- The bits of `significand · 2 ^ exponent`, for a significand below `2 ^ 53`
and an exponent the format has.  The significand moves up as far as the exponent
allows; adding it to the exponent field then sets that field right, because the
hidden bit carries into it. -/
def magnitudeBits (significand : Nat) (exponent : Int) : Nat :=
  let shift := min (52 - significand.log2) (exponent - minExponent).toNat
  if significand = 0 then 0
  else (exponent - minExponent - shift).toNat * hiddenBit + significand <<< shift

def toFloat : Binary64 → Float
  | .nan => 0.0 / 0.0
  | .infinite negative => if negative then -1.0 / 0.0 else 1.0 / 0.0
  | .finite negative significand exponent =>
    let sign := if negative then signBit else 0
    Float.ofBits (UInt64.ofNat (sign + magnitudeBits significand exponent))

end Binary64
end Number
end Betik
