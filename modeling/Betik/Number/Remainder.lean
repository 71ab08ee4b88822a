/-
The remainder of a truncated division of doubles.  It is exact: both operands
are whole multiples of the smaller of their two powers of two, and the remainder
of the multiples is a significand again.
-/
import Betik.Number.Binary64

namespace Betik
namespace Number

/-- What is left of `x` after taking `y` away as often as it fits toward zero.
The result has the sign of `x`, also when it is zero, and an infinite `y` takes
nothing away. -/
def remainder (x y : Float) : Float :=
  match Binary64.ofFloat x, Binary64.ofFloat y with
  | .finite negative m p, .finite _ n q =>
    let common := min p q
    let dividend := m <<< (p - common).toNat
    let divisor := n <<< (q - common).toNat
    if divisor = 0 then Binary64.nan.toFloat
    else (Binary64.finite negative (dividend % divisor) common).toFloat
  | .finite .., .infinite _ => x
  | _, _ => Binary64.nan.toFloat

end Number
end Betik
