/-
How numbers are read.  Both readers take a whole text or nothing: no blanks
around the number and no separators inside it.
-/
import Betik.Number.Binary64

namespace Betik
namespace Number

/-- The ASCII digits and no others. -/
def isDigit (c : Char) : Bool :=
  '0' ≤ c && c ≤ '9'

def digitValue (c : Char) : Nat :=
  c.toNat - '0'.toNat

def natural (cs : List Char) : Nat :=
  cs.foldl (fun n c => 10 * n + digitValue c) 0

def natural? (cs : List Char) : Option Nat :=
  if !cs.isEmpty && cs.all isDigit then some (natural cs) else none

def splitSign : List Char → Bool × List Char
  | '-' :: cs => (true, cs)
  | '+' :: cs => (false, cs)
  | cs => (false, cs)

def signed (negative : Bool) (n : Nat) : Int :=
  if negative then -n else n

def integer? (cs : List Char) : Option Int64 := do
  let (negative, cs) := splitSign cs
  let n := signed negative (← natural? cs)
  if Int64.minValue.toInt ≤ n ∧ n ≤ Int64.maxValue.toInt then some (Int64.ofInt n) else none

/-- The double nearest to `digits · 10 ^ exponent`.  Outside the exponents that
are tried, the result is infinite or zero whatever the digits are; without those
bounds the power of ten could be too large to compute. -/
def nearest (digits : Nat) (exponent : Int) : Float :=
  let size := (Nat.toDigits 10 digits).length + exponent
  if digits = 0 ∨ size < -400 then 0.0
  else if 400 < size then (Binary64.infinite false).toFloat
  else Float.ofScientific digits (exponent < 0) exponent.natAbs

def exponent? : List Char → Option Int
  | [] => some 0
  | c :: cs =>
    if c = 'e' ∨ c = 'E' then
      let (negative, cs) := splitSign cs
      (natural? cs).map (signed negative)
    else none

def decimal? (cs : List Char) : Option Float := do
  let whole := cs.takeWhile isDigit
  let rest := cs.dropWhile isDigit
  let (fraction, rest) :=
    match rest with
    | '.' :: cs => (cs.takeWhile isDigit, cs.dropWhile isDigit)
    | cs => ([], cs)
  if whole.isEmpty && fraction.isEmpty then none
  else do
    let exponent ← exponent? rest
    some (nearest (natural (whole ++ fraction)) (exponent - fraction.length))

def named? (cs : List Char) : Option Float :=
  let name := String.ofList (cs.map Char.toLower)
  if name = "inf" ∨ name = "infinity" then some (Binary64.infinite false).toFloat
  else if name = "nan" then some Binary64.nan.toFloat
  else none

def double? (cs : List Char) : Option Float :=
  let (negative, cs) := splitSign cs
  (decimal? cs <|> named? cs).map fun x => if negative then -x else x

end Number
end Betik
