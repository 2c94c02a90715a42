/-!
# Midend.Number.Binary64

Double-precision numbers as their 64 bits: a sign, eleven bits of exponent, fifty-two bits of
fraction. Everything here is exact integer arithmetic on the decoded value `m * 2 ^ e`.

`ofRatio` rounds a quotient to the nearest double, ties to the even one. The bits of a result
`q * 2 ^ e` with `e ≥ -1074` are `(e + 1074) * 2 ^ 52 + q`, for normal and subnormal numbers alike
and also when rounding up carries into the exponent.
-/

namespace Midend

structure Binary64 where
  bits : UInt64
  deriving DecidableEq, Repr, Inhabited

namespace Binary64

/-- What the bits stand for. A finite number has the magnitude `m * 2 ^ e`. -/
inductive Class where
  | nan
  | infinite (neg : Bool)
  | finite (neg : Bool) (m : Nat) (e : Int)
  deriving DecidableEq, Repr

def minExponent : Int := -1074

/-- The number of fraction bits as a factor. -/
def hidden : Nat := Nat.pow 2 52

def infinityBits : Nat := 2047 * hidden

def isNegative (x : Binary64) : Bool := Nat.pow 2 63 ≤ x.bits.toNat

def exponentField (x : Binary64) : Nat := x.bits.toNat / hidden % 2048

def fractionField (x : Binary64) : Nat := x.bits.toNat % hidden

def classify (x : Binary64) : Class :=
  if x.exponentField = 2047 then
    if x.fractionField = 0 then .infinite x.isNegative else .nan
  else if x.exponentField = 0 then .finite x.isNegative x.fractionField minExponent
  else .finite x.isNegative (x.fractionField + hidden) (x.exponentField - 1075)

def ofMagnitude (neg : Bool) (magnitude : Nat) : Binary64 :=
  ⟨UInt64.ofNat (magnitude + if neg then Nat.pow 2 63 else 0)⟩

def zero (neg : Bool) : Binary64 := ofMagnitude neg 0

def infinity (neg : Bool) : Binary64 := ofMagnitude neg infinityBits

def nan : Binary64 := ofMagnitude false (infinityBits + hidden / 2)

/-- The quotient `num / (den * 2 ^ e)` as a quotient of naturals. -/
def scale (num den : Nat) (e : Int) : Nat × Nat :=
  if 0 ≤ e then (num, den * Nat.pow 2 e.toNat) else (num * Nat.pow 2 (-e).toNat, den)

/-- `num / den` to the nearest natural, a half to the even one. -/
def roundHalfEven (num den : Nat) : Nat :=
  let q := num / den
  let r := num % den
  if den < 2 * r ∨ (den = 2 * r ∧ q % 2 = 1) then q + 1 else q

/-- The exponent at which `num / den` has 53 binary digits before the point, or the least
exponent if that one is greater. -/
def exponentOf (num den : Nat) : Int :=
  let guess := max ((num.log2 : Int) - den.log2 - 52) minExponent
  let (n, d) := scale num den guess
  if n / d < hidden then max (guess - 1) minExponent else guess

/-- The double nearest to `num / den`, for a positive `den`. -/
def ofRatio (neg : Bool) (num den : Nat) : Binary64 :=
  if num = 0 then zero neg
  else
    let e := exponentOf num den
    let (n, d) := scale num den e
    let magnitude := (e - minExponent).toNat * hidden + roundHalfEven n d
    ofMagnitude neg (min magnitude infinityBits)

def ofInt (n : Int) : Binary64 := ofRatio (n < 0) n.natAbs 1

/-- The double nearest to `digits * 10 ^ exponent`. Exponents far outside the range are decided
without computing the power: the magnitude is below `10 ^ (count + exponent)`, where `count` is the
number of digits, and not below a tenth of that. -/
def ofDecimal (neg : Bool) (digits : Nat) (exponent : Int) : Binary64 :=
  if digits = 0 then zero neg
  else
    let count : Int := (Nat.toDigits 10 digits).length
    if count + exponent > 320 then infinity neg
    else if count + exponent < -340 then zero neg
    else if 0 ≤ exponent then ofRatio neg (digits * Nat.pow 10 exponent.toNat) 1
    else ofRatio neg digits (Nat.pow 10 (-exponent).toNat)

/-- Whether the number is finite and has no fractional part. -/
def isIntegral (x : Binary64) : Bool :=
  match x.classify with
  | .finite _ m e => 0 ≤ e || m % Nat.pow 2 (-e).toNat == 0
  | _ => false

def maxInt64 : Int := 9223372036854775807

def minInt64 : Int := -9223372036854775808

/-- The integer part, clamped to the range of 64-bit integers; zero for a NaN. -/
def toInt64 (x : Binary64) : Int64 :=
  match x.classify with
  | .nan => 0
  | .infinite neg => Int64.ofInt (if neg then minInt64 else maxInt64)
  | .finite neg m e =>
    let magnitude : Nat := if 0 ≤ e then m * Nat.pow 2 e.toNat else m / Nat.pow 2 (-e).toNat
    let v : Int := if neg then -magnitude else magnitude
    Int64.ofInt (max minInt64 (min maxInt64 v))

end Binary64
end Midend
