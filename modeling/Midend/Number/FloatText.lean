import Midend.Number.Shortest

/-!
# Midend.Number.FloatText

The text of a double: its shortest decimal, written out with a point while the magnitude is in the
layout's range, and with an exponent outside of it.
-/

namespace Midend

/-- Where a number is written with a point: while the exponent of its first digit lies between these
two, both included. -/
structure FloatLayout where
  leastPositional : Int
  greatestPositional : Int

namespace FloatLayout

/-- Constants are written with a point from `1e-4` up to below `1e16`. -/
def constants : FloatLayout := ⟨-4, 15⟩

/-- Digits with a point after the first `point` of them, and at least one digit on each side. -/
def positional (ds : List Char) (point : Int) : List Char :=
  if point ≤ 0 then '0' :: '.' :: (List.replicate (-point).toNat '0' ++ ds)
  else
    let whole := ds.take point.toNat
    let frac := ds.drop point.toNat
    let padding := List.replicate (point.toNat - whole.length) '0'
    whole ++ padding ++ '.' :: (if frac.isEmpty then ['0'] else frac)

def scientific (ds : List Char) (exponent : Int) : List Char :=
  let mantissa :=
    match ds with
    | d :: e :: rest => d :: '.' :: e :: rest
    | ds => ds
  mantissa ++ 'e' :: (toString exponent).toList

def positive (layout : FloatLayout) (x : Shortest.Decimal) : List Char :=
  let ds := Nat.toDigits 10 x.digits
  let exponent := x.exponent + ds.length - 1
  if layout.leastPositional ≤ exponent ∧ exponent ≤ layout.greatestPositional then
    positional ds (exponent + 1)
  else scientific ds exponent

def text (layout : FloatLayout) (x : Binary64) : String :=
  match x.classify with
  | .nan => "NaN"
  | .infinite neg => if neg then "-inf" else "inf"
  | .finite neg m e =>
    let body := if m = 0 then ['0', '.', '0'] else layout.positive (Shortest.shortest m e)
    String.ofList (if neg then '-' :: body else body)

end FloatLayout
end Midend
