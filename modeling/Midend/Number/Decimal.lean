import Midend.Number.Binary64
import Midend.Text.Digit

/-!
# Midend.Number.Decimal

Reading a double from text: an optional sign, then digits with an optional point (at least one digit
on one side of it) and an optional exponent, or one of `inf`, `infinity` and `nan` in any letter
case. The value is the double nearest to what the text says.
-/

namespace Midend
namespace Decimal

/-- A decimal numeral: `digits * 10 ^ exponent`. -/
structure Numeral where
  digits : Nat
  exponent : Int
  deriving DecidableEq, Repr

def sign : List Char → Bool × List Char
  | '-' :: rest => (true, rest)
  | '+' :: rest => (false, rest)
  | rest => (false, rest)

/-- The exponent that makes up the whole text; no text at all stands for zero. -/
def exponent? : List Char → Option Int
  | [] => some 0
  | e :: rest =>
    if e = 'e' ∨ e = 'E' then
      let (neg, ds) := sign rest
      if ds.isEmpty || !ds.all Char.isDigit then none
      else some (if neg then -(Text.decimalValue ds : Int) else Text.decimalValue ds)
    else none

def numeral? (cs : List Char) : Option Numeral :=
  let whole := cs.takeWhile Char.isDigit
  let rest := cs.dropWhile Char.isDigit
  let (frac, tail) :=
    match rest with
    | '.' :: r => (r.takeWhile Char.isDigit, r.dropWhile Char.isDigit)
    | r => ([], r)
  if whole.isEmpty && frac.isEmpty then none
  else
    match exponent? tail with
    | some e => some ⟨Text.decimalValue (whole ++ frac), e - frac.length⟩
    | none => none

/-- The words for numbers that are not finite, in any letter case. -/
def special? (neg : Bool) (cs : List Char) : Option Binary64 :=
  match String.ofList (cs.map Char.toLower) with
  | "inf" => some (.infinity neg)
  | "infinity" => some (.infinity neg)
  | "nan" => some .nan
  | _ => none

/-- The double that the text denotes. -/
def read? (cs : List Char) : Option Binary64 :=
  let (neg, body) := sign cs
  match numeral? body with
  | some n => some (.ofDecimal neg n.digits n.exponent)
  | none => special? neg body

end Decimal
end Midend
