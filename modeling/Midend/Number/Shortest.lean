import Midend.Number.Binary64

/-!
# Midend.Number.Shortest

The shortest decimal that reads back as a given double. The reals that round to `m * 2 ^ e` form an
interval, which holds its ends exactly when `m` is even. Of the decimals with the fewest digits that
lie in the interval, `shortest` takes the one nearest to the double, and the greater of two at equal
distance.

Numbers are compared over a common denominator: the double is `num / den`, the interval reaches from
`(num - below) / den` to `(num + above) / den`.
-/

namespace Midend
namespace Shortest

/-- A positive double with the interval of the reals that round to it. -/
structure Target where
  num : Nat
  den : Nat
  below : Nat
  above : Nat
  closed : Bool
  deriving Repr

/-- The interval of `m * 2 ^ e`, in quarters of a unit in the last place: half a unit to both sides,
and only a quarter below where the spacing halves. -/
def Target.of (m : Nat) (e : Int) : Target :=
  let unit := if 0 ≤ e then Nat.pow 2 e.toNat else 1
  let den := if 0 ≤ e then 1 else Nat.pow 2 (-e).toNat
  let narrow := m = Binary64.hidden ∧ Binary64.minExponent < e
  { num := 4 * m * unit
    den := 4 * den
    below := if narrow then unit else 2 * unit
    above := 2 * unit
    closed := m % 2 = 0 }

def Target.contains (t : Target) (n d : Nat) : Bool :=
  let x := n * t.den
  let lo := (t.num - t.below) * d
  let hi := (t.num + t.above) * d
  if t.closed then lo ≤ x && x ≤ hi else lo < x && x < hi

structure Decimal where
  digits : Nat
  exponent : Int
  deriving DecidableEq, Repr

def Decimal.ratio (x : Decimal) : Nat × Nat :=
  if 0 ≤ x.exponent then (x.digits * Nat.pow 10 x.exponent.toNat, 1)
  else (x.digits, Nat.pow 10 (-x.exponent).toNat)

def Target.holds (t : Target) (x : Decimal) : Bool := t.contains x.ratio.1 x.ratio.2

/-- How many multiples of `10 ^ exponent` fit into the double. -/
def Target.floor (t : Target) (exponent : Int) : Nat :=
  if 0 ≤ exponent then t.num / (t.den * Nat.pow 10 exponent.toNat)
  else t.num * Nat.pow 10 (-exponent).toNat / t.den

/-- Whether the lower neighbour on the grid is strictly nearer than the upper one. -/
def Target.lowerNearer (t : Target) (exponent : Int) (lower : Nat) : Bool :=
  let (n, d) := (⟨2 * lower + 1, exponent⟩ : Decimal).ratio
  2 * t.num * d < n * t.den

/-- A decimal of the interval among the double's two neighbours on the grid of `10 ^ exponent`. -/
def Target.onGrid? (t : Target) (exponent : Int) : Option Decimal :=
  let lower : Decimal := ⟨t.floor exponent, exponent⟩
  let upper : Decimal := ⟨t.floor exponent + 1, exponent⟩
  match t.holds lower, t.holds upper with
  | true, true => some (if t.lowerNearer exponent lower.digits then lower else upper)
  | true, false => some lower
  | false, true => some upper
  | false, false => none

def Target.search (t : Target) (exponent : Int) : Nat → Decimal
  | 0 => ⟨t.floor exponent, exponent⟩
  | tries + 1 =>
    match t.onGrid? exponent with
    | some x => x
    | none => t.search (exponent - 1) tries

/-- The number of digits before the point of `num / den`; nought or less if it is below one. -/
def Target.magnitude (t : Target) : Int :=
  if t.den ≤ t.num then (Nat.toDigits 10 (t.num / t.den)).length
  else 1 - (Nat.toDigits 10 ((t.den + t.num - 1) / t.num - 1)).length

/-- The decimal without trailing zeros, given at least as much fuel as it has digits. -/
def Decimal.strip (x : Decimal) : Nat → Decimal
  | 0 => x
  | fuel + 1 =>
    if x.digits ≠ 0 ∧ x.digits % 10 = 0 then strip ⟨x.digits / 10, x.exponent + 1⟩ fuel else x

/-- The shortest decimal that rounds to `m * 2 ^ e`, for a positive `m`; seventeen digits always
suffice. -/
def shortest (m : Nat) (e : Int) : Decimal :=
  let t := Target.of m e
  (t.search (t.magnitude - 1) 18).strip 18

end Shortest
end Midend
