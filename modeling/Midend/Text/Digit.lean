/-!
# Midend.Text.Digit

ASCII digits in a base of at most sixteen, and the values of runs of them.
-/

namespace Midend
namespace Text

def hexDigit? (c : Char) : Option Nat :=
  if '0' ≤ c ∧ c ≤ '9' then some (c.toNat - 48)
  else if 'a' ≤ c ∧ c ≤ 'f' then some (c.toNat - 87)
  else if 'A' ≤ c ∧ c ≤ 'F' then some (c.toNat - 55)
  else none

def digit? (base : Nat) (c : Char) : Option Nat :=
  match hexDigit? c with
  | some d => if d < base then some d else none
  | none => none

/-- Value of a run of digits, on top of the value `acc` of those before them. -/
def digitsFrom? (base : Nat) (acc : Nat) : List Char → Option Nat
  | [] => some acc
  | c :: rest =>
    match digit? base c with
    | some d => digitsFrom? base (acc * base + d) rest
    | none => none

/-- Value of a run of digits in the given base; an empty run is worth nought. -/
def digits? (base : Nat) (cs : List Char) : Option Nat := digitsFrom? base 0 cs

def decimalValue (ds : List Char) : Nat := ds.foldl (fun n d => n * 10 + (d.toNat - 48)) 0

end Text
end Midend
