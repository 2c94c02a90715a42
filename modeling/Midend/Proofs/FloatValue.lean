import Mathlib.Algebra.Order.Field.Basic
import Mathlib.Data.Nat.Cast.Field
import Mathlib.Data.Rat.Cast.Order
import Mathlib.Tactic.FieldSimp
import Mathlib.Tactic.Positivity
import Midend.Proofs.Rounding

/-!
# Midend.Proofs.FloatValue

The numbers that doubles stand for, and what it means that one is a number correctly rounded: it is
nearest to the number among all finite doubles, with even bits if another one is as near, and it is
infinite from `overflow` on (`Rounds`). `ofRatio` rounds (`rounds_ofRatio`), so the doubles of
integers and of decimal numerals are correctly rounded (`rounds_ofInt`, `rounds_ofDecimal`).
-/

namespace Midend
namespace Binary64

variable {k j e q num den : Nat} {neg : Bool} {x y : Binary64} {v w r : ℚ}

theorem pow_sixtyThree : Nat.pow 2 63 = 9223372036854775808 := by decide

theorem infinityBits_lt : infinityBits < Nat.pow 2 63 := by decide

theorem toNat_bits_ofMagnitude (neg : Bool) (h : k < Nat.pow 2 63) :
    (ofMagnitude neg k).bits.toNat = k + if neg then Nat.pow 2 63 else 0 := by
  rw [ofMagnitude, UInt64.toNat_ofNat', Nat.mod_eq_of_lt]
  rw [pow_sixtyThree] at h ⊢
  split <;> omega

theorem exists_ofMagnitude (x : Binary64) : ∃ neg k, k < Nat.pow 2 63 ∧ x = ofMagnitude neg k := by
  have hlt : x.bits.toNat < 2 ^ 64 := x.bits.toNat_lt
  obtain ⟨neg, k, hk, hbits⟩ :
      ∃ (neg : Bool) (k : Nat), k < Nat.pow 2 63 ∧
        x.bits.toNat = k + if neg then Nat.pow 2 63 else 0 := by
    rw [pow_sixtyThree]
    rcases Nat.lt_or_ge x.bits.toNat 9223372036854775808 with h | h
    · exact ⟨false, x.bits.toNat, h, rfl⟩
    · exact ⟨true, x.bits.toNat - 9223372036854775808, by omega, by simp; omega⟩
  refine ⟨neg, k, hk, ?_⟩
  rw [ofMagnitude, ← hbits, UInt64.ofNat_toNat]

theorem isNegative_ofMagnitude (neg : Bool) (h : k < Nat.pow 2 63) :
    (ofMagnitude neg k).isNegative = neg := by
  rw [isNegative, toNat_bits_ofMagnitude neg h]
  rw [pow_sixtyThree] at h ⊢
  cases neg
  · simpa using h
  · simp

theorem exponentField_ofMagnitude (neg : Bool) (h : k < Nat.pow 2 63) :
    (ofMagnitude neg k).exponentField = k / hidden := by
  rw [pow_sixtyThree] at h
  rw [exponentField, toNat_bits_ofMagnitude neg h, pow_sixtyThree, hidden_eq]
  split <;> omega

theorem fractionField_ofMagnitude (neg : Bool) (h : k < Nat.pow 2 63) :
    (ofMagnitude neg k).fractionField = k % hidden := by
  rw [pow_sixtyThree] at h
  rw [fractionField, toNat_bits_ofMagnitude neg h, pow_sixtyThree, hidden_eq]
  split <;> omega

theorem classify_ofMagnitude (neg : Bool) (h : k < Nat.pow 2 63) :
    (ofMagnitude neg k).classify =
      if k / hidden = 2047 then if k % hidden = 0 then .infinite neg else .nan
      else if k / hidden = 0 then .finite neg (k % hidden) minExponent
      else .finite neg (k % hidden + hidden) ((k / hidden : Nat) - 1075) := by
  rw [classify, exponentField_ofMagnitude neg h, fractionField_ofMagnitude neg h,
    isNegative_ofMagnitude neg h]

theorem classify_grid (neg : Bool) (hq : q < 2 * hidden) (hnormal : hidden ≤ q ∨ e = 0)
    (hfinite : e * hidden + q < infinityBits) :
    (ofMagnitude neg (e * hidden + q)).classify = .finite neg q (e + minExponent) := by
  have hlt := hfinite.trans infinityBits_lt
  rw [infinityBits_eq, hidden_eq] at hfinite
  rw [classify_ofMagnitude neg hlt, if_neg (by rw [hidden_eq]; omega)]
  rw [hidden_eq] at hq hnormal ⊢
  rcases Nat.lt_or_ge q 4503599627370496 with hlt | hge
  · obtain rfl : e = 0 := by omega
    rw [if_pos (by omega), show (0 * 4503599627370496 + q) % 4503599627370496 = q by omega]
    rfl
  · rw [if_neg (by omega), show (e * 4503599627370496 + q) % 4503599627370496 + 4503599627370496 = q
      by omega, show (e * 4503599627370496 + q) / 4503599627370496 = e + 1 by omega, minExponent]
    congr 1
    omega

theorem classify_not_finite (neg : Bool) (h : infinityBits ≤ k) (hk : k < Nat.pow 2 63) :
    (ofMagnitude neg k).classify = .infinite neg ∨ (ofMagnitude neg k).classify = .nan := by
  rw [classify_ofMagnitude neg hk]
  rw [infinityBits_eq, hidden_eq] at h
  rw [pow_sixtyThree] at hk
  rw [if_pos (by rw [hidden_eq]; omega)]
  split
  · exact .inl rfl
  · exact .inr rfl

def signed (neg : Bool) (r : ℚ) : ℚ := if neg then -r else r

def value? (x : Binary64) : Option ℚ :=
  match x.classify with
  | .finite neg m e => some (signed neg (m * 2 ^ e))
  | _ => none

/-- The magnitude with the bits `k`. -/
def magnitude (k : Nat) : ℚ := units k / one

theorem one_pos' : (0 : ℚ) < one := Nat.cast_pos.mpr one_pos

theorem magnitude_nonneg (k : Nat) : 0 ≤ magnitude k :=
  div_nonneg (Nat.cast_nonneg _) one_pos'.le

theorem magnitude_zero : magnitude 0 = 0 := by
  rw [magnitude, show units 0 = 0 from rfl, Nat.cast_zero, zero_div]

theorem signed_zero (neg : Bool) : signed neg 0 = 0 := by
  cases neg
  · rfl
  · exact neg_zero

theorem magnitude_le_iff : magnitude j ≤ magnitude k ↔ j ≤ k := by
  rw [magnitude, magnitude, div_le_div_iff_of_pos_right one_pos', Nat.cast_le, units_le_iff]

theorem one_mul_zpow (e : Nat) : (one : ℚ) * 2 ^ ((e : Int) + minExponent) = 2 ^ e := by
  obtain ⟨s, hs, hone⟩ := exists_one_eq
  rw [hone, Nat.cast_pow, Nat.cast_ofNat, ← zpow_natCast, ← zpow_add₀ two_ne_zero, hs,
    ← zpow_natCast]
  congr 1
  omega

theorem zpow_grid (hq : q ≤ 2 * hidden) (hnormal : hidden ≤ q ∨ e = 0) :
    (q : ℚ) * 2 ^ ((e : Int) + minExponent) = magnitude (e * hidden + q) := by
  rw [magnitude, units_grid hq hnormal, eq_div_iff one_pos'.ne', mul_assoc,
    mul_comm _ (one : ℚ), one_mul_zpow, Nat.cast_mul, Nat.cast_pow, Nat.cast_ofNat]

theorem value?_of_finite {m : Nat} {i : Int} (h : x.classify = .finite neg m i) :
    x.value? = some (signed neg (m * 2 ^ i)) := by
  rw [value?, h]

theorem value?_ofMagnitude (neg : Bool) (h : k < infinityBits) :
    (ofMagnitude neg k).value? = some (signed neg (magnitude k)) := by
  obtain ⟨e, q, rfl, hq, hnormal⟩ := exists_grid k
  rw [value?_of_finite (classify_grid neg hq hnormal h), zpow_grid (Nat.le_of_lt hq) hnormal]

theorem value?_not_finite (neg : Bool) (h : infinityBits ≤ k) (hk : k < Nat.pow 2 63) :
    (ofMagnitude neg k).value? = none := by
  rw [value?]
  rcases classify_not_finite neg h hk with h | h <;> rw [h]

theorem value?_eq_some_iff :
    x.value? = some v ↔
      ∃ neg k, k < infinityBits ∧ x = ofMagnitude neg k ∧ v = signed neg (magnitude k) := by
  constructor
  · intro h
    obtain ⟨neg, k, hk, rfl⟩ := exists_ofMagnitude x
    rcases Nat.lt_or_ge k infinityBits with hlt | hge
    · rw [value?_ofMagnitude neg hlt, Option.some.injEq] at h
      exact ⟨neg, k, hlt, rfl, h.symm⟩
    · rw [value?_not_finite neg hge hk] at h
      cases h
  · rintro ⟨neg, k, hk, rfl, rfl⟩
    exact value?_ofMagnitude neg hk

theorem middle_le_iff (hden : 0 < den) :
    magnitude j + magnitude k ≤ 2 * ((num : ℚ) / den) ↔
      den * (units j + units k) ≤ 2 * (num * one) := by
  have hden' : (0 : ℚ) < den := Nat.cast_pos.mpr hden
  rw [magnitude, magnitude, ← add_div, ← mul_div_assoc, div_le_div_iff₀ one_pos' hden', mul_comm,
    mul_assoc]
  norm_cast

theorem le_middle_iff (hden : 0 < den) :
    2 * ((num : ℚ) / den) ≤ magnitude j + magnitude k ↔
      2 * (num * one) ≤ den * (units j + units k) := by
  have hden' : (0 : ℚ) < den := Nat.cast_pos.mpr hden
  rw [magnitude, magnitude, ← add_div, ← mul_div_assoc, div_le_div_iff₀ hden' one_pos',
    mul_comm _ (den : ℚ),
    mul_assoc]
  norm_cast

namespace Nearest

theorem middle_le (h : Nearest num den k) (hden : 0 < den) (hj : j < k) :
    magnitude j + magnitude k ≤ 2 * ((num : ℚ) / den) := by
  refine (middle_le_iff hden).mpr (Nat.le_trans (Nat.mul_le_mul_left _ (Nat.add_le_add_right ?_ _))
    (h.below (k - 1) (by omega)))
  exact units_le (by omega)

theorem le_middle (h : Nearest num den k) (hden : 0 < den) (hj : k < j) :
    2 * ((num : ℚ) / den) ≤ magnitude k + magnitude j :=
  (le_middle_iff hden).mpr
    (h.above.trans (Nat.mul_le_mul_left _ (Nat.add_le_add_left (units_le hj) _)))

theorem dist_le (h : Nearest num den k) (hden : 0 < den) (j : Nat) :
    |magnitude k - (num : ℚ) / den| ≤ |magnitude j - (num : ℚ) / den| := by
  rcases Nat.lt_trichotomy j k with hj | rfl | hj
  · have hle := magnitude_le_iff.mpr (Nat.le_of_lt hj)
    have hmiddle := h.middle_le hden hj
    rw [abs_sub_comm (magnitude j)]
    exact (abs_le.mpr ⟨by linarith, by linarith⟩).trans (le_abs_self _)
  · exact le_rfl
  · have hle := magnitude_le_iff.mpr (Nat.le_of_lt hj)
    have hmiddle := h.le_middle hden hj
    exact (abs_le.mpr ⟨by linarith, by linarith⟩).trans (le_abs_self _)

theorem even_of_dist_eq (h : Nearest num den k) (hden : 0 < den) (hne : j ≠ k)
    (hdist : |magnitude j - (num : ℚ) / den| = |magnitude k - (num : ℚ) / den|) : k % 2 = 0 := by
  have hsum : magnitude j + magnitude k = 2 * ((num : ℚ) / den) := by
    rcases abs_eq_abs.mp hdist with hsame | hopposite
    · have hle := magnitude_le_iff (j := j) (k := k)
      have hge := magnitude_le_iff (j := k) (k := j)
      rw [sub_left_inj.mp hsame] at hle hge
      exact absurd (Nat.le_antisymm (hle.mp le_rfl) (hge.mp le_rfl)) hne
    · linarith
  have hmiddle : den * (units j + units k) = 2 * (num * one) :=
    Nat.le_antisymm ((middle_le_iff hden).mp hsum.le) ((le_middle_iff hden).mp hsum.ge)
  rcases Nat.lt_or_gt_of_ne hne with hj | hj
  · have hle : units j ≤ units (k - 1) := units_le (by omega)
    have hbelow := h.below (k - 1) (by omega)
    refine h.even_below (k - 1) (by omega) (Nat.le_antisymm hbelow (hmiddle ▸ ?_))
    exact Nat.mul_le_mul_left _ (Nat.add_le_add_right hle _)
  · have hle : units (k + 1) ≤ units j := units_le hj
    refine h.even_above (Nat.le_antisymm h.above (hmiddle ▸ ?_))
    rw [Nat.add_comm (units j)]
    exact Nat.mul_le_mul_left _ (Nat.add_le_add_left hle _)

end Nearest

/-! ## Rounding -/

/-- The middle between the greatest finite double and the power of two after it. -/
@[irreducible] def overflow : ℚ := (2 ^ 54 - 1) * 2 ^ 970

theorem pow_mul_one {e i : Nat} (h : (i : Int) = e - minExponent) : 2 ^ e * one = 2 ^ i := by
  obtain ⟨s, hs, hone⟩ := exists_one_eq
  rw [hone, ← Nat.pow_add, show e + s = i by omega]

theorem units_pred_infinityBits :
    units (infinityBits - 1) + units infinityBits = (2 ^ 54 - 1) * (2 ^ 971 * one) := by
  have hpred : infinityBits - 1 = 2045 * hidden + (2 * hidden - 1) := by decide
  have hlast : infinityBits = 2045 * hidden + 2 * hidden := by decide
  rw [pow_mul_one (i := 2045) (by decide), hpred, hlast,
    units_grid (Nat.sub_le _ _) (.inl (by decide)),
    units_grid (Nat.le_refl _) (.inl (by decide)), ← Nat.add_mul,
    show 2 * hidden - 1 + 2 * hidden = 2 ^ 54 - 1 by decide]

theorem overflow_eq : overflow * 2 = magnitude (infinityBits - 1) + magnitude infinityBits := by
  have hpow : (2 : ℚ) ^ 970 * 2 = 2 ^ 971 := (pow_succ _ _).symm
  rw [magnitude, magnitude, ← add_div, ← Nat.cast_add, units_pred_infinityBits,
    eq_div_iff one_pos'.ne', Nat.cast_mul, Nat.cast_mul, Nat.cast_pow, Nat.cast_ofNat, ← hpow,
    Nat.cast_sub Nat.one_le_two_pow]
  unfold overflow
  generalize (2 : ℚ) ^ 970 = p
  push_cast
  ring

namespace Nearest

/-- The nearest magnitude is a double's below `overflow` and only there. -/
theorem lt_infinityBits_iff (h : Nearest num den k) (hden : 0 < den) :
    k < infinityBits ↔ (num : ℚ) / den < overflow := by
  have heq := overflow_eq
  constructor
  · intro hlt
    by_contra hge
    have hmiddle := h.le_middle hden hlt
    have hle := magnitude_le_iff.mpr (Nat.le_sub_one_of_lt hlt)
    have hlast : infinityBits - 1 ≤ k := magnitude_le_iff.mp (by linarith)
    obtain rfl : k = infinityBits - 1 := Nat.le_antisymm (Nat.le_sub_one_of_lt hlt) hlast
    -- the bits of the greatest finite double are odd
    have heven := h.even_of_dist_eq hden (j := infinityBits) (by decide) (by
      rw [abs_eq_abs]
      right
      linarith)
    revert heven
    decide
  · intro hlt
    by_contra hge
    have hpos : 0 < infinityBits := by decide
    have hmiddle := h.middle_le hden (show infinityBits - 1 < k by omega)
    have hle := magnitude_le_iff.mpr (Nat.not_lt.mp hge)
    linarith

end Nearest

theorem abs_signed_sub (neg : Bool) (a b : ℚ) : |signed neg a - signed neg b| = |a - b| := by
  cases neg
  · rfl
  · simp only [signed, if_true]
    rw [neg_sub_neg, abs_sub_comm]

theorem abs_signed (neg : Bool) (h : 0 ≤ r) : |signed neg r| = r := by
  cases neg
  · exact abs_of_nonneg h
  · rw [signed, if_pos rfl, abs_neg, abs_of_nonneg h]

theorem abs_signed_not_sub (neg : Bool) {a b : ℚ} (ha : 0 ≤ a) (hb : 0 ≤ b) :
    |signed (!neg) a - signed neg b| = a + b := by
  cases neg
  · simp only [signed, Bool.not_false, if_true, Bool.false_eq_true, if_false]
    rw [abs_sub_comm, sub_neg_eq_add, add_comm, abs_of_nonneg (add_nonneg ha hb)]
  · simp only [signed, Bool.not_true, if_true, Bool.false_eq_true, if_false]
    rw [sub_neg_eq_add, abs_of_nonneg (add_nonneg ha hb)]

/-- The double is the number rounded to nearest, with ties to even bits. -/
structure Rounds (x : Binary64) (r : ℚ) : Prop where
  finite : |r| < overflow → ∃ v, x.value? = some v
  infinite : overflow ≤ |r| → ∃ neg, x = infinity neg
  nearest : ∀ {y : Binary64} {v w}, x.value? = some v → y.value? = some w → |v - r| ≤ |w - r|
  even : ∀ {y : Binary64} {v w}, x.value? = some v → y.value? = some w → w ≠ v → |w - r| = |v - r| →
    x.bits.toNat % 2 = 0

/-- The nearest magnitude with a sign, or infinity if it is out of range, rounds the quotient. -/
theorem Nearest.rounds (h : Nearest num den k) (hden : 0 < den) (neg : Bool) :
    Rounds (ofMagnitude neg (min k infinityBits)) (signed neg (num / den)) := by
  have hnonneg : (0 : ℚ) ≤ num / den := div_nonneg (Nat.cast_nonneg _) (Nat.cast_nonneg _)
  have hvalue {v : ℚ} (hv : (ofMagnitude neg (min k infinityBits)).value? = some v) :
      k < infinityBits ∧ v = signed neg (magnitude k) := by
    rcases Nat.lt_or_ge k infinityBits with hlt | hge
    · rw [Nat.min_eq_left (Nat.le_of_lt hlt), value?_ofMagnitude neg hlt, Option.some.injEq] at hv
      exact ⟨hlt, hv.symm⟩
    · rw [Nat.min_eq_right hge, value?_not_finite neg (Nat.le_refl _) infinityBits_lt] at hv
      cases hv
  constructor
  · intro hlt
    rw [abs_signed neg hnonneg, ← h.lt_infinityBits_iff hden] at hlt
    exact ⟨_, by rw [Nat.min_eq_left (Nat.le_of_lt hlt), value?_ofMagnitude neg hlt]⟩
  · intro hge
    rw [abs_signed neg hnonneg, ← not_lt, ← h.lt_infinityBits_iff hden, Nat.not_lt] at hge
    exact ⟨neg, by rw [Nat.min_eq_right hge, infinity]⟩
  · intro y v w hv hw
    obtain ⟨_, rfl⟩ := hvalue hv
    obtain ⟨neg', j, _, _, rfl⟩ := value?_eq_some_iff.mp hw
    rw [abs_signed_sub]
    rcases Bool.eq_or_eq_not neg' neg with rfl | rfl
    · rw [abs_signed_sub]
      exact h.dist_le hden j
    · rw [abs_signed_not_sub neg (magnitude_nonneg j) hnonneg]
      refine (h.dist_le hden j).trans (abs_le.mpr ⟨?_, ?_⟩) <;> linarith [magnitude_nonneg j]
  · intro y v w hv hw hne hdist
    obtain ⟨hlt, rfl⟩ := hvalue hv
    obtain ⟨neg', j, _, _, rfl⟩ := value?_eq_some_iff.mp hw
    have hparity : (ofMagnitude neg (min k infinityBits)).bits.toNat % 2 = k % 2 := by
      rw [Nat.min_eq_left (Nat.le_of_lt hlt),
        toNat_bits_ofMagnitude neg (hlt.trans infinityBits_lt), pow_sixtyThree]
      split <;> omega
    rw [hparity]
    rw [abs_signed_sub] at hdist
    rcases Bool.eq_or_eq_not neg' neg with rfl | rfl
    · rw [abs_signed_sub] at hdist
      exact h.even_of_dist_eq hden (fun heq => hne (heq ▸ rfl)) hdist
    · rw [abs_signed_not_sub neg (magnitude_nonneg j) hnonneg] at hdist
      have hj : |magnitude j - (num : ℚ) / den| ≤ magnitude j + num / den :=
        abs_le.mpr ⟨by linarith [magnitude_nonneg j], by linarith⟩
      have hle := h.dist_le hden j
      refine h.even_of_dist_eq hden (fun heq => ?_) (le_antisymm (hj.trans hdist.le) hle)
      -- a number and its opposite are equally near to another one only if one of the two is zero
      subst heq
      have hzero : magnitude j = 0 := by
        have hle' := h.dist_le hden 0
        rw [magnitude_zero, zero_sub, abs_neg, abs_of_nonneg hnonneg] at hle'
        linarith [magnitude_nonneg j]
      rw [hzero, signed_zero, signed_zero] at hne
      exact hne rfl

theorem rounds_ofRatio (neg : Bool) (num : Nat) (hden : 0 < den) :
    Rounds (ofRatio neg num den) (signed neg (num / den)) := by
  obtain ⟨k, hk, heq⟩ := ofRatio_eq neg num hden
  rw [heq]
  exact hk.rounds hden neg

theorem isNegative_ofRatio (neg : Bool) (num : Nat) (hden : 0 < den) :
    (ofRatio neg num den).isNegative = neg := by
  obtain ⟨k, _, heq⟩ := ofRatio_eq neg num hden
  rw [heq, isNegative_ofMagnitude neg (Nat.lt_of_le_of_lt (Nat.min_le_right ..) infinityBits_lt)]

theorem signed_natAbs (n : Int) : signed (n < 0) (n.natAbs / (1 : Nat)) = (n : ℚ) := by
  rw [Nat.cast_one, div_one, Nat.cast_natAbs, signed]
  split
  · rename_i h
    rw [abs_of_neg (of_decide_eq_true h), Int.cast_neg, neg_neg]
  · rename_i h
    rw [abs_of_nonneg (not_lt.mp fun hlt => h (decide_eq_true hlt))]

theorem rounds_ofInt (n : Int) : Rounds (ofInt n) n := by
  rw [← signed_natAbs n]
  exact rounds_ofRatio _ _ Nat.one_pos

theorem isNegative_ofInt (n : Int) : (ofInt n).isNegative = decide (n < 0) :=
  isNegative_ofRatio _ _ Nat.one_pos

theorem abs_value?_lt (h : x.value? = some v) : |v| < overflow := by
  obtain ⟨neg, k, hk, rfl, rfl⟩ := value?_eq_some_iff.mp h
  have heq := overflow_eq
  have hle := magnitude_le_iff.mpr (Nat.le_sub_one_of_lt hk)
  have hlt : magnitude (infinityBits - 1) < magnitude infinityBits :=
    lt_of_not_ge fun hge => absurd (magnitude_le_iff.mp hge) (by decide)
  rw [abs_signed neg (magnitude_nonneg k)]
  linarith

theorem Rounds.value?_eq (h : Rounds x r) (hr : y.value? = some r) : x.value? = some r := by
  obtain ⟨v, hv⟩ := h.finite (abs_value?_lt hr)
  have hle := h.nearest hv hr
  rw [sub_self, abs_zero] at hle
  rw [hv, sub_eq_zero.mp (abs_eq_zero.mp (le_antisymm hle (abs_nonneg _)))]

theorem Rounds.le_of_le {s : ℚ} (h : Rounds x r) (hv : x.value? = some v) (hs : y.value? = some s)
    (hle : s ≤ r) : s ≤ v := by
  have hnear := h.nearest hv hs
  rw [abs_of_nonpos (sub_nonpos.mpr hle)] at hnear
  linarith [neg_abs_le (v - r)]

theorem Rounds.ge_of_ge {s : ℚ} (h : Rounds x r) (hv : x.value? = some v) (hs : y.value? = some s)
    (hle : r ≤ s) : v ≤ s := by
  have hnear := h.nearest hv hs
  rw [abs_of_nonneg (sub_nonneg.mpr hle)] at hnear
  linarith [le_abs_self (v - r)]

theorem Rounds.le {r' : ℚ} (h : Rounds x r) (h' : Rounds y r') (hlt : r < r')
    (hv : x.value? = some v) (hw : y.value? = some w) : v ≤ w := by
  by_contra hnot
  have hx := h.nearest hv hw
  have hy := h'.nearest hw hv
  rcases abs_cases (v - r) with ⟨h1, _⟩ | ⟨h1, _⟩ <;>
    rcases abs_cases (w - r) with ⟨h2, _⟩ | ⟨h2, _⟩ <;>
    rcases abs_cases (v - r') with ⟨h3, _⟩ | ⟨h3, _⟩ <;>
    rcases abs_cases (w - r') with ⟨h4, _⟩ | ⟨h4, _⟩ <;>
    linarith

/-- A finite double as a quotient, and its integer part by it. -/
theorem exists_quotient (h : x.value? = some v) :
    ∃ neg n d, 0 < d ∧ v = signed neg ((n : Nat) / (d : Nat)) ∧
      (x.isIntegral = true ↔ n % d = 0) ∧
      x.toInt64 = Int64.ofInt (max minInt64 (min maxInt64
        (if neg = true then -((n / d : Nat) : Int) else (n / d : Nat)))) := by
  rw [value?] at h
  split at h
  · rename_i neg m e hclass
    rw [Option.some.injEq] at h
    rcases Int.lt_or_le e 0 with he | he
    · refine ⟨neg, m, 2 ^ (-e).toNat, Nat.two_pow_pos _, ?_, ?_, ?_⟩
      · rw [← h, div_eq_mul_inv, Nat.cast_pow, Nat.cast_ofNat, ← zpow_natCast, ← zpow_neg]
        congr 3
        omega
      · simp [isIntegral, hclass, Int.not_le.mpr he]
      · simp [toInt64, hclass, Int.not_le.mpr he]
    · refine ⟨neg, m * 2 ^ e.toNat, 1, Nat.one_pos, ?_, ?_, ?_⟩
      · rw [← h, Nat.cast_one, div_one, Nat.cast_mul, Nat.cast_pow, Nat.cast_ofNat, ← zpow_natCast]
        congr 3
        omega
      · simp [isIntegral, hclass, he, Nat.mod_one]
      · simp [toInt64, hclass, he]
  · cases h

theorem signed_natCast (neg : Bool) (n : Nat) :
    signed neg n = ((if neg = true then -(n : Int) else n : Int) : ℚ) := by
  cases neg <;> simp [signed]

theorem signed_div_eq_intCast {n d : Nat} {z : Int} (hd : 0 < d) :
    signed neg (n / d) = z ↔
      n = d * z.natAbs ∧ (if neg = true then -(z.natAbs : Int) else z.natAbs) = z := by
  have hd' : (d : ℚ) ≠ 0 := Nat.cast_ne_zero.mpr (Nat.ne_of_gt hd)
  have hcast (hn : n = d * z.natAbs) : (n : ℚ) / d = z.natAbs := by
    rw [hn, Nat.cast_mul, mul_div_cancel_left₀ _ hd']
  constructor
  · intro h
    have habs : (n : ℚ) / d = (z.natAbs : Nat) := by
      rw [← abs_signed neg (div_nonneg (Nat.cast_nonneg n) (Nat.cast_nonneg d)), h, Nat.cast_natAbs,
        Int.cast_abs]
    rw [habs, signed_natCast, Int.cast_inj] at h
    rw [div_eq_iff hd', mul_comm, ← Nat.cast_mul, Nat.cast_inj] at habs
    exact ⟨habs, h⟩
  · rintro ⟨hn, hz⟩
    rw [hcast hn, signed_natCast, hz]

theorem isIntegral_iff (h : x.value? = some v) : x.isIntegral = true ↔ ∃ z : Int, v = z := by
  obtain ⟨neg, n, d, hd, rfl, hintegral, _⟩ := exists_quotient h
  rw [hintegral]
  constructor
  · intro hmod
    refine ⟨if neg = true then -((n / d : Nat) : Int) else (n / d : Nat), ?_⟩
    rw [← signed_natCast, Nat.cast_div (Nat.dvd_of_mod_eq_zero hmod)
      (Nat.cast_ne_zero.mpr (Nat.ne_of_gt hd))]
  · rintro ⟨z, hz⟩
    rw [((signed_div_eq_intCast hd).mp hz).1, Nat.mul_mod_right]

theorem toInt64_of_value? {z : Int} (h : x.value? = some (z : ℚ)) :
    x.toInt64 = Int64.ofInt (max minInt64 (min maxInt64 z)) := by
  obtain ⟨neg, n, d, hd, heq, _, htoInt⟩ := exists_quotient h
  obtain ⟨hn, hz⟩ := (signed_div_eq_intCast hd).mp heq.symm
  rw [htoInt, hn, Nat.mul_div_cancel_left _ hd, hz]

theorem lt_of_classify {m : Nat} {i : Int} (h : x.classify = .finite neg m i) : m < 2 * hidden := by
  have hlt : x.fractionField < hidden := Nat.mod_lt _ (by decide)
  unfold classify at h
  split at h
  · split at h <;> cases h
  · split at h <;> cases h <;> omega

theorem isIntegral_of_large (h : x.value? = some v) (hlarge : 2 ^ 53 ≤ |v|) :
    x.isIntegral = true := by
  rw [value?] at h
  split at h
  · rename_i m i hclass
    rw [Option.some.injEq] at h
    have hm : (m : ℚ) < 2 ^ 53 := by
      have := lt_of_classify hclass
      rw [hidden_eq] at this
      exact_mod_cast (show m < 2 ^ 53 by omega)
    rcases Int.lt_or_le i 0 with hi | hi
    · have hone : (2 : ℚ) ^ i ≤ 1 := zpow_le_one_of_nonpos₀ one_le_two hi.le
      have hle : |v| ≤ m := by
        rw [← h, abs_signed _ (mul_nonneg (Nat.cast_nonneg m) (zpow_nonneg zero_le_two i))]
        exact mul_le_of_le_one_right (Nat.cast_nonneg m) hone
      linarith
    · simp [isIntegral, hclass, hi]
  · cases h

theorem value?_infinity (neg : Bool) : (infinity neg).value? = none :=
  value?_not_finite neg (Nat.le_refl _) infinityBits_lt

theorem value?_nan : nan.value? = none := value?_not_finite false (by decide) (by decide)

theorem isIntegral_of_value?_eq_none (h : x.value? = none) : x.isIntegral = false := by
  unfold value? at h
  unfold isIntegral
  cases hclass : x.classify with
  | finite neg m i =>
    rw [hclass] at h
    cases h
  | infinite | nan => rfl

theorem isIntegral_infinity (neg : Bool) : (infinity neg).isIntegral = false :=
  isIntegral_of_value?_eq_none (value?_infinity neg)

/-! ## Decimal numerals -/

theorem pow_le_ten_pow {a b : Nat} (h : 10 * a ≤ 33 * b) : 2 ^ a ≤ 10 ^ b := by
  rw [← Nat.pow_le_pow_iff_left (show 10 ≠ 0 by decide)]
  calc (2 ^ a) ^ 10 = 2 ^ (10 * a) := by rw [← Nat.pow_mul, Nat.mul_comm]
    _ ≤ 2 ^ (33 * b) := Nat.pow_le_pow_right Nat.two_pos h
    _ = (2 ^ 33) ^ b := Nat.pow_mul ..
    _ ≤ (10 ^ 10) ^ b := Nat.pow_le_pow_left (by decide) b
    _ = (10 ^ b) ^ 10 := by rw [← Nat.pow_mul, ← Nat.pow_mul, Nat.mul_comm]

theorem lt_ten_pow_length (n : Nat) : n < 10 ^ (Nat.toDigits 10 n).length :=
  (Nat.length_toDigits_le_iff (by decide) Nat.length_toDigits_pos).mp (Nat.le_refl _)

theorem ten_pow_length_le {n : Nat} (h : n ≠ 0) : 10 ^ ((Nat.toDigits 10 n).length - 1) ≤ n := by
  rcases Nat.eq_zero_or_pos ((Nat.toDigits 10 n).length - 1) with hzero | hpos
  · rw [hzero]
    exact Nat.one_le_iff_ne_zero.mpr h
  · by_contra hlt
    have := (Nat.length_toDigits_le_iff (by decide) hpos).mpr (Nat.not_le.mp hlt)
    omega

theorem units_infinityBits : units infinityBits = 2 ^ 1024 * one := by
  have hlast : infinityBits = 2045 * hidden + 2 * hidden := by decide
  rw [pow_mul_one (i := 53 + 2045) (by decide), hlast,
    units_grid (Nat.le_refl _) (.inl (by decide)), show 2 * hidden = 2 ^ 53 by decide, ← pow_add]

theorem Nearest.infinityBits_le {exponent : Int} {digits : Nat}
    (h : Nearest (digits * 10 ^ exponent.toNat) (10 ^ (-exponent).toNat) k) (hne : digits ≠ 0)
    (hlarge : ((Nat.toDigits 10 digits).length : Int) + exponent > 320) : infinityBits ≤ k := by
  refine h.le_of_ge (Nat.pow_pos (by decide)) ?_
  rw [units_infinityBits, ← Nat.mul_assoc]
  refine Nat.mul_le_mul_right _ ?_
  have hpow : 2 ^ 1024 ≤ 10 ^ 320 := pow_le_ten_pow (by decide)
  calc 10 ^ (-exponent).toNat * 2 ^ 1024
      ≤ 10 ^ (-exponent).toNat * 10 ^ 320 := Nat.mul_le_mul_left _ hpow
    _ = 10 ^ ((-exponent).toNat + 320) := (pow_add ..).symm
    _ ≤ 10 ^ ((Nat.toDigits 10 digits).length - 1 + exponent.toNat) :=
      Nat.pow_le_pow_right (by decide) (by omega)
    _ = 10 ^ ((Nat.toDigits 10 digits).length - 1) * 10 ^ exponent.toNat := Nat.pow_add ..
    _ ≤ digits * 10 ^ exponent.toNat := Nat.mul_le_mul_right _ (ten_pow_length_le hne)

theorem Nearest.eq_zero {exponent : Int} {digits : Nat}
    (h : Nearest (digits * 10 ^ exponent.toNat) (10 ^ (-exponent).toNat) k)
    (hsmall : ((Nat.toDigits 10 digits).length : Int) + exponent < -340) : k = 0 := by
  by_contra hne
  have hbelow := h.below (k - 1) (by omega)
  have hunits : 1 ≤ units k := units_le (show 1 ≤ k by omega)
  have hle : 10 ^ (-exponent).toNat ≤ 10 ^ (-exponent).toNat * (units (k - 1) + units k) :=
    Nat.le_mul_of_pos_right _ (by omega)
  have hlt : 2 * (digits * 10 ^ exponent.toNat * one) < 10 ^ (-exponent).toNat := by
    obtain ⟨s, hs, hone⟩ := exists_one_eq
    rw [minExponent] at hs
    rw [show exponent.toNat = 0 by omega, Nat.pow_zero, Nat.mul_one]
    have hpow : 2 ^ (s + 1) ≤ 10 ^ 340 := pow_le_ten_pow (by omega)
    calc 2 * (digits * one) = digits * (2 ^ (s + 1)) := by
          rw [hone, Nat.pow_succ]
          ring
      _ < 10 ^ (Nat.toDigits 10 digits).length * 2 ^ (s + 1) :=
        Nat.mul_lt_mul_of_pos_right (lt_ten_pow_length digits) (Nat.two_pow_pos _)
      _ ≤ 10 ^ (Nat.toDigits 10 digits).length * 10 ^ 340 :=
        Nat.mul_le_mul_left _ hpow
      _ = 10 ^ ((Nat.toDigits 10 digits).length + 340) := (pow_add ..).symm
      _ ≤ 10 ^ (-exponent).toNat := Nat.pow_le_pow_right (by decide) (by omega)
  omega

/-- The shortcuts of `ofDecimal` take what the quotient would be rounded to. -/
theorem ofDecimal_eq (neg : Bool) (digits : Nat) (exponent : Int) :
    ∃ k, Nearest (digits * 10 ^ exponent.toNat) (10 ^ (-exponent).toNat) k ∧
      ofDecimal neg digits exponent = ofMagnitude neg (min k infinityBits) := by
  have hden : 0 < 10 ^ (-exponent).toNat := Nat.pow_pos (by decide)
  obtain ⟨k, hk, heq⟩ := ofRatio_eq neg (digits * 10 ^ exponent.toNat) hden
  refine ⟨k, hk, ?_⟩
  simp only [ofDecimal]
  split
  · rename_i hzero
    rw [← heq, hzero, Nat.zero_mul, ofRatio, if_pos rfl]
  rename_i hne
  split
  · rename_i hlarge
    rw [Nat.min_eq_right (hk.infinityBits_le hne hlarge), infinity]
  split
  · rename_i hsmall
    rw [hk.eq_zero hsmall, Nat.zero_min, zero]
  split
  · rename_i hnonneg
    rw [← heq, show (-exponent).toNat = 0 by omega]
    rfl
  · rename_i hneg
    rw [← heq, show exponent.toNat = 0 by omega]
    rw [Nat.pow_zero, Nat.mul_one]
    rfl

theorem rounds_ofDecimal (neg : Bool) (digits : Nat) (exponent : Int) :
    Rounds (ofDecimal neg digits exponent) (signed neg (digits * 10 ^ exponent)) := by
  obtain ⟨k, hk, heq⟩ := ofDecimal_eq neg digits exponent
  have hvalue : (digits : ℚ) * 10 ^ exponent =
      (digits * 10 ^ exponent.toNat : Nat) / (10 ^ (-exponent).toNat : Nat) := by
    rw [Nat.cast_mul, Nat.cast_pow, Nat.cast_pow, Nat.cast_ofNat, ← zpow_natCast, ← zpow_natCast,
      mul_div_assoc, ← zpow_sub₀ (by decide)]
    congr 2
    omega
  rw [heq, hvalue]
  exact hk.rounds (Nat.pow_pos (by decide)) neg

end Binary64
end Midend
