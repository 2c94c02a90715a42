import Mathlib.Tactic.Linarith
import Mathlib.Tactic.Ring
import Midend.Number.Binary64

/-!
# Midend.Proofs.Rounding

Rounding to doubles, in whole numbers. All magnitudes of doubles are multiples of the least one:
`units k` is how many of them the magnitude with the bits `k` has, and it grows with `k`. `Nearest`
says that no magnitude is nearer to a quotient, and which one it is where two are equally near; it
holds of what `ofRatio` takes (`ofRatio_eq`).
-/

namespace Midend
namespace Binary64

theorem hidden_eq : hidden = 4503599627370496 := by decide

theorem hidden_eq_pow : hidden = 2 ^ 52 := rfl

theorem infinityBits_eq : infinityBits = 2047 * hidden := rfl

/-- The magnitude with the bits `k`, in units of the least one. After those of infinity, the bits go
on as if the exponent had no bound. -/
def units (k : Nat) : Nat := if k < hidden then k else (hidden + k % hidden) * 2 ^ (k / hidden - 1)

variable {e q k j num den n d : Nat}

theorem units_grid (hq : q ≤ 2 * hidden) (hnormal : hidden ≤ q ∨ e = 0) :
    units (e * hidden + q) = q * 2 ^ e := by
  have hpos : 0 < hidden := by decide
  rcases Nat.lt_or_ge q hidden with hlt | hge
  · obtain rfl : e = 0 := hnormal.resolve_left (Nat.not_le.mpr hlt)
    rw [Nat.zero_mul, Nat.zero_add, units, if_pos hlt, Nat.pow_zero, Nat.mul_one]
  · have hnot : ¬ e * hidden + q < hidden := by omega
    rw [units, if_neg hnot]
    rcases Nat.eq_or_lt_of_le hq with rfl | hlt
    · have hbits : e * hidden + 2 * hidden = (e + 2) * hidden := by ring
      rw [hbits, Nat.mul_mod_left, Nat.mul_div_cancel _ hpos, Nat.add_zero,
        show e + 2 - 1 = e + 1 from rfl, Nat.pow_succ]
      ring
    · obtain ⟨r, rfl⟩ := Nat.exists_eq_add_of_le hge
      have hr : r < hidden := by omega
      have hbits : e * hidden + (hidden + r) = r + (e + 1) * hidden := by ring
      rw [hbits, Nat.add_mul_mod_self_right, Nat.mod_eq_of_lt hr, Nat.add_mul_div_right _ _ hpos,
        Nat.div_eq_of_lt hr, Nat.zero_add, Nat.add_sub_cancel]

theorem exists_grid (k : Nat) :
    ∃ e q, k = e * hidden + q ∧ q < 2 * hidden ∧ (hidden ≤ q ∨ e = 0) := by
  rcases Nat.lt_or_ge k hidden with hlt | hge
  · exact ⟨0, k, by omega, by omega, .inr rfl⟩
  · have hpos : 0 < hidden := by decide
    have hdiv : 1 ≤ k / hidden := (Nat.one_le_div_iff hpos).mpr hge
    have hmod := Nat.mod_lt k hpos
    refine ⟨k / hidden - 1, hidden + k % hidden, ?_, by omega, .inl (by omega)⟩
    calc k = k / hidden * hidden + k % hidden := by rw [Nat.mul_comm, Nat.div_add_mod]
      _ = (k / hidden - 1 + 1) * hidden + k % hidden := by rw [Nat.sub_add_cancel hdiv]
      _ = (k / hidden - 1) * hidden + (hidden + k % hidden) := by ring

theorem units_lt_succ (k : Nat) : units k < units (k + 1) := by
  obtain ⟨e, q, rfl, hq, hnormal⟩ := exists_grid k
  rw [Nat.add_assoc, units_grid (by omega) hnormal, units_grid (by omega) (by omega)]
  exact Nat.mul_lt_mul_of_pos_right (Nat.lt_succ_self q) (Nat.two_pow_pos e)

theorem units_lt (h : j < k) : units j < units k := by
  induction h with
  | refl => exact units_lt_succ j
  | step _ ih => exact ih.trans (units_lt_succ _)

theorem units_le (h : j ≤ k) : units j ≤ units k := by
  rcases Nat.eq_or_lt_of_le h with rfl | hlt
  · exact Nat.le_refl _
  · exact Nat.le_of_lt (units_lt hlt)

theorem units_le_iff : units j ≤ units k ↔ j ≤ k :=
  ⟨fun h => Nat.not_lt.mp fun hlt => Nat.not_le.mpr (units_lt hlt) h, units_le⟩

/-- One, in units of the least magnitude. -/
@[irreducible] def one : Nat := Nat.pow 2 (-minExponent).toNat

theorem exists_one_eq : ∃ s : Nat, (s : Int) = -minExponent ∧ one = 2 ^ s := by
  refine ⟨(-minExponent).toNat, by decide, ?_⟩
  unfold one
  generalize (-minExponent).toNat = s
  rfl

theorem one_pos : 0 < one := by
  obtain ⟨s, _, hone⟩ := exists_one_eq
  exact hone ▸ Nat.two_pow_pos s

/-- The quotient `num / den` lies between the middles to the magnitudes before and after the one
with the bits `k`, and on a middle only if `k` is even. -/
structure Nearest (num den k : Nat) : Prop where
  below : ∀ j, j + 1 = k → den * (units j + units k) ≤ 2 * (num * one)
  above : 2 * (num * one) ≤ den * (units k + units (k + 1))
  even_below : ∀ j, j + 1 = k → den * (units j + units k) = 2 * (num * one) → k % 2 = 0
  even_above : 2 * (num * one) = den * (units k + units (k + 1)) → k % 2 = 0

namespace Nearest

variable {k' : Nat}

/-- A quotient that is a magnitude is nearest to itself. -/
theorem of_exact (hden : 0 < den) (h : num * one = den * units k) : Nearest num den k where
  below j hj := by
    have := Nat.mul_lt_mul_of_pos_left (units_lt (show j < k by omega)) hden
    rw [Nat.mul_add]
    omega
  above := by
    have := Nat.mul_lt_mul_of_pos_left (units_lt_succ k) hden
    rw [Nat.mul_add]
    omega
  even_below j hj heq := by
    have := Nat.mul_lt_mul_of_pos_left (units_lt (show j < k by omega)) hden
    rw [Nat.mul_add] at heq
    omega
  even_above heq := by
    have := Nat.mul_lt_mul_of_pos_left (units_lt_succ k) hden
    rw [Nat.mul_add] at heq
    omega

/-- What is nearest is not below a magnitude that the quotient is not below. -/
theorem le_of_ge (h : Nearest num den k) (hden : 0 < den) (hle : den * units k' ≤ num * one) :
    k' ≤ k := by
  by_contra hnot
  have habove := h.above
  have hlt := Nat.mul_lt_mul_of_pos_left (units_lt_succ k) hden
  have hle' := Nat.mul_le_mul_left den (units_le (show k + 1 ≤ k' by omega))
  rw [Nat.mul_add] at habove
  omega

end Nearest

/-! ## What a quotient is rounded to -/

/-- The whole number `q` is within a half of `n / d`, and even where it is a half away. -/
structure HalfEven (n d q : Nat) : Prop where
  low : d * (2 * q) ≤ 2 * n + d
  high : 2 * n ≤ d * (2 * q + 1)
  even_low : d * (2 * q) = 2 * n + d → q % 2 = 0
  even_high : 2 * n = d * (2 * q + 1) → q % 2 = 0

theorem halfEven_roundHalfEven (hd : 0 < d) : HalfEven n d (roundHalfEven n d) := by
  have hdiv := Nat.div_add_mod n d
  have hmod := Nat.mod_lt n hd
  have hup : d * (2 * (n / d + 1)) = 2 * (d * (n / d)) + 2 * d := by ring
  have hup' : d * (2 * (n / d + 1) + 1) = 2 * (d * (n / d)) + 3 * d := by ring
  have hdown : d * (2 * (n / d)) = 2 * (d * (n / d)) := by ring
  have hdown' : d * (2 * (n / d) + 1) = 2 * (d * (n / d)) + d := by ring
  simp only [roundHalfEven]
  split
  · constructor <;> omega
  · constructor <;> omega

/-- What a quotient is rounded to does not depend on how it is written. -/
theorem HalfEven.cross {n' d' : Nat} (h : HalfEven n d q) (heq : n * d' = n' * d) (hd : 0 < d)
    (hd' : 0 < d') : HalfEven n' d' q where
  low := by
    refine Nat.le_of_mul_le_mul_left ?_ hd
    calc d * (d' * (2 * q)) = d' * (d * (2 * q)) := by ring
      _ ≤ d' * (2 * n + d) := Nat.mul_le_mul_left _ h.low
      _ = 2 * (n * d') + d * d' := by ring
      _ = d * (2 * n' + d') := by
        rw [heq]
        ring
  high := by
    refine Nat.le_of_mul_le_mul_left ?_ hd
    calc d * (2 * n') = 2 * (n * d') := by
          rw [heq]
          ring
      _ = d' * (2 * n) := by ring
      _ ≤ d' * (d * (2 * q + 1)) := Nat.mul_le_mul_left _ h.high
      _ = d * (d' * (2 * q + 1)) := by ring
  even_low hsame := by
    refine h.even_low (Nat.eq_of_mul_eq_mul_left hd' ?_)
    calc d' * (d * (2 * q)) = d * (d' * (2 * q)) := by ring
      _ = 2 * (n * d') + d * d' := by
        rw [hsame, heq]
        ring
      _ = d' * (2 * n + d) := by ring
  even_high hsame := by
    refine h.even_high (Nat.eq_of_mul_eq_mul_left hd' ?_)
    calc d' * (2 * n) = 2 * (n * d') := by ring
      _ = d * (2 * n') := by
        rw [heq]
        ring
      _ = d' * (d * (2 * q + 1)) := by
        rw [hsame]
        ring

theorem pow_one_mul {e : Int} (hmin : minExponent ≤ e) (he : 0 ≤ e) :
    one * 2 ^ e.toNat = 2 ^ (e - minExponent).toNat := by
  obtain ⟨s, hs, hone⟩ := exists_one_eq
  rw [hone, ← Nat.pow_add, show s + e.toNat = (e - minExponent).toNat by omega]

theorem pow_mul_pow {e : Int} (hmin : minExponent ≤ e) (he : e < 0) :
    2 ^ (-e).toNat * 2 ^ (e - minExponent).toNat = one := by
  obtain ⟨s, hs, hone⟩ := exists_one_eq
  rw [hone, ← Nat.pow_add, show (-e).toNat + (e - minExponent).toNat = s by omega]

/-- `scale` divides by `2 ^ e`: its quotient is the one of the units of `num` by those of
`den * 2 ^ e`. -/
theorem scale_spec {e : Int} (num : Nat) (hmin : minExponent ≤ e) (hden : 0 < den) :
    0 < (scale num den e).2 ∧
      (scale num den e).1 * (den * 2 ^ (e - minExponent).toNat) =
        num * one * (scale num den e).2 := by
  unfold scale
  split
  · rename_i he
    refine ⟨Nat.mul_pos hden (Nat.two_pow_pos _), ?_⟩
    calc num * (den * 2 ^ (e - minExponent).toNat) = num * (den * (one * 2 ^ e.toNat)) := by
          rw [pow_one_mul hmin he]
      _ = num * one * (den * 2 ^ e.toNat) := by ring
  · rename_i he
    refine ⟨hden, ?_⟩
    calc num * 2 ^ (-e).toNat * (den * 2 ^ (e - minExponent).toNat)
        = num * (2 ^ (-e).toNat * 2 ^ (e - minExponent).toNat) * den := by ring
      _ = num * one * den := by rw [pow_mul_pow hmin (Int.not_le.mp he)]

/-- The exponent that the binary digits of a quotient are counted from. -/
def guess (num den : Nat) : Int := max ((num.log2 : Int) - den.log2 - 52) minExponent

/-- The first guess at the exponent is right or too great by one: a quotient of numbers with `L` and
`M` binary digits is between `2 ^ (L - M - 1)` and `2 ^ (L - M + 1)`. -/
theorem guess_spec (hnum : num ≠ 0) (hden : 0 < den) :
    num * one < 2 * hidden * (den * 2 ^ (guess num den - minExponent).toNat) ∧
      ((guess num den - minExponent).toNat = 0 ∨
        hidden * (den * 2 ^ (guess num den - minExponent).toNat) ≤ 2 * (num * one)) := by
  have hlow : 2 ^ num.log2 ≤ num := Nat.log2_self_le hnum
  have hhigh : num < 2 ^ (num.log2 + 1) := Nat.lt_log2_self
  have hlow' : 2 ^ den.log2 ≤ den := Nat.log2_self_le (Nat.ne_of_gt hden)
  have hhigh' : den < 2 ^ (den.log2 + 1) := Nat.lt_log2_self
  have hneg : minExponent < 0 := by decide
  obtain ⟨s, hs, hone⟩ := exists_one_eq
  rw [hone, hidden_eq_pow, guess]
  generalize minExponent = least at *
  generalize hE : (max ((num.log2 : Int) - den.log2 - 52) least - least).toNat = E
  constructor
  · calc num * 2 ^ s < 2 ^ (num.log2 + 1) * 2 ^ s :=
          Nat.mul_lt_mul_of_pos_right hhigh (Nat.two_pow_pos s)
      _ = 2 ^ (num.log2 + 1 + s) := (Nat.pow_add ..).symm
      _ ≤ 2 ^ (1 + 52 + (den.log2 + E)) := Nat.pow_le_pow_right Nat.two_pos (by omega)
      _ = 2 * 2 ^ 52 * (2 ^ den.log2 * 2 ^ E) := by rw [Nat.pow_add, Nat.pow_add, Nat.pow_add]
      _ ≤ 2 * 2 ^ 52 * (den * 2 ^ E) :=
        Nat.mul_le_mul_left _ (Nat.mul_le_mul_right _ hlow')
  · rcases Nat.eq_zero_or_pos E with hzero | hpos
    · exact .inl hzero
    · right
      calc 2 ^ 52 * (den * 2 ^ E) ≤ 2 ^ 52 * (2 ^ (den.log2 + 1) * 2 ^ E) :=
            Nat.mul_le_mul_left _ (Nat.mul_le_mul_right _ (Nat.le_of_lt hhigh'))
        _ = 2 ^ (52 + (den.log2 + 1 + E)) := by rw [Nat.pow_add 2 52, Nat.pow_add _ (den.log2 + 1)]
        _ ≤ 2 ^ (1 + (num.log2 + s)) := Nat.pow_le_pow_right Nat.two_pos (by omega)
        _ = 2 * (2 ^ num.log2 * 2 ^ s) := by rw [Nat.pow_add, Nat.pow_add, Nat.pow_one]
        _ ≤ 2 * (num * 2 ^ s) := Nat.mul_le_mul_left _ (Nat.mul_le_mul_right _ hlow)

theorem exponentOf_eq (num den : Nat) :
    exponentOf num den =
      if (scale num den (guess num den)).1 / (scale num den (guess num den)).2 < hidden then
        max (guess num den - 1) minExponent
      else guess num den := rfl

/-- At the exponent of a quotient it has at most 53 binary digits before the point, and not fewer
unless the exponent is the least. -/
theorem exponentOf_spec (hnum : num ≠ 0) (hden : 0 < den) :
    minExponent ≤ exponentOf num den ∧
      num * one < 2 * hidden * (den * 2 ^ (exponentOf num den - minExponent).toNat) ∧
      ((exponentOf num den - minExponent).toNat = 0 ∨
        hidden * (den * 2 ^ (exponentOf num den - minExponent).toNat) ≤ num * one) := by
  have hmin : minExponent ≤ guess num den := Int.le_max_right ..
  obtain ⟨hpos, hscale⟩ := scale_spec num hmin hden
  obtain ⟨hupper, hlower⟩ := guess_spec hnum hden
  have hquotient : (scale num den (guess num den)).1 / (scale num den (guess num den)).2 < hidden ↔
      num * one < hidden * (den * 2 ^ (guess num den - minExponent).toNat) := by
    rw [Nat.div_lt_iff_lt_mul hpos, ← Nat.mul_lt_mul_right (Nat.mul_pos hden (Nat.two_pow_pos _)),
      hscale, Nat.mul_right_comm hidden, Nat.mul_lt_mul_right hpos]
  rw [exponentOf_eq]
  split
  · rename_i hlt
    rw [hquotient] at hlt
    refine ⟨Int.le_max_right .., ?_⟩
    rcases Nat.eq_zero_or_pos (guess num den - minExponent).toNat with hzero | hE
    · have hsame : max (guess num den - 1) minExponent = guess num den := by omega
      rw [hsame]
      exact ⟨hupper, .inl hzero⟩
    · have hsucc : (guess num den - minExponent).toNat =
          (max (guess num den - 1) minExponent - minExponent).toNat + 1 := by omega
      have hhalf := hlower.resolve_left (Nat.ne_of_gt hE)
      have htwo (a b : Nat) : a * (den * 2 ^ (b + 1)) = 2 * (a * (den * 2 ^ b)) := by ring
      rw [hsucc, htwo] at hlt hhalf
      rw [Nat.mul_assoc]
      exact ⟨hlt, .inr (Nat.le_of_mul_le_mul_left hhalf Nat.two_pos)⟩
  · rename_i hge
    rw [hquotient] at hge
    exact ⟨hmin, hupper, .inr (Nat.not_lt.mp hge)⟩

/-- The magnitude after one of `q` units of the size `2 ^ e` has one unit more, or two where the
size doubles. -/
theorem units_succ_grid (hq : q ≤ 2 * hidden) (hnormal : hidden ≤ q ∨ e = 0) :
    units (e * hidden + q + 1) = (q + 1) * 2 ^ e ∨
      q = 2 * hidden ∧ units (e * hidden + q + 1) = (q + 2) * 2 ^ e := by
  have hpos : 0 < hidden := by decide
  rcases Nat.eq_or_lt_of_le hq with rfl | hlt
  · right
    have hbits : e * hidden + 2 * hidden + 1 = (e + 1) * hidden + (hidden + 1) := by ring
    rw [hbits, units_grid (by omega) (.inl (by omega)), Nat.pow_succ]
    exact ⟨rfl, by ring⟩
  · left
    rw [Nat.add_assoc, units_grid hlt (hnormal.imp_left fun h => by omega)]

/-- The magnitude before one of `q + 1` units of the size `2 ^ e` has one unit less, or half a unit
where the size has just doubled. -/
theorem units_pred_grid (hq : q + 1 ≤ 2 * hidden) (hnormal : hidden ≤ q + 1 ∨ e = 0) :
    units (e * hidden + q) = q * 2 ^ e ∨
      e ≠ 0 ∧ q + 1 = hidden ∧ 2 * units (e * hidden + q) = (2 * q + 1) * 2 ^ e := by
  have hpos : 0 < hidden := by decide
  rcases Nat.eq_zero_or_pos e with rfl | he
  · exact .inl (units_grid (by omega) (.inr rfl))
  rcases Nat.lt_or_ge q hidden with hlt | hge
  · right
    obtain ⟨f, rfl⟩ : ∃ f, e = f + 1 := ⟨e - 1, by omega⟩
    have hbits : (f + 1) * hidden + q = f * hidden + (hidden + q) := by ring
    have hone : q + 1 = hidden := by omega
    rw [hbits, units_grid (by omega) (.inl (by omega)), Nat.pow_succ, ← hone]
    exact ⟨Nat.succ_ne_zero f, rfl, by ring⟩
  · exact .inl (units_grid (by omega) (.inl hge))

/-- The middle to the magnitude after one of `q` units is half a unit away at least. -/
theorem middle_after_grid (den : Nat) (hq : q ≤ 2 * hidden) (hgrid : hidden ≤ q ∨ e = 0) :
    den * 2 ^ e * (2 * q + 1) ≤ den * (units (e * hidden + q) + units (e * hidden + q + 1)) := by
  have hsucc : (q + 1) * 2 ^ e ≤ units (e * hidden + q + 1) := by
    rcases units_succ_grid hq hgrid with h | ⟨_, h⟩
    · exact Nat.le_of_eq h.symm
    · exact h ▸ Nat.mul_le_mul_right _ (by omega)
  calc den * 2 ^ e * (2 * q + 1) = den * (q * 2 ^ e + (q + 1) * 2 ^ e) := by ring
    _ ≤ _ := Nat.mul_le_mul_left _ (units_grid hq hgrid ▸ Nat.add_le_add_left hsucc _)

/-- The middle to the magnitude before one of `q + 1` units is half a unit away, or a quarter where
the size has just doubled. -/
theorem middle_before_grid (den : Nat) (hq : q + 1 ≤ 2 * hidden) (hgrid : hidden ≤ q + 1 ∨ e = 0) :
    den * (units (e * hidden + q) + units (e * hidden + (q + 1))) + den * 2 ^ e =
        den * 2 ^ e * (2 * (q + 1)) ∨
      e ≠ 0 ∧ 2 * (den * (units (e * hidden + q) + units (e * hidden + (q + 1)))) + den * 2 ^ e =
        4 * (hidden * (den * 2 ^ e)) := by
  have hself := units_grid hq hgrid
  rcases units_pred_grid hq hgrid with h | ⟨he, hp, h⟩
  · left
    rw [h, hself]
    ring
  · right
    refine ⟨he, ?_⟩
    calc 2 * (den * (units (e * hidden + q) + units (e * hidden + (q + 1)))) + den * 2 ^ e
        = den * (2 * units (e * hidden + q) + 2 * units (e * hidden + (q + 1))) + den * 2 ^ e := by
          ring
      _ = 4 * ((q + 1) * (den * 2 ^ e)) := by
          rw [h, hself]
          ring
      _ = 4 * (hidden * (den * 2 ^ e)) := by rw [hp]

/-- A quotient with at most 53 binary digits before the point is at most `2 * hidden` units. -/
theorem HalfEven.le_grid (hden : 0 < den) (hfit : num * one < 2 * hidden * (den * 2 ^ e))
    (h : HalfEven (num * one) (den * 2 ^ e) q) : q ≤ 2 * hidden := by
  have hpos : 0 < den * 2 ^ e := Nat.mul_pos hden (Nat.two_pow_pos e)
  have hlt : den * 2 ^ e * (2 * q) < den * 2 ^ e * (2 * (2 * hidden) + 1) := by
    calc den * 2 ^ e * (2 * q) ≤ 2 * (num * one) + den * 2 ^ e := h.low
      _ < 2 * (2 * hidden * (den * 2 ^ e)) + den * 2 ^ e := by omega
      _ = den * 2 ^ e * (2 * (2 * hidden) + 1) := by ring
  have := Nat.lt_of_mul_lt_mul_left hlt
  omega

theorem HalfEven.grid_le (hden : 0 < den) (hnormal : hidden * (den * 2 ^ e) ≤ num * one)
    (h : HalfEven (num * one) (den * 2 ^ e) q) : hidden ≤ q := by
  have hle : den * 2 ^ e * (2 * hidden) ≤ den * 2 ^ e * (2 * q + 1) := by
    calc den * 2 ^ e * (2 * hidden) = 2 * (hidden * (den * 2 ^ e)) := by ring
      _ ≤ 2 * (num * one) := Nat.mul_le_mul_left 2 hnormal
      _ ≤ _ := h.high
  have := Nat.le_of_mul_le_mul_left hle (Nat.mul_pos hden (Nat.two_pow_pos e))
  omega

/-- Rounding to whole units of the size `2 ^ e` finds the nearest magnitude, when the quotient has
at most 53 binary digits before the point then, and not fewer unless `e = 0`. -/
theorem Nearest.of_grid (hden : 0 < den) (hfit : num * one < 2 * hidden * (den * 2 ^ e))
    (hnormal : e = 0 ∨ hidden * (den * 2 ^ e) ≤ num * one)
    (hround : HalfEven (num * one) (den * 2 ^ e) q) : Nearest num den (e * hidden + q) := by
  have hq : q ≤ 2 * hidden := hround.le_grid hden hfit
  have hgrid : hidden ≤ q ∨ e = 0 := hnormal.symm.imp_left fun hle => hround.grid_le hden hle
  obtain ⟨hlow, hhigh, heven, heven'⟩ := hround
  have hD : 0 < den * 2 ^ e := Nat.mul_pos hden (Nat.two_pow_pos e)
  have hparity : (e * hidden + q) % 2 = q % 2 := by
    rw [hidden_eq]
    omega
  have hafter := middle_after_grid den hq hgrid
  have hbefore (j : Nat) (hj : j + 1 = e * hidden + q) :
      den * (units j + units (e * hidden + q)) ≤ 2 * (num * one) ∧
        (den * (units j + units (e * hidden + q)) = 2 * (num * one) →
          den * 2 ^ e * (2 * q) = 2 * (num * one) + den * 2 ^ e) := by
    obtain ⟨p, rfl⟩ : ∃ p, q = p + 1 := by
      refine ⟨q - 1, ?_⟩
      rcases hgrid with h | rfl
      · rw [hidden_eq] at h
        omega
      · omega
    obtain rfl : j = e * hidden + p := by omega
    rcases middle_before_grid den hq hgrid with hsum | ⟨he, hsum⟩
    · omega
    · have hfull := hnormal.resolve_left he
      omega
  refine ⟨fun j hj => (hbefore j hj).1, hhigh.trans hafter, fun j hj heq => ?_, fun heq => ?_⟩
  · rw [hparity]
    exact heven ((hbefore j hj).2 heq)
  · rw [hparity]
    exact heven' (Nat.le_antisymm hhigh (hafter.trans_eq heq.symm))

theorem ofRatio_of_pos (neg : Bool) (hnum : num ≠ 0) :
    ofRatio neg num den = ofMagnitude neg (min ((exponentOf num den - minExponent).toNat * hidden +
      roundHalfEven (scale num den (exponentOf num den)).1 (scale num den (exponentOf num den)).2)
        infinityBits) := by
  rw [ofRatio, if_neg hnum]

/-- `ofRatio` takes the nearest magnitude, and infinity if that is out of range. -/
theorem ofRatio_eq (neg : Bool) (num : Nat) (hden : 0 < den) :
    ∃ k, Nearest num den k ∧ ofRatio neg num den = ofMagnitude neg (min k infinityBits) := by
  by_cases hnum : num = 0
  · subst hnum
    refine ⟨0, .of_exact hden (by rw [Nat.zero_mul]; rfl), ?_⟩
    rw [ofRatio, if_pos rfl, Nat.zero_min, zero]
  · refine ⟨_, ?_, ofRatio_of_pos neg hnum⟩
    obtain ⟨hmin, hfit, hnormal⟩ := exponentOf_spec hnum hden
    obtain ⟨hpos, hscale⟩ := scale_spec num hmin hden
    exact .of_grid hden hfit hnormal ((halfEven_roundHalfEven hpos).cross hscale hpos
      (Nat.mul_pos hden (Nat.two_pow_pos _)))

end Binary64
end Midend
