import Mathlib.Data.List.TakeWhile
import Midend.Tree.Decode

/-!
# Midend.Proofs.Numeral

Node numbers as keys. A numeral is a run of digits that starts with `0` only if it is `0`; these are
the texts that the number scanner takes whole and as integers, and each is the decimal text of its
value. So a key names a node just if it is the node's number in decimal.
-/

namespace Midend

/-- The decimal digits of a number, without leading zeros. -/
def IsNumeral (ds : List Char) : Prop :=
  ds ≠ [] ∧ (∀ c ∈ ds, c.isDigit = true) ∧ (ds.head? = some '0' → ds = ['0'])

namespace Text

variable {c : Char} {ds : List Char}

theorem digit_range (h : c.isDigit = true) : 48 ≤ c.toNat ∧ c.toNat ≤ 57 := by
  simp only [Char.isDigit, Bool.and_eq_true, decide_eq_true_eq] at h
  exact ⟨UInt32.le_iff_toNat_le.1 h.1, UInt32.le_iff_toNat_le.1 h.2⟩

theorem digitChar_toNat (h : c.isDigit = true) : Nat.digitChar (c.toNat - 48) = c := by
  have := digit_range h
  rw [← Char.toNat_inj, Nat.toNat_digitChar_of_lt_ten (by omega)]
  omega

theorem decimalValue_toDigits (n : Nat) : decimalValue (Nat.toDigits 10 n) = n := by
  have hfold : decimalValue (Nat.toDigits 10 n) = Nat.ofDigitChars 10 (Nat.toDigits 10 n) 0 := by
    rw [Nat.ofDigitChars_eq_foldl, decimalValue]
    simp only [Nat.mul_comm]
    rfl
  rw [hfold, Nat.ofDigitChars_ten_toDigits]

theorem toDigits_foldl {acc : Nat} (ha : 0 < acc) (h : ∀ c ∈ ds, c.isDigit = true) :
    Nat.toDigits 10 (ds.foldl (fun n d => n * 10 + (d.toNat - 48)) acc) =
      Nat.toDigits 10 acc ++ ds := by
  induction ds generalizing acc with
  | nil => simp
  | cons c ds ih =>
    have hc := digit_range (h c (by simp))
    have hlt : c.toNat - 48 < 10 := by omega
    rw [List.foldl_cons, ih (by omega) fun d hd => h d (by simp [hd]), Nat.mul_comm acc 10,
      ← Nat.toDigits_append_toDigits (by decide) ha hlt, Nat.toDigits_of_lt_base hlt,
      digitChar_toNat (h c (by simp))]
    simp

theorem toDigits_decimalValue (h : IsNumeral ds) : Nat.toDigits 10 (decimalValue ds) = ds := by
  obtain ⟨hne, hdigits, hhead⟩ := h
  cases ds with
  | nil => exact absurd rfl hne
  | cons c ds =>
    by_cases hc : c = '0'
    · rw [hhead (by simp [hc])]
      rfl
    · have hr := digit_range (hdigits c (by simp))
      have h48 : c.toNat ≠ 48 := fun h => hc (Char.toNat_inj.1 h)
      have hlt : c.toNat - 48 < 10 := by omega
      have hrest : ∀ d ∈ ds, d.isDigit = true := fun d hd => hdigits d (by simp [hd])
      rw [decimalValue, List.foldl_cons, toDigits_foldl (by omega) hrest, Nat.zero_mul,
        Nat.zero_add, Nat.toDigits_of_lt_base hlt, digitChar_toNat (hdigits c (by simp))]
      rfl

theorem isNumeral_toDigits (n : Nat) : IsNumeral (Nat.toDigits 10 n) := by
  refine ⟨Nat.toDigits_ne_nil, fun c => Nat.isDigit_of_mem_toDigits (by decide) (by decide), ?_⟩
  induction n using Nat.strongRecOn with
  | ind n ih =>
    intro h
    by_cases hn : n < 10
    · rw [Nat.toDigits_of_lt_base hn] at h ⊢
      simpa using h
    · rw [Nat.toDigits_of_base_le (by decide) (by omega)] at h
      have hdiv : Nat.toDigits 10 (n / 10) = ['0'] := by
        refine ih (n / 10) (by omega) ?_
        cases hd : Nat.toDigits 10 (n / 10) with
        | nil => exact absurd hd Nat.toDigits_ne_nil
        | cons c cs => rwa [hd] at h
      have hzero := decimalValue_toDigits (n / 10)
      rw [hdiv] at hzero
      have : decimalValue ['0'] = 0 := rfl
      omega

end Text

namespace Json

open Text

variable {cs ds rest : List Char}

/-- No number goes on with the text. -/
def EndsNumber (rest : List Char) : Prop :=
  ∀ c ∈ rest.head?, c.isDigit = false ∧ c ≠ '.' ∧ c ≠ 'e' ∧ c ≠ 'E'

theorem EndsNumber.nil : EndsNumber [] := by simp [EndsNumber]

theorem integerPart_append (h : IsNumeral ds) (hrest : EndsNumber rest) :
    integerPart (ds ++ rest) = (ds, rest) := by
  obtain ⟨hne, hdigits, hzero⟩ := h
  have htake : rest.takeWhile Char.isDigit = [] ∧ rest.dropWhile Char.isDigit = rest := by
    cases rest with
    | nil => exact ⟨rfl, rfl⟩
    | cons c cs => simp [(hrest c rfl).1]
  unfold integerPart
  split
  next tail heq =>
    cases ds with
    | nil => exact absurd rfl hne
    | cons d ds =>
      obtain ⟨rfl, rfl⟩ := List.cons.inj heq
      rw [(List.cons.inj (hzero rfl)).2]
      rfl
  next =>
    rw [List.takeWhile_append_of_pos hdigits, List.dropWhile_append_of_pos hdigits, htake.1,
      htake.2, List.append_nil]

theorem fractionPart_of_endsNumber (h : EndsNumber rest) : fractionPart rest = ([], rest) := by
  unfold fractionPart
  split
  next => exact absurd rfl (h _ rfl).2.1
  next => rfl

theorem exponentPart_of_endsNumber (h : EndsNumber rest) : exponentPart rest = ([], rest) := by
  cases rest with
  | nil => rfl
  | cons c cs =>
    obtain ⟨-, -, he, hE⟩ := h c rfl
    simp [exponentPart, he, hE]

theorem not_isNumeral_neg : ¬ IsNumeral ('-' :: cs) := fun h =>
  absurd (h.2.1 '-' List.mem_cons_self) (by decide)

theorem scanNumber_toDigits (n : Nat) (hrest : EndsNumber rest) :
    scanNumber (Nat.toDigits 10 n ++ rest) = some (.int n, rest) := by
  have hnum := isNumeral_toDigits n
  unfold scanNumber
  split
  next neg body hbody =>
  split at hbody
  next tail heq =>
    cases hdigits : Nat.toDigits 10 n with
    | nil => exact absurd hdigits hnum.1
    | cons d ds =>
      rw [hdigits, List.cons_append] at heq
      obtain ⟨rfl, -⟩ := List.cons.inj heq
      exact absurd (hdigits ▸ hnum) not_isNumeral_neg
  next =>
    cases hbody
    simp [integerPart_append hnum hrest, hnum.1, fractionPart_of_endsNumber hrest,
      exponentPart_of_endsNumber hrest, decimalValue_toDigits]

theorem isNumeral_of_integerPart (h : integerPart cs = (ds, [])) (hne : ds ≠ []) :
    cs = ds ∧ IsNumeral ds := by
  unfold integerPart at h
  split at h
  next =>
    cases h
    exact ⟨rfl, by simp, fun c hc => List.mem_singleton.1 hc ▸ rfl, fun _ => rfl⟩
  next hhead =>
    obtain ⟨rfl, hdrop⟩ := Prod.mk.inj h
    have hall := List.dropWhile_eq_nil_iff.1 hdrop
    rw [List.takeWhile_eq_self_iff.2 hall] at hne ⊢
    refine ⟨rfl, hne, hall, fun h0 => ?_⟩
    obtain ⟨rest, rfl⟩ := List.head?_eq_some_iff.1 h0
    exact absurd rfl (hhead rest)

theorem fractionPart_rest (h : fractionPart cs = ([], rest)) : rest = cs := by
  unfold fractionPart at h
  split at h
  · split at h
    · exact (Prod.mk.inj h).2.symm
    · cases h
  · exact (Prod.mk.inj h).2.symm

theorem exponentPart_rest (h : exponentPart cs = ([], rest)) : rest = cs := by
  unfold exponentPart at h
  split at h
  · split at h
    · dsimp only at h
      split at h
      · exact (Prod.mk.inj h).2.symm
      · cases h
    · exact (Prod.mk.inj h).2.symm
  · exact (Prod.mk.inj h).2.symm

/-- The scanner takes a whole text as a natural number just if it is that number in decimal. -/
theorem scanNumber_eq_nat {n : Nat} :
    scanNumber cs = some (.int n, []) ↔ cs = Nat.toDigits 10 n := by
  constructor
  · intro h
    unfold scanNumber at h
    split at h
    next neg body hbody =>
    split at h
    next whole r hwhole =>
    split at h
    next => cases h
    next hne =>
    split at h
    next frac r₁ hfrac =>
    split at h
    next exp r₂ hexp =>
    dsimp only at h
    split at h
    next hint =>
      simp only [Bool.and_eq_true, List.isEmpty_iff] at hint
      obtain ⟨⟨rfl, rfl⟩, hzero⟩ := hint
      simp only [Option.some.injEq, Prod.mk.injEq, Token.int.injEq] at h
      obtain ⟨hvalue, rfl⟩ := h
      obtain rfl := exponentPart_rest hexp
      obtain rfl := fractionPart_rest hfrac
      obtain ⟨rfl, hnum⟩ := isNumeral_of_integerPart hwhole (by simpa using hne)
      -- A minus sign is left only before a number that is not nought, which has no natural value.
      cases neg with
      | true =>
        simp at hzero hvalue
        omega
      | false =>
        simp only [Bool.false_eq_true, if_false, Int.natCast_inj] at hvalue
        rw [← hvalue, toDigits_decimalValue hnum]
        split at hbody
        · cases hbody
        · exact (Prod.mk.inj hbody).2
    next => cases h
  · rintro rfl
    simpa using scanNumber_toDigits n EndsNumber.nil

end Json

theorem NodeId.ofText?_eq_some {text : String} {id : NodeId} :
    NodeId.ofText? text = some id ↔ text = toString id.val.toNat := by
  rw [Nat.toString_eq_repr, Nat.repr_eq_ofList_toDigits, ← String.toList_inj, String.toList_ofList,
    ← Json.scanNumber_eq_nat]
  unfold NodeId.ofText?
  constructor
  · intro h
    split at h
    next n hscan =>
      split at h
      next hlt =>
        cases h
        rw [hscan, UInt32.toNat_ofNat_of_lt' hlt]
        rfl
      next => cases h
    next => cases h
  · intro h
    rw [h]
    have hlt : id.val.toNat < UInt32.size := id.val.toNat_lt
    simp [hlt]

theorem NodeId.ofKey?_eq_some {key : Json.Key} {id : NodeId} :
    NodeId.ofKey? key = some id ↔ key = ⟨toString id.val.toNat, false⟩ := by
  obtain ⟨text, escaped⟩ := key
  cases escaped <;> simp [NodeId.ofKey?, NodeId.ofText?_eq_some]

end Midend
