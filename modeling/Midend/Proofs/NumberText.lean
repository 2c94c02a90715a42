import Mathlib.Data.List.Forall2
import Mathlib.Data.Nat.Digits.Defs
import Midend.Proofs.FloatValue
import Midend.Tree.Literal

/-!
# Midend.Proofs.NumberText

The texts of integer and float literals. `IntegerText` says which text denotes which natural number,
with any prefix; `integer?` reads these texts, with numbers below `2 ^ 64`, and no others
(`integer?_eq_some_iff`). `DecimalText` says which text denotes which decimal numeral; a float
literal with such a text is the numeral correctly rounded (`exists_float?`), and one without is no
finite number (`floatText_of_float?`).
-/

namespace Midend

namespace Text

variable {base acc n m d : Nat} {c : Char} {ds : List Char}

/-- The digits denote the number in a base, the last digit counting ones. -/
def Spells (base : Nat) (ds : List Char) (n : Nat) : Prop :=
  ∃ values, List.Forall₂ (fun c d => digit? base c = some d) ds values ∧
    n = Nat.ofDigits base values.reverse

theorem digitsFrom?_eq_some_iff : digitsFrom? base acc ds = some n ↔
    ∃ values, List.Forall₂ (fun c d => digit? base c = some d) ds values ∧
      n = acc * base ^ ds.length + Nat.ofDigits base values.reverse := by
  induction ds generalizing acc with
  | nil => simp [digitsFrom?, eq_comm]
  | cons c ds ih =>
    have hstep {d : Nat} {values : List Nat} (hlength : ds.length = values.length) :
        (acc * base + d) * base ^ ds.length + Nat.ofDigits base values.reverse =
          acc * base ^ (c :: ds).length + Nat.ofDigits base (d :: values).reverse := by
      rw [List.reverse_cons, Nat.ofDigits_append, Nat.ofDigits_singleton, List.length_reverse,
        ← hlength, List.length_cons, Nat.pow_succ]
      ring
    rw [digitsFrom?]
    constructor
    · intro h
      split at h
      · rename_i d hd
        obtain ⟨values, hvalues, rfl⟩ := ih.mp h
        exact ⟨d :: values, .cons hd hvalues, hstep hvalues.length_eq⟩
      · cases h
    · rintro ⟨values, hvalues, rfl⟩
      cases hvalues with
      | cons hd hvalues =>
        rw [hd]
        exact ih.mpr ⟨_, hvalues, (hstep hvalues.length_eq).symm⟩

theorem digits?_eq_some_iff : digits? base ds = some n ↔ Spells base ds n := by
  rw [digits?, digitsFrom?_eq_some_iff, Spells]
  simp only [Nat.zero_mul, Nat.zero_add]

theorem Spells.unique (h : Spells base ds n) (h' : Spells base ds m) : n = m := by
  rw [← digits?_eq_some_iff] at h h'
  exact Option.some.inj (h.symm.trans h')

theorem isDigit_iff (c : Char) : c.isDigit = true ↔ 48 ≤ c.toNat ∧ c.toNat ≤ 57 := by
  rw [Char.isDigit, Bool.and_eq_true, decide_eq_true_eq, decide_eq_true_eq, ge_iff_le,
    UInt32.le_iff_toNat_le, UInt32.le_iff_toNat_le]
  rfl

theorem digit?_ten (c : Char) :
    digit? 10 c = if c.isDigit = true then some (c.toNat - 48) else none := by
  have hle (a b : Char) : a ≤ b ↔ a.toNat ≤ b.toNat := UInt32.le_iff_toNat_le
  simp only [digit?, hexDigit?, isDigit_iff, hle]
  have h0 : '0'.toNat = 48 := rfl
  have h9 : '9'.toNat = 57 := rfl
  have ha : 'a'.toNat = 97 := rfl
  have hA : 'A'.toNat = 65 := rfl
  rw [h0, h9, ha, hA]
  split_ifs
  · exact if_pos (by omega)
  · exact if_neg (by omega)
  · exact if_neg (by omega)
  · rfl

theorem digitsFrom?_ten : digitsFrom? 10 acc ds = some n ↔
    (∀ c ∈ ds, c.isDigit = true) ∧ ds.foldl (fun n d => n * 10 + (d.toNat - 48)) acc = n := by
  induction ds generalizing acc with
  | nil => simp [digitsFrom?]
  | cons c ds ih =>
    rw [digitsFrom?, digit?_ten, List.forall_mem_cons, List.foldl_cons]
    by_cases hc : c.isDigit = true
    · simp only [hc, if_true, true_and, ih]
    · simp only [hc, if_false, false_and, reduceCtorEq, Bool.false_eq_true]

theorem spells_ten_iff :
    Spells 10 ds n ↔ (∀ c ∈ ds, c.isDigit = true) ∧ decimalValue ds = n := by
  rw [← digits?_eq_some_iff, digits?, digitsFrom?_ten, decimalValue]

end Text

namespace Literal

variable {base : Nat} {n m : Nat} {text : String} {cs body ds : List Char}

/-- What precedes the digits of an integer literal, with the base it announces and what follows. -/
inductive Based : List Char → Nat → List Char → Prop where
  | hexadecimal {c : Char} {body : List Char} : c = 'x' ∨ c = 'X' → Based ('0' :: c :: body) 16 body
  | octal {c : Char} {body : List Char} : c = 'o' ∨ c = 'O' → Based ('0' :: c :: body) 8 body
  | binary {c : Char} {body : List Char} : c = 'b' ∨ c = 'B' → Based ('0' :: c :: body) 2 body
  | legacy {c : Char} {body : List Char} :
      c ∉ ['x', 'X', 'o', 'O', 'b', 'B'] → Based ('0' :: c :: body) 8 (c :: body)
  | decimal {body : List Char} : (∀ c rest, body ≠ '0' :: c :: rest) → Based body 10 body

theorem splitBase_eq_iff : splitBase cs = (base, body) ↔ Based cs base body := by
  constructor
  · intro h
    unfold splitBase at h
    split at h
    · rename_i c rest
      split at h
      · cases h
        exact .hexadecimal ‹_›
      split at h
      · cases h
        exact .octal ‹_›
      split at h
      · cases h
        exact .binary ‹_›
      · cases h
        refine .legacy ?_
        simp only [List.mem_cons, List.not_mem_nil, or_false]
        tauto
    · rename_i hnot
      cases h
      exact .decimal fun c rest heq => hnot c rest heq
  · intro h
    cases h with
    | hexadecimal hc => rw [splitBase, if_pos hc]
    | octal hc => rcases hc with rfl | rfl <;> rfl
    | binary hc => rcases hc with rfl | rfl <;> rfl
    | legacy hc =>
      simp only [List.mem_cons, List.not_mem_nil, or_false, not_or] at hc
      simp only [splitBase, hc, or_self, if_false]
    | decimal hnot => exact splitBase.eq_2 _ fun c rest heq => hnot c rest heq

/-- The text of an integer literal and the number it denotes: a prefix for the base, a plus sign
that may be left out, and digits. Underscores do not count. -/
def IntegerText (text : String) (n : Nat) : Prop :=
  ∃ base body ds, Based (dropUnderscores text) base body ∧ (body = ds ∨ body = '+' :: ds) ∧
    ds ≠ [] ∧ Text.Spells base ds n

theorem digit?_plus (base : Nat) : Text.digit? base '+' = none := rfl

theorem dropPlus_eq_iff (h : Text.Spells base ds n) :
    dropPlus body = ds ↔ body = ds ∨ body = '+' :: ds := by
  have hplus (rest : List Char) : ds ≠ '+' :: rest := by
    rintro rfl
    rw [← Text.digits?_eq_some_iff, Text.digits?, Text.digitsFrom?, digit?_plus] at h
    cases h
  constructor
  · intro heq
    unfold dropPlus at heq
    split at heq
    · exact .inr (heq ▸ rfl)
    · exact .inl heq
  · rintro (rfl | rfl)
    · exact dropPlus.eq_2 _ hplus
    · rfl

theorem integer?_eq (text : String) : integer? text =
    if dropPlus (splitBase (dropUnderscores text)).2 = [] then none
    else
      (Text.digits? (splitBase (dropUnderscores text)).1
        (dropPlus (splitBase (dropUnderscores text)).2)).bind fun n =>
          if n < 2 ^ 64 then some (Int64.ofNat n) else none := by
  simp only [integer?, List.isEmpty_iff]
  split
  · rfl
  · cases Text.digits? (splitBase (dropUnderscores text)).1
      (dropPlus (splitBase (dropUnderscores text)).2) <;> rfl

/-- `integer?` reads the texts of integer literals with numbers of at most 64 bits, and no others.
-/
theorem integer?_eq_some_iff {v : Int64} : integer? text = some v ↔
    ∃ n, IntegerText text n ∧ n < 2 ^ 64 ∧ v = Int64.ofNat n := by
  rw [integer?_eq]
  constructor
  · intro h
    split at h
    · cases h
    · rename_i hne
      obtain ⟨n, hspells, hn⟩ := Option.bind_eq_some_iff.mp h
      rw [Text.digits?_eq_some_iff] at hspells
      split at hn
      · exact ⟨n,
          ⟨_, _, _, splitBase_eq_iff.mp rfl, (dropPlus_eq_iff hspells).mp rfl, hne, hspells⟩,
          ‹_›, (Option.some.inj hn).symm⟩
      · cases hn
  · rintro ⟨n, ⟨base, body, ds, hbased, hbody, hne, hspells⟩, hn, rfl⟩
    rw [splitBase_eq_iff.mpr hbased, (dropPlus_eq_iff hspells).mpr hbody, if_neg hne,
      Text.digits?_eq_some_iff.mpr hspells, Option.bind_some, if_pos hn]

theorem IntegerText.unique (h : IntegerText text n) (h' : IntegerText text m) : n = m := by
  obtain ⟨base, body, ds, hbased, hbody, -, hspells⟩ := h
  obtain ⟨base', body', ds', hbased', hbody', -, hspells'⟩ := h'
  have hsame := (splitBase_eq_iff.mpr hbased).symm.trans (splitBase_eq_iff.mpr hbased')
  obtain ⟨rfl, rfl⟩ := Prod.mk.inj hsame
  rw [← dropPlus_eq_iff hspells] at hbody
  rw [← dropPlus_eq_iff hspells', hbody] at hbody'
  subst hbody'
  exact hspells.unique hspells'

theorem integer?_of_le (h : IntegerText text n) (hn : 2 ^ 64 ≤ n) : integer? text = none := by
  cases hv : integer? text with
  | none => rfl
  | some v =>
    obtain ⟨m, hm, hlt, -⟩ := integer?_eq_some_iff.mp hv
    rw [h.unique hm] at hn
    exact absurd hlt (Nat.not_lt.mpr hn)

/-! ## Float literals -/

/-- A sign that may be left out, and whether it is a minus. -/
inductive SignText : List Char → Bool → Prop where
  | none : SignText [] false
  | plus : SignText ['+'] false
  | minus : SignText ['-'] true

/-- What follows the digits before the point, and the digits after it. -/
inductive FractionText : List Char → List Char → Prop where
  | none : FractionText [] []
  | point {ds : List Char} : FractionText ('.' :: ds) ds

/-- The exponent of a float literal, zero if it is left out. -/
inductive ExponentText : List Char → Int → Prop where
  | none : ExponentText [] 0
  | some {e : Char} {sign ds : List Char} {neg : Bool} {n : Nat} :
      e = 'e' ∨ e = 'E' → SignText sign neg → ds ≠ [] → Text.Spells 10 ds n →
      ExponentText (e :: (sign ++ ds)) (if neg = true then -(n : Int) else n)

/-- The text of a decimal numeral, without underscores: a sign, digits with a point between or
beside them, and an exponent. The numeral is `digits * 10 ^ exponent` with the sign. -/
inductive DecimalText : List Char → Bool → Nat → Int → Prop where
  | intro {sign whole point frac tail : List Char} {neg : Bool} {digits : Nat} {exponent : Int} :
      SignText sign neg → FractionText point frac → ExponentText tail exponent →
      whole ++ frac ≠ [] → Text.Spells 10 (whole ++ frac) digits →
      DecimalText (sign ++ (whole ++ (point ++ tail))) neg digits (exponent - frac.length)

end Literal

namespace Decimal

variable {neg : Bool} {digits : Nat} {exponent : Int} {x : Binary64}
  {cs sign whole point frac tail body : List Char}

open Literal (SignText FractionText ExponentText DecimalText)

theorem sign_append (h : SignText sign neg)
    (hbody : ∀ rest, body ≠ '-' :: rest ∧ body ≠ '+' :: rest) :
    Decimal.sign (sign ++ body) = (neg, body) := by
  cases h with
  | none => exact sign.eq_3 _ (fun rest => (hbody rest).1) (fun rest => (hbody rest).2)
  | plus => rfl
  | minus => rfl

theorem not_sign_of_isDigit (h : ∀ c ∈ body, c.isDigit = true) (rest : List Char) :
    body ≠ '-' :: rest ∧ body ≠ '+' :: rest := by
  constructor <;>
  · rintro rfl
    exact absurd (h _ (List.mem_cons_self ..)) (by decide)

theorem exponent?_of_text (h : ExponentText tail exponent) : exponent? tail = some exponent := by
  cases h with
  | none => rfl
  | @some e sign ds neg n he hsign hne hspells =>
    obtain ⟨hdigits, rfl⟩ := Text.spells_ten_iff.mp hspells
    have hall : ds.all Char.isDigit = true := List.all_eq_true.mpr hdigits
    rw [exponent?, if_pos he, sign_append hsign (not_sign_of_isDigit hdigits)]
    simp only [List.isEmpty_eq_false_iff.mpr hne, hall, Bool.not_true, Bool.or_self,
      Bool.false_eq_true, if_false]

theorem span_digits {ds rest : List Char} (h : ∀ c ∈ ds, c.isDigit = true)
    (hrest : ∀ c ∈ rest.head?, c.isDigit = false) :
    (ds ++ rest).takeWhile Char.isDigit = ds ∧ (ds ++ rest).dropWhile Char.isDigit = rest := by
  rw [List.takeWhile_append_of_pos h, List.dropWhile_append_of_pos h]
  cases rest with
  | nil => exact ⟨List.append_nil ds, rfl⟩
  | cons c rest =>
    have hc := hrest c rfl
    rw [List.takeWhile_cons_of_neg (by simp [hc]), List.dropWhile_cons_of_neg (by simp [hc]),
      List.append_nil]
    exact ⟨rfl, rfl⟩

theorem head?_exponentText (h : ExponentText tail exponent) :
    ∀ c ∈ tail.head?, c.isDigit = false ∧ c ≠ '.' := by
  intro c hc
  cases h with
  | none => cases hc
  | some he =>
    cases hc
    rcases he with rfl | rfl <;> decide

theorem numeral?_of_text (hpoint : FractionText point frac) (htail : ExponentText tail exponent)
    (hne : whole ++ frac ≠ []) (hspells : Text.Spells 10 (whole ++ frac) digits) :
    numeral? (whole ++ (point ++ tail)) = some ⟨digits, exponent - frac.length⟩ := by
  obtain ⟨hdigits, rfl⟩ := Text.spells_ten_iff.mp hspells
  have hwhole : ∀ c ∈ whole, c.isDigit = true := fun c hc => hdigits c (List.mem_append_left _ hc)
  have hfrac : ∀ c ∈ frac, c.isDigit = true := fun c hc => hdigits c (List.mem_append_right _ hc)
  have hhead := head?_exponentText htail
  have hempty : (whole.isEmpty && frac.isEmpty) = false := by
    rw [Bool.and_eq_false_iff, List.isEmpty_eq_false_iff, List.isEmpty_eq_false_iff]
    rwa [ne_eq, List.append_eq_nil_iff, not_and_or] at hne
  cases hpoint with
  | none =>
    obtain ⟨htake, hdrop⟩ := span_digits hwhole fun c hc => (hhead c hc).1
    have hdot (r : List Char) (heq : tail = '.' :: r) : False := (hhead '.' (heq ▸ rfl)).2 rfl
    simp only [numeral?, List.nil_append, htake, hdrop, hempty, exponent?_of_text htail,
      Bool.false_eq_true, if_false]
  | point =>
    have hdot : ∀ c ∈ ('.' :: (frac ++ tail)).head?, c.isDigit = false := by simp
    obtain ⟨htake, hdrop⟩ := span_digits hwhole hdot
    obtain ⟨htake', hdrop'⟩ := span_digits hfrac fun c hc => (hhead c hc).1
    simp only [numeral?, List.cons_append, htake, hdrop, htake', hdrop', hempty, Bool.false_eq_true,
      if_false, exponent?_of_text htail]

theorem read?_of_text (h : DecimalText cs neg digits exponent) :
    read? cs = some (.ofDecimal neg digits exponent) := by
  cases h with
  | @intro sign whole point frac tail _ _ _ hsign hpoint htail hne hspells =>
    have hbody (rest : List Char) :
        whole ++ (point ++ tail) ≠ '-' :: rest ∧ whole ++ (point ++ tail) ≠ '+' :: rest := by
      obtain ⟨hdigits, -⟩ := Text.spells_ten_iff.mp hspells
      cases whole with
      | nil =>
        cases hpoint with
        | none => exact absurd rfl hne
        | point => constructor <;> nofun
      | cons c whole =>
        have hc := hdigits c (List.mem_cons_self ..)
        constructor <;>
        · intro heq
          rw [List.cons_append, List.cons.injEq] at heq
          rw [heq.1] at hc
          revert hc
          decide
    simp only [read?, sign_append hsign hbody, numeral?_of_text hpoint htail hne hspells]

theorem sign_text (cs : List Char) :
    ∃ sign, SignText sign (Decimal.sign cs).1 ∧ cs = sign ++ (Decimal.sign cs).2 := by
  unfold Decimal.sign
  split
  · exact ⟨['-'], .minus, rfl⟩
  · exact ⟨['+'], .plus, rfl⟩
  · exact ⟨[], .none, rfl⟩

theorem text_of_exponent? (h : exponent? tail = some exponent) : ExponentText tail exponent := by
  unfold exponent? at h
  split at h
  · cases h
    exact .none
  · rename_i e rest
    obtain ⟨sign, hsign, hrest⟩ := sign_text rest
    generalize Decimal.sign rest = signed at h hsign hrest
    obtain ⟨neg, ds⟩ := signed
    dsimp only at h hsign hrest
    split at h
    · rename_i he
      split at h
      · cases h
      · rename_i hds
        rw [Bool.not_eq_true, Bool.or_eq_false_iff, List.isEmpty_eq_false_iff, Bool.not_eq_false',
          List.all_eq_true] at hds
        obtain rfl := Option.some.inj h
        rw [hrest]
        exact .some he hsign hds.1 (Text.spells_ten_iff.mpr ⟨hds.2, rfl⟩)
    · cases h

/-- What `numeral?` reads are digits with a point and an exponent. -/
theorem text_of_numeral? {n : Numeral} (hsign : SignText sign neg) (h : numeral? cs = some n) :
    DecimalText (sign ++ cs) neg n.digits n.exponent := by
  have hdigits (ds : List Char) : ∀ c ∈ ds.takeWhile Char.isDigit, c.isDigit = true := fun c hc =>
    List.all_eq_true.mp List.all_takeWhile c hc
  -- The point and the digits after it, if there are any.
  have hread : ∀ {point frac tail : List Char} {e : Int},
      cs = cs.takeWhile Char.isDigit ++ (point ++ tail) → FractionText point frac →
      (∀ c ∈ frac, c.isDigit = true) →
      ¬ ((cs.takeWhile Char.isDigit).isEmpty && frac.isEmpty) = true → exponent? tail = some e →
      DecimalText (sign ++ cs) neg (Text.decimalValue (cs.takeWhile Char.isDigit ++ frac))
        (e - frac.length) := by
    intro point frac tail e hcs hpoint hfrac hempty he
    have hne : cs.takeWhile Char.isDigit ++ frac ≠ [] := by simpa [List.isEmpty_iff] using hempty
    have hall : ∀ c ∈ cs.takeWhile Char.isDigit ++ frac, c.isDigit = true := fun c hc =>
      (List.mem_append.mp hc).elim (hdigits cs c) (hfrac c)
    have htext := DecimalText.intro hsign hpoint (text_of_exponent? he) hne
      (Text.spells_ten_iff.mpr ⟨hall, rfl⟩)
    rwa [← hcs] at htext
  unfold numeral? at h
  dsimp only at h
  split at h
  · rename_i r hrest
    split at h
    · cases h
    · rename_i hempty
      split at h
      · rename_i e he
        obtain rfl := Option.some.inj h
        have hcs : cs = cs.takeWhile Char.isDigit ++
            (('.' :: r.takeWhile Char.isDigit) ++ r.dropWhile Char.isDigit) := by
          rw [List.cons_append, List.takeWhile_append_dropWhile, ← hrest,
            List.takeWhile_append_dropWhile]
        exact hread hcs .point (hdigits r) hempty he
      · cases h
  · split at h
    · cases h
    · rename_i hempty
      split at h
      · rename_i e he
        obtain rfl := Option.some.inj h
        have hcs : cs = cs.takeWhile Char.isDigit ++ ([] ++ cs.dropWhile Char.isDigit) := by
          rw [List.nil_append, List.takeWhile_append_dropWhile]
        exact hread hcs .none (List.forall_mem_nil _) hempty he
      · cases h

theorem value?_of_special? (h : special? neg cs = some x) : x.value? = none := by
  unfold special? at h
  split at h
  · cases h
    exact Binary64.value?_infinity neg
  · cases h
    exact Binary64.value?_infinity neg
  · cases h
    exact Binary64.value?_nan
  · cases h

/-- What `read?` reads is a decimal numeral, or the name of what is no finite number. -/
theorem text_of_read? (h : read? cs = some x) :
    (∃ neg digits exponent, DecimalText cs neg digits exponent) ∨ x.value? = none := by
  obtain ⟨sign, hsign, hcs⟩ := sign_text cs
  unfold read? at h
  dsimp only at h
  split at h
  · rename_i n hn
    exact .inl ⟨_, n.digits, n.exponent, hcs.symm ▸ text_of_numeral? hsign hn⟩
  · exact .inr (value?_of_special? h)

end Decimal

namespace Literal

variable {text : String} {cs rest : List Char} {c : Char} {r : ℚ}

theorem DecimalText.not_hexadecimal {neg : Bool} {digits : Nat} {exponent : Int}
    (h : DecimalText ('0' :: c :: rest) neg digits exponent) : ¬ (c = 'x' ∨ c = 'X') := by
  have hx : ∀ c, c = 'x' ∨ c = 'X' → c.isDigit = false ∧ c ≠ '.' ∧ c ≠ 'e' ∧ c ≠ 'E' := by
    rintro c (rfl | rfl) <;> decide
  intro hc
  obtain ⟨hdigit, hdot, he, hE⟩ := hx c hc
  generalize hcs : '0' :: c :: rest = cs at h
  cases h with
  | @intro sign whole point frac tail _ _ _ hsign hpoint htail hne hspells =>
    obtain ⟨hdigits, -⟩ := Text.spells_ten_iff.mp hspells
    obtain rfl : sign = [] := by
      cases hsign with
      | none => rfl
      | plus => cases hcs
      | minus => cases hcs
    cases whole with
    | nil =>
      cases hpoint with
      | none => exact hne rfl
      | point => cases hcs
    | cons zero whole =>
      cases whole with
      | cons d whole =>
        obtain ⟨-, rfl, -⟩ : '0' = zero ∧ c = d ∧ rest = whole ++ (point ++ tail) := by
          simpa using hcs
        rw [hdigits c (by simp)] at hdigit
        cases hdigit
      | nil =>
        cases hpoint with
        | point =>
          cases hcs
          exact hdot rfl
        | none =>
          cases htail with
          | none => cases hcs
          | some hexp =>
            cases hcs
            exact hexp.elim he hE

/-- The text of a float literal and the number that it denotes. -/
def FloatText (text : String) (r : ℚ) : Prop :=
  ∃ neg digits exponent, DecimalText (dropUnderscores text) neg digits exponent ∧
    r = Binary64.signed neg (digits * 10 ^ exponent)

/-- A float literal is the number that its text denotes, correctly rounded. -/
theorem exists_float? (h : FloatText text r) : ∃ x, float? text = some x ∧ x.Rounds r := by
  obtain ⟨neg, digits, exponent, htext, rfl⟩ := h
  refine ⟨.ofDecimal neg digits exponent, ?_, Binary64.rounds_ofDecimal neg digits exponent⟩
  unfold float?
  split
  · rename_i c rest heq
    rw [heq] at htext
    rw [if_neg htext.not_hexadecimal]
    exact Decimal.read?_of_text htext
  · exact Decimal.read?_of_text htext

/-- Any other float literal is the name of what is no finite number. -/
theorem floatText_of_float? {x : Binary64} (h : float? text = some x) :
    (∃ r, FloatText text r) ∨ x.value? = none := by
  have hread : ∀ cs, cs = dropUnderscores text → Decimal.read? cs = some x →
      (∃ r, FloatText text r) ∨ x.value? = none := by
    rintro cs rfl hx
    refine (Decimal.text_of_read? hx).imp_left ?_
    rintro ⟨neg, digits, exponent, htext⟩
    exact ⟨_, neg, digits, exponent, htext, rfl⟩
  unfold float? at h
  split at h
  · rename_i c rest heq
    split at h
    · cases h
    · exact hread _ heq.symm h
  · exact hread _ rfl h

end Literal
end Midend
