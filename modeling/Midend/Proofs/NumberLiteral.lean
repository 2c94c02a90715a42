import Midend.Lower.Expr
import Midend.Proofs.NumberText
import Midend.Proofs.Steps

/-!
# Midend.Proofs.NumberLiteral

What integer and float literals become at a type. An integer literal is read as a signed word first:
at a float type the double of that word is taken, which is the literal's number only below `2 ^ 63`
(`lower_int_at_float`). A float literal becomes the integer it rounds to at an integer type, and `2
^ 63 - 1` if that integer is greater, so the two spellings of a number agree below `2 ^ 63`
(`lower_numbers_at_int`).
-/

namespace Midend

open Ir

variable {ctx : FnContext} {m : Mark} {σ τ : FnState} {type : TypeId} {ty : Ty} {bits : Nat}
  {floatKind : FloatKind} {kind : LiteralKind} {text : String} {n n' : Nat} {r : ℚ} {x : Binary64}

/-- From `σ`, the type of the node is found or made, which leads to `τ`, and has the given body
there. -/
structure Recorded (ctx : Context) (m : Mark) (σ τ : FnState) (type : TypeId) (ty : Ty) : Prop where
  found : runOn (Lower.exprType ctx m) σ = (.ok type, τ)
  body : τ.types.body? type = some ty

/-- A literal is the constant that it denotes at the type of its node, or invalid. -/
theorem Recorded.lower_lit (h : Recorded ctx.toContext m σ τ type ty) (hkind : kind ≠ .imaginary)
    (text : String) :
    runOn ((Expr.lit m kind text).lower ctx) σ =
      ((match literalConst? ty kind text with
        | some c => .ok (.ofConst c type)
        | none => .error (.report (.invalidLiteral text m.span))), τ) := by
  have hbody : runOn (Lower.body type) τ = (.ok ty, τ) := by
    rw [Lower.body, Lower.runOn_typing, Typing.runOn_body h.body]
  rw [Expr.lower, Lower.literal, runOn_bind_ok h.found, if_neg hkind, runOn_bind_ok hbody]
  cases literalConst? ty kind text with
  | none => exact runOn_throw _ τ
  | some c => exact runOn_pure _ τ

theorem literalConst?_int_at_float (text : String) :
    literalConst? (.float floatKind) .int text =
      (Literal.integer? text).map fun v => .float (.ofInt v.toInt) := by
  rw [literalConst?]
  cases Literal.integer? text <;> rfl

theorem literalConst?_int_at_int (text : String) :
    literalConst? (.int bits) .int text = (Literal.integer? text).map Const.int := by
  rw [literalConst?]
  cases Literal.integer? text <;> rfl

theorem literalConst?_float_at_int (h : Literal.float? text = some x) :
    literalConst? (.int bits) .float text =
      if x.isIntegral = true then some (.int x.toInt64) else none := by
  simp only [literalConst?, h]
  rfl

theorem Literal.IntegerText.integer? (h : IntegerText text n) (hn : n < 2 ^ 64) :
    integer? text = some (Int64.ofNat n) :=
  integer?_eq_some_iff.mpr ⟨n, h, hn, rfl⟩

/-- The double of the signed word with the bits of a number. -/
def wordDouble (n : Nat) : Binary64 := .ofInt ((n : Int).bmod (2 ^ 64))

theorem bmod_of_lt (h : n < 2 ^ 63) : (n : Int).bmod (2 ^ 64) = n := by
  rw [Int.bmod_eq_of_le] <;> omega

theorem bmod_of_le (h : 2 ^ 63 ≤ n) (hn : n < 2 ^ 64) : (n : Int).bmod (2 ^ 64) = n - 2 ^ 64 := by
  rw [Int.bmod_def]
  omega

theorem rounds_wordDouble (n : Nat) : (wordDouble n).Rounds ((n : Int).bmod (2 ^ 64) : Int) :=
  Binary64.rounds_ofInt _

theorem pow_le_overflow : (2 : ℚ) ^ 64 ≤ Binary64.overflow := by
  unfold Binary64.overflow
  calc (2 : ℚ) ^ 64 ≤ 2 ^ 970 := pow_le_pow_right₀ one_le_two (by decide)
    _ ≤ (2 ^ 54 - 1) * 2 ^ 970 := le_mul_of_one_le_left (by positivity) (by norm_num)

theorem exists_value?_wordDouble (hn : n < 2 ^ 64) : ∃ v, (wordDouble n).value? = some v := by
  refine (rounds_wordDouble n).finite (lt_of_lt_of_le ?_ pow_le_overflow)
  rw [← Int.cast_abs]
  have habs : |(n : Int).bmod (2 ^ 64)| < 2 ^ 64 := by
    rcases Nat.lt_or_ge n (2 ^ 63) with hlt | hge
    · rw [bmod_of_lt hlt, abs_of_nonneg (by omega)]
      omega
    · rw [bmod_of_le hge hn, abs_of_neg (by omega)]
      omega
  exact_mod_cast habs

theorem isNegative_wordDouble (hn : n < 2 ^ 64) :
    (wordDouble n).isNegative = true ↔ 2 ^ 63 ≤ n := by
  rw [wordDouble, Binary64.isNegative_ofInt, decide_eq_true_eq]
  rcases Nat.lt_or_ge n (2 ^ 63) with hlt | hge
  · rw [bmod_of_lt hlt]
    omega
  · rw [bmod_of_le hge hn]
    omega

theorem wordDouble_eq_iff (hn : n < 2 ^ 64) : wordDouble n = .ofInt n ↔ n < 2 ^ 63 := by
  constructor
  · intro heq
    by_contra hge
    have hneg := (isNegative_wordDouble hn).mpr (Nat.not_lt.mp hge)
    rw [heq, Binary64.isNegative_ofInt, decide_eq_true_eq] at hneg
    omega
  · intro hlt
    rw [wordDouble, bmod_of_lt hlt]

theorem value?_zero : (Binary64.ofInt 0).value? = some 0 := by
  have hclass : (Binary64.ofInt 0).classify = .finite false 0 (-1074) := by decide
  rw [Binary64.value?_of_finite hclass, Nat.cast_zero, zero_mul, Binary64.signed_zero]

theorem value?_neg_one : (Binary64.ofInt (-1)).value? = some (-1) := by
  have hclass : (Binary64.ofInt (-1)).classify = .finite true 4503599627370496 (-52) := by decide
  rw [Binary64.value?_of_finite hclass]
  norm_num [Binary64.signed]

theorem value?_wordDouble_le {v v' : ℚ} (hle : (n : Int).bmod (2 ^ 64) ≤ (n' : Int).bmod (2 ^ 64))
    (hv : (wordDouble n).value? = some v) (hv' : (wordDouble n').value? = some v') : v ≤ v' := by
  rcases Int.lt_or_eq_of_le hle with hlt | heq
  · exact (rounds_wordDouble n).le (rounds_wordDouble n') (Int.cast_lt.mpr hlt) hv hv'
  · rw [wordDouble, heq, ← wordDouble, hv', Option.some.injEq] at hv
    exact hv.ge

/-- The doubles of integer literals grow with the literals, but only within each half of their
range. -/
theorem value?_wordDouble_le_iff {v v' : ℚ} (hle : n ≤ n') (hn' : n' < 2 ^ 64)
    (hv : (wordDouble n).value? = some v) (hv' : (wordDouble n').value? = some v') :
    v ≤ v' ↔ n' < 2 ^ 63 ∨ 2 ^ 63 ≤ n := by
  constructor
  · intro hvalue
    by_contra hhalves
    obtain ⟨hge, hlt⟩ := not_or.mp hhalves
    have hnonneg : 0 ≤ v := by
      refine (rounds_wordDouble n).le_of_le hv value?_zero ?_
      rw [bmod_of_lt (Nat.not_le.mp hlt)]
      exact Int.cast_nonneg (Int.natCast_nonneg n)
    have hneg : v' ≤ -1 := by
      refine (rounds_wordDouble n').ge_of_ge hv' value?_neg_one ?_
      rw [bmod_of_le (Nat.not_lt.mp hge) hn', ← Int.cast_one, ← Int.cast_neg, Int.cast_le]
      omega
    linarith
  · rintro (hlt | hge)
    · refine value?_wordDouble_le ?_ hv hv'
      rw [bmod_of_lt hlt, bmod_of_lt (Nat.lt_of_le_of_lt hle hlt)]
      exact Int.ofNat_le.mpr hle
    · refine value?_wordDouble_le ?_ hv hv'
      rw [bmod_of_le hge (Nat.lt_of_le_of_lt hle hn'), bmod_of_le (Nat.le_trans hge hle) hn']
      exact Int.sub_le_sub_right (Int.ofNat_le.mpr hle) _

/-- An integer literal at a float type is the double nearest to its word. That is the double of the
literal's own number, not negative and growing with the number, just below `2 ^ 63`. -/
theorem lower_int_at_float (h : Recorded ctx.toContext m σ τ type (.float floatKind))
    (htext : Literal.IntegerText text n) (hn : n < 2 ^ 64) :
    runOn ((Expr.lit m .int text).lower ctx) σ =
        (.ok (.ofConst (.float (wordDouble n)) type), τ) ∧
      (∃ v, (wordDouble n).value? = some v) ∧
      (wordDouble n).Rounds ((n : Int).bmod (2 ^ 64) : Int) ∧
      (wordDouble n = .ofInt n ↔ n < 2 ^ 63) ∧
      ((wordDouble n).isNegative = true ↔ 2 ^ 63 ≤ n) ∧
      ∀ n' v v', n ≤ n' → n' < 2 ^ 64 → (wordDouble n).value? = some v →
        (wordDouble n').value? = some v' → (v ≤ v' ↔ n' < 2 ^ 63 ∨ 2 ^ 63 ≤ n) := by
  refine ⟨?_, exists_value?_wordDouble hn, rounds_wordDouble n, wordDouble_eq_iff hn,
    isNegative_wordDouble hn, fun n' v v' => value?_wordDouble_le_iff⟩
  rw [h.lower_lit (by decide), literalConst?_int_at_float, htext.integer? hn, Option.map_some,
    Int64.toInt_ofNat']
  rfl

def FnContext.ofNode (t : CheckedType) : FnContext :=
  { config := ⟨64, true⟩
    table := .ofList [(default, t)]
    declared := []
    functions := []
    scope := [] }

def FnState.ofTypes (types : TypeStore) : FnState := ⟨types, [], ⟨"f", ⟨0⟩, [], #[], #[], ⟨0⟩⟩⟩

theorem recorded_intern {t : CheckedType}
    (h : Typing.ofChecked 64 default t = Typing.ofStore (TypeStore.intern ty)) :
    Recorded (FnContext.ofNode t).toContext default (.ofTypes .empty)
      (.ofTypes ⟨#[⟨none, ty⟩]⟩) ⟨0⟩ ty := by
  have hget : runOn (Lower.checkedType (FnContext.ofNode t).toContext default) (.ofTypes .empty) =
      (.ok t, .ofTypes .empty) := rfl
  have hintern : TypeStore.intern ty .empty = (⟨0⟩, ⟨#[⟨none, ty⟩]⟩) := by
    simp [TypeStore.intern, TypeStore.interned?, TypeStore.find?, TypeStore.push, TypeStore.empty]
  have hrun : runOn (Typing.ofChecked 64 default t) .empty = (.ok ⟨0⟩, ⟨#[⟨none, ty⟩]⟩) := by
    rw [h, Typing.runOn_ofStore, hintern]
  refine ⟨?_, rfl⟩
  rw [Lower.exprType, runOn_bind_ok hget, Lower.runOn_typing]
  exact congrArg (fun r => (r.1, FnState.ofTypes r.2)) hrun

theorem recorded_float64 : Recorded (FnContext.ofNode (.basic .float64)).toContext default
    (.ofTypes .empty) (.ofTypes ⟨#[⟨none, .float .double⟩]⟩) ⟨0⟩ (.float .double) :=
  recorded_intern rfl

theorem integerText_of_decimal {ds : List Char} (htext : Literal.dropUnderscores text = ds)
    (hhead : Literal.splitBase ds = (10, ds)) (hds : ds ≠ []) (hn : Text.digits? 10 ds = some n) :
    Literal.IntegerText text n :=
  ⟨10, ds, ds, Literal.splitBase_eq_iff.mp (htext ▸ hhead), .inl rfl, hds,
    Text.digits?_eq_some_iff.mp hn⟩

theorem integerText_max : Literal.IntegerText "18446744073709551615" 18446744073709551615 :=
  integerText_of_decimal rfl (by decide) (by decide) (by decide)

theorem lower_int_at_float_max :
    Recorded (FnContext.ofNode (.basic .float64)).toContext default (.ofTypes .empty)
        (.ofTypes ⟨#[⟨none, .float .double⟩]⟩) ⟨0⟩ (.float .double) ∧
      Literal.IntegerText "18446744073709551615" 18446744073709551615 ∧
      runOn ((Expr.lit default .int "18446744073709551615").lower
          (.ofNode (.basic .float64))) (.ofTypes .empty) =
        (.ok (.ofConst (.float (wordDouble 18446744073709551615)) ⟨0⟩),
          .ofTypes ⟨#[⟨none, .float .double⟩]⟩) :=
  ⟨recorded_float64, integerText_max,
    (lower_int_at_float recorded_float64 integerText_max (by decide)).1⟩

/-- It is the double of `-1`, although the double nearest to it is positive. -/
theorem lower_int_at_float_negative :
    runOn ((Expr.lit default .int "18446744073709551615").lower
          (.ofNode (.basic .float64))) (.ofTypes .empty) =
        (.ok (.ofConst (.float (.ofInt (-1))) ⟨0⟩), .ofTypes ⟨#[⟨none, .float .double⟩]⟩) ∧
      (Binary64.ofInt (-1)).isNegative = true ∧
      (Binary64.ofInt 18446744073709551615).isNegative = false ∧
      Binary64.ofInt (-1) ≠ .ofInt 18446744073709551615 := by
  refine ⟨?_, by decide, by decide, by decide⟩
  rw [recorded_float64.lower_lit (by decide), literalConst?_int_at_float,
    integerText_max.integer? (by decide)]
  rfl

/-! ## Integer and float literals at integer types -/

theorem toInt64_of_natCast (h : x.value? = some (n : ℚ)) :
    x.toInt64 = Int64.ofNat (min n (2 ^ 63 - 1)) := by
  rw [Binary64.toInt64_of_value? (z := n) (by rw [h, Int.cast_natCast]), Binary64.minInt64,
    Binary64.maxInt64, ← Int64.ofInt_eq_ofNat]
  congr 1
  omega

theorem isIntegral_of_natCast (h : x.value? = some (n : ℚ)) : x.isIntegral = true :=
  (Binary64.isIntegral_iff h).mpr ⟨n, (Int.cast_natCast n).symm⟩

theorem ofNat_min_eq_iff (hn : n < 2 ^ 64) :
    Int64.ofNat (min n (2 ^ 63 - 1)) = Int64.ofNat n ↔ n < 2 ^ 63 := by
  constructor
  · intro heq
    by_contra hge
    have htoInt := congrArg Int64.toInt heq
    rw [Int64.toInt_ofNat', Int64.toInt_ofNat', Int64.size,
      show 18446744073709551616 = 2 ^ 64 by rfl,
      bmod_of_le (Nat.not_lt.mp hge) hn, bmod_of_lt (by omega)] at htoInt
    omega
  · intro hlt
    rw [Nat.min_eq_left (by omega)]

/-- A float literal that denotes a natural number with a double of its own. -/
theorem literalConst?_float_exact (htext : Literal.FloatText text n)
    (hexact : ∃ y : Binary64, y.value? = some (n : ℚ)) :
    literalConst? (.int bits) .float text = some (.int (Int64.ofNat (min n (2 ^ 63 - 1)))) := by
  obtain ⟨x, hx, hrounds⟩ := Literal.exists_float? htext
  obtain ⟨y, hy⟩ := hexact
  have hvalue := hrounds.value?_eq hy
  rw [literalConst?_float_at_int hx, if_pos (isIntegral_of_natCast hvalue),
    toInt64_of_natCast hvalue]

theorem value?_two_pow : (Binary64.ofInt 18446744073709551616).value? = some (2 ^ 64) := by
  have hclass : (Binary64.ofInt 18446744073709551616).classify =
      .finite false 4503599627370496 12 := by decide
  rw [Binary64.value?_of_finite hclass]
  norm_num [Binary64.signed]

/-- A float literal from `2 ^ 64` on. -/
theorem literalConst?_float_large (htext : Literal.FloatText text r) (hr : 2 ^ 64 ≤ r) :
    literalConst? (.int bits) .float text =
      if r < Binary64.overflow then some (.int (Int64.ofNat (2 ^ 63 - 1))) else none := by
  obtain ⟨x, hx, hrounds⟩ := Literal.exists_float? htext
  have habs : |r| = r := abs_of_nonneg (le_trans (by positivity) hr)
  rw [literalConst?_float_at_int hx]
  rcases lt_or_ge r Binary64.overflow with hlt | hge
  · obtain ⟨v, hv⟩ := hrounds.finite (habs.symm ▸ hlt)
    have hle : 2 ^ 64 ≤ v := hrounds.le_of_le hv value?_two_pow hr
    have hintegral : x.isIntegral = true := by
      refine Binary64.isIntegral_of_large hv (le_trans ?_ (le_abs_self v))
      linarith
    obtain ⟨z, rfl⟩ := (Binary64.isIntegral_iff hv).mp hintegral
    have hz : (2 : Int) ^ 64 ≤ z := by exact_mod_cast hle
    rw [if_pos hintegral, if_pos hlt, Binary64.toInt64_of_value? hv, Binary64.minInt64,
      Binary64.maxInt64, ← Int64.ofInt_eq_ofNat]
    congr 3
    omega
  · obtain ⟨neg, rfl⟩ := hrounds.infinite (habs.symm ▸ hge)
    rw [Binary64.isIntegral_infinity, if_neg (not_lt.mpr hge)]
    rfl

/-- An integer and a float literal at one integer type of 64 bits. Both are constants where they
denote the same number with a double of its own; the integer literal is the number's bits, and the
float literal is too below `2 ^ 63` and is the greatest signed word from there on. From `2 ^ 64` on,
an integer literal is invalid, but a float literal is the greatest signed word until it rounds to
infinity. -/
theorem lower_numbers_at_int (h : Recorded ctx.toContext m σ τ type (.int 64)) :
    (∀ {n : Nat} {text text' : String}, Literal.IntegerText text n → Literal.FloatText text' n →
      n < 2 ^ 64 → (∃ y : Binary64, y.value? = some (n : ℚ)) →
        runOn ((Expr.lit m .int text).lower ctx) σ =
            (.ok (.ofConst (.int (Int64.ofNat n)) type), τ) ∧
          runOn ((Expr.lit m .float text').lower ctx) σ =
            (.ok (.ofConst (.int (Int64.ofNat (min n (2 ^ 63 - 1)))) type), τ) ∧
          (Int64.ofNat (min n (2 ^ 63 - 1)) = Int64.ofNat n ↔ n < 2 ^ 63)) ∧
    (∀ {n : Nat} {text : String}, Literal.IntegerText text n → 2 ^ 64 ≤ n →
      runOn ((Expr.lit m .int text).lower ctx) σ =
        (.error (.report (.invalidLiteral text m.span)), τ)) ∧
    (∀ {r : ℚ} {text : String}, Literal.FloatText text r → 2 ^ 64 ≤ r →
      runOn ((Expr.lit m .float text).lower ctx) σ =
        (if r < Binary64.overflow then .ok (.ofConst (.int (Int64.ofNat (2 ^ 63 - 1))) type)
          else .error (.report (.invalidLiteral text m.span)), τ)) := by
  refine ⟨fun {n text text'} hint hfloat hn hexact => ⟨?_, ?_, ?_⟩, fun {n text} hint hn => ?_,
    fun {r text} hfloat hr => ?_⟩
  · rw [h.lower_lit (by decide), literalConst?_int_at_int, hint.integer? hn, Option.map_some]
  · rw [h.lower_lit (by decide), literalConst?_float_exact hfloat hexact]
  · exact ofNat_min_eq_iff hn
  · rw [h.lower_lit (by decide), literalConst?_int_at_int, Literal.integer?_of_le hint hn,
      Option.map_none]
  · rw [h.lower_lit (by decide), literalConst?_float_large hfloat hr]
    by_cases hlt : r < Binary64.overflow
    · rw [if_pos hlt, if_pos hlt]
    · rw [if_neg hlt, if_neg hlt]

theorem recorded_uint64 : Recorded (FnContext.ofNode (.basic .uint64)).toContext default
    (.ofTypes .empty) (.ofTypes ⟨#[⟨none, .int 64⟩]⟩) ⟨0⟩ (.int 64) :=
  recorded_intern rfl

theorem integerText_ten_pow : Literal.IntegerText "10000000000000000000" 10000000000000000000 :=
  integerText_of_decimal rfl (by decide) (by decide) (by decide)

theorem floatText_ten_pow : Literal.FloatText "1e19" (10000000000000000000 : Nat) := by
  refine ⟨false, 1, 19 - (0 : Nat), ?_, by norm_num [Binary64.signed]⟩
  have hexponent : Literal.ExponentText ['e', '1', '9'] 19 :=
    @Literal.ExponentText.some 'e' [] ['1', '9'] false 19 (.inl rfl) .none (by decide)
      (Text.digits?_eq_some_iff.mp (by decide))
  exact @Literal.DecimalText.intro [] ['1'] [] [] ['e', '1', '9'] false 1 19 .none .none hexponent
    (by decide) (Text.digits?_eq_some_iff.mp (by decide))

theorem value?_ten_pow : (Binary64.ofInt 10000000000000000000).value? =
    some (10000000000000000000 : Nat) := by
  have hclass : (Binary64.ofInt 10000000000000000000).classify =
      .finite false 4882812500000000 11 := by decide
  rw [Binary64.value?_of_finite hclass]
  norm_num [Binary64.signed]

theorem lower_numbers_at_int_ten_pow :
    Recorded (FnContext.ofNode (.basic .uint64)).toContext default (.ofTypes .empty)
        (.ofTypes ⟨#[⟨none, .int 64⟩]⟩) ⟨0⟩ (.int 64) ∧
      runOn ((Expr.lit default .int "10000000000000000000").lower
          (.ofNode (.basic .uint64))) (.ofTypes .empty) =
        (.ok (.ofConst (.int (Int64.ofNat 10000000000000000000)) ⟨0⟩),
          .ofTypes ⟨#[⟨none, .int 64⟩]⟩) ∧
      runOn ((Expr.lit default .float "1e19").lower
          (.ofNode (.basic .uint64))) (.ofTypes .empty) =
        (.ok (.ofConst (.int (Int64.ofNat (min 10000000000000000000 (2 ^ 63 - 1)))) ⟨0⟩),
          .ofTypes ⟨#[⟨none, .int 64⟩]⟩) := by
  obtain ⟨hint, hfloat, -⟩ := (lower_numbers_at_int recorded_uint64).1 integerText_ten_pow
    floatText_ten_pow (by decide) ⟨_, value?_ten_pow⟩
  exact ⟨recorded_uint64, hint, hfloat⟩

/-- The float literal is another number than the integer literal. -/
theorem lower_numbers_at_int_differ :
    runOn ((Expr.lit default .int "10000000000000000000").lower
          (.ofNode (.basic .uint64))) (.ofTypes .empty) =
        (.ok (.ofConst (.int (-8446744073709551616)) ⟨0⟩), .ofTypes ⟨#[⟨none, .int 64⟩]⟩) ∧
      runOn ((Expr.lit default .float "1e19").lower
          (.ofNode (.basic .uint64))) (.ofTypes .empty) =
        (.ok (.ofConst (.int 9223372036854775807) ⟨0⟩), .ofTypes ⟨#[⟨none, .int 64⟩]⟩) ∧
      (-8446744073709551616 : Int64) ≠ 9223372036854775807 := by
  refine ⟨?_, ?_, by decide⟩
  · rw [recorded_uint64.lower_lit (by decide), literalConst?_int_at_int,
      integerText_ten_pow.integer? (by decide)]
    rfl
  · rw [recorded_uint64.lower_lit (by decide),
      literalConst?_float_exact floatText_ten_pow ⟨_, value?_ten_pow⟩]
    rfl

end Midend
