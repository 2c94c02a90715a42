import Midend.Proofs.Escape
import Midend.Proofs.NumberLiteral
import Midend.Proofs.Typed

/-!
# Midend.Proofs.LiteralValue

What the text of a literal denotes (`Literal.Denotes`), and which types take it. `Ty.Accepts` says
at which types a literal is lowered to a constant (`literalConst?_eq_some_iff`), and
`TypeStore.Represents` at which types there is a value for it. A type that accepts a literal need
not represent it: where it does not, something was overlooked (`Ty.Accepts.overlooks_iff`).
-/

namespace Midend

open Ir

namespace Literal

/-- What a literal denotes. -/
inductive Denoted where
  | integer (n : Nat)
  /-- A number, and the double that is nearest to it. -/
  | real (r : ℚ) (x : Binary64)
  /-- A double that is infinite, or is no number. -/
  | unbounded (x : Binary64)
  | string (s : String)

/-- What the text of a literal denotes. -/
inductive Denotes : LiteralKind → String → Denoted → Prop where
  | integer {text : String} {n : Nat} : IntegerText text n → Denotes .int text (.integer n)
  | rune {text : String} {n : Nat} : rune? text = some n → Denotes .char text (.integer n)
  | real {text : String} {r v : ℚ} {x : Binary64} :
      FloatText text r → float? text = some x → x.value? = some v → Denotes .float text (.real r x)
  /-- The name of an infinity, or digits too many. -/
  | unbounded {text : String} {x : Binary64} :
      float? text = some x → x.value? = none → Denotes .float text (.unbounded x)
  | string {text s : String} : string? text = some s → Denotes .string text (.string s)

variable {text : String} {n : Nat} {x : Binary64}

theorem exists_denotes_float (h : float? text = some x) :
    Denotes .float text (.unbounded x) ∨ ∃ r, Denotes .float text (.real r x) := by
  cases hvalue : x.value? with
  | none => exact .inl (.unbounded h hvalue)
  | some v =>
    obtain ⟨r, hr⟩ := (floatText_of_float? h).resolve_right (by simp [hvalue])
    exact .inr ⟨r, .real hr h hvalue⟩

theorem Escape.lt {quote : Char} {es : List Char} (h : Escape quote es n) : n < 2 ^ 64 := by
  have hdigits : ∀ {base k : Nat} {ds : List Char}, ds.length = k → Text.digits? base ds = some n →
      base ^ k ≤ 2 ^ 64 → n < 2 ^ 64 := fun hlength hn hle =>
    Nat.lt_of_lt_of_le (Text.digits?_lt hn) (hlength ▸ hle)
  cases h with
  | byte hlength hn => exact hdigits hlength hn (by decide)
  | short hlength hn => exact hdigits hlength hn (by decide)
  | long hlength hn => exact hdigits hlength hn (by decide)
  | octal _ _ hle => omega
  | letter hletter =>
    rcases letterEscape?_isValidChar hletter with hlt | ⟨-, hlt⟩ <;> omega

theorem rune?_lt (h : rune? text = some n) : n < 2 ^ 64 := by
  obtain ⟨e, -, he⟩ := Option.bind_eq_some_iff.mp h
  rcases runeBody?_eq_some_iff.mp he with ⟨c, -, -, rfl⟩ | ⟨es, -, hescape⟩
  · rcases c.valid with hlt | ⟨-, hlt⟩ <;> exact Nat.lt_trans hlt (by decide)
  · exact hescape.lt

def Denoted.const (ty : Ty) : Denoted → Const
  | .integer n => if ty.isFloat then .float (wordDouble n) else .int (Int64.ofNat n)
  | .real _ x => if ty.isFloat then .float x else .int x.toInt64
  | .unbounded x => .float x
  | .string s => .str s

end Literal

namespace Ir

/-- A literal that denotes this is lowered to a constant, at a type with the body. -/
inductive Ty.Accepts : Ty → Literal.Denoted → Prop where
  | int {bits n : Nat} : n < 2 ^ 64 → Accepts (.int bits) (.integer n)
  | double {kind : FloatKind} {n : Nat} : n < 2 ^ 64 → Accepts (.float kind) (.integer n)
  /-- Doubles without a fractional part are integers too. -/
  | integral {bits : Nat} {r : ℚ} {x : Binary64} :
      x.isIntegral = true → Accepts (.int bits) (.real r x)
  | float {kind : FloatKind} {r : ℚ} {x : Binary64} : Accepts (.float kind) (.real r x)
  | unbounded {kind : FloatKind} {x : Binary64} : Accepts (.float kind) (.unbounded x)
  | string {ty : Ty} {s : String} : Accepts ty (.string s)

end Ir

section

open Literal

variable {ty : Ty} {kind : LiteralKind} {text : String} {c : Const} {w : Denoted} {n : Nat}
  {x : Binary64}

theorem Ir.Ty.Accepts.lt (h : ty.Accepts (.integer n)) : n < 2 ^ 64 := by
  cases h <;> assumption

theorem some_eq_iff_of_accepts (h : ty.Accepts w) : some (w.const ty) = some c ↔
    ty.Accepts w ∧ c = w.const ty := by
  rw [Option.some.injEq, eq_comm, and_iff_right h]

theorem none_eq_iff_of_not_accepts (h : ¬ ty.Accepts w) : none = some c ↔
    ty.Accepts w ∧ c = w.const ty := by
  simp only [reduceCtorEq, h, false_and]

theorem number_eq_some_iff (hn : n < 2 ^ 64) : literalConst?.number ty (Int64.ofNat n) = some c ↔
    ty.Accepts (.integer n) ∧ c = (Denoted.integer n).const ty := by
  cases ty with
  | int bits => exact some_eq_iff_of_accepts (.int hn)
  | float kind =>
    rw [← some_eq_iff_of_accepts (.double hn)]
    show some (Const.float (.ofInt (Int64.ofNat n).toInt)) = some c ↔ _
    rw [Int64.toInt_ofNat']
    rfl
  | void | pointer | struct | pending => exact none_eq_iff_of_not_accepts nofun

theorem literalConst?_of_float? (hx : float? text = some x) : literalConst? ty .float text =
    if ty.isFloat then some (.float x)
    else if ty.isInt && x.isIntegral then some (.int x.toInt64)
    else none := by
  simp only [literalConst?, hx]

theorem literalConst?_of_denotes_float (hw : Denotes .float text w) :
    literalConst? ty .float text = some c ↔ ty.Accepts w ∧ c = w.const ty := by
  cases hw with
  | @real _ r v x htext hx hvalue =>
    rw [literalConst?_of_float? hx]
    cases ty with
    | float kind => exact some_eq_iff_of_accepts .float
    | int bits =>
      cases hintegral : x.isIntegral with
      | true => exact some_eq_iff_of_accepts (.integral hintegral)
      | false =>
        refine none_eq_iff_of_not_accepts fun h => ?_
        cases h with
        | integral htrue => exact Bool.false_ne_true (hintegral.symm.trans htrue)
    | void | pointer | struct | pending => exact none_eq_iff_of_not_accepts nofun
  | unbounded hx hvalue =>
    rw [literalConst?_of_float? hx]
    cases ty with
    | float kind => exact some_eq_iff_of_accepts .unbounded
    | int bits =>
      rw [Binary64.isIntegral_of_value?_eq_none hvalue]
      exact none_eq_iff_of_not_accepts nofun
    | void | pointer | struct | pending => exact none_eq_iff_of_not_accepts nofun

/-- A literal is lowered to the constant of what it denotes, where the type accepts that. -/
theorem literalConst?_eq_some_iff : literalConst? ty kind text = some c ↔
    ∃ w, Denotes kind text w ∧ ty.Accepts w ∧ c = w.const ty := by
  cases kind with
  | int =>
    rw [literalConst?, Option.bind_eq_some_iff]
    constructor
    · rintro ⟨v, hv, hc⟩
      obtain ⟨n, htext, hn, rfl⟩ := integer?_eq_some_iff.mp hv
      exact ⟨_, .integer htext, (number_eq_some_iff hn).mp hc⟩
    · rintro ⟨w, hw, haccepts, hc⟩
      cases hw with
      | integer htext =>
        have hn := haccepts.lt
        exact ⟨_, htext.integer? hn, (number_eq_some_iff hn).mpr ⟨haccepts, hc⟩⟩
  | char =>
    rw [literalConst?, Option.bind_eq_some_iff]
    constructor
    · rintro ⟨v, hv, hc⟩
      obtain ⟨n, hn, rfl⟩ := Option.map_eq_some_iff.mp hv
      exact ⟨_, .rune hn, (number_eq_some_iff (rune?_lt hn)).mp hc⟩
    · rintro ⟨w, hw, haccepts, hc⟩
      cases hw with
      | rune hn =>
        exact ⟨_, congrArg (Option.map Int64.ofNat) hn,
          (number_eq_some_iff (rune?_lt hn)).mpr ⟨haccepts, hc⟩⟩
  | float =>
    constructor
    · intro h
      cases hx : float? text with
      | none =>
        rw [literalConst?, hx] at h
        cases h
      | some x =>
        obtain hw | ⟨r, hw⟩ := exists_denotes_float hx
        · exact ⟨_, hw, (literalConst?_of_denotes_float hw).mp h⟩
        · exact ⟨_, hw, (literalConst?_of_denotes_float hw).mp h⟩
    · rintro ⟨w, hw, h⟩
      exact (literalConst?_of_denotes_float hw).mpr h
  | string =>
    rw [literalConst?, Option.map_eq_some_iff]
    constructor
    · rintro ⟨s, hs, rfl⟩
      exact ⟨_, .string hs, .string, rfl⟩
    · rintro ⟨w, hw, -, rfl⟩
      cases hw with
      | string hs => exact ⟨_, hs, rfl⟩
  | imaginary =>
    constructor
    · intro h
      cases h
    · rintro ⟨w, hw, -⟩
      cases hw

end

/-! ## Types that have a value for a literal -/

namespace Ir.TypeStore

def StringBody (s : TypeStore) (ty : Ty) : Prop :=
  ∃ data length byte, ty = .struct [data, length] ∧ s.body? data = some (.pointer byte) ∧
    s.body? byte = some (.int 8) ∧ s.body? length = some (.int 64)

/-- There is a value for it in a type with the body, to the nearest double at a float type. An
integer type has those of its signed and those of its unsigned numbers. -/
inductive Represents (s : TypeStore) : Ty → Literal.Denoted → Prop where
  | int {bits n : Nat} : n < 2 ^ bits → Represents s (.int bits) (.integer n)
  | double {kind : FloatKind} {n : Nat} :
      (n : ℚ) < Binary64.overflow → Represents s (.float kind) (.integer n)
  | integral {bits : Nat} {r : ℚ} {z : Int} {x : Binary64} :
      r = z → -2 ^ bits ≤ 2 * z → z < 2 ^ bits → Represents s (.int bits) (.real r x)
  | float {kind : FloatKind} {r : ℚ} {x : Binary64} : Represents s (.float kind) (.real r x)
  | string {ty : Ty} {text : String} : s.StringBody ty → Represents s ty (.string text)

/-- A type with the body accepts the literal, and has no value for it. -/
inductive Overlooks (s : TypeStore) : Ty → Literal.Denoted → Prop where
  /-- More bits than the type has. -/
  | wide {bits n : Nat} : 2 ^ bits ≤ n → n < 2 ^ 64 → Overlooks s (.int bits) (.integer n)
  | outside {bits : Nat} {r : ℚ} {z : Int} {x : Binary64} :
      r = z → 2 * z < -2 ^ bits ∨ 2 ^ bits ≤ z → x.isIntegral = true →
        Overlooks s (.int bits) (.real r x)
  /-- A fractional part that no double has. -/
  | rounded {bits : Nat} {r : ℚ} {x : Binary64} :
      (∀ z : Int, r ≠ z) → x.isIntegral = true → Overlooks s (.int bits) (.real r x)
  | unbounded {kind : FloatKind} {x : Binary64} : Overlooks s (.float kind) (.unbounded x)
  | shapeless {ty : Ty} {text : String} : ¬ s.StringBody ty → Overlooks s ty (.string text)

end Ir.TypeStore

namespace Ir.Ty.Accepts

variable {s : TypeStore} {ty : Ty} {w : Literal.Denoted}

theorem overlooks_iff (h : ty.Accepts w) : s.Overlooks ty w ↔ ¬ s.Represents ty w := by
  constructor
  · intro hover hrep
    cases hover with
    | wide hle _ =>
      cases hrep with
      | int hlt => omega
    | outside hr hz _ =>
      cases hrep with
      | integral hr' hlow hhigh =>
        obtain rfl := Int.cast_injective (hr.symm.trans hr')
        omega
    | rounded hr _ =>
      cases hrep with
      | integral hr' _ _ => exact hr _ hr'
    | unbounded => cases hrep
    | shapeless hshape =>
      cases hrep with
      | string hstring => exact hshape hstring
  · intro hrep
    cases h with
    | @int bits n hn => exact .wide (Nat.not_lt.mp fun hlt => hrep (.int hlt)) hn
    | @double kind n hn =>
      refine absurd (.double (lt_of_lt_of_le ?_ pow_le_overflow)) hrep
      exact_mod_cast hn
    | @integral bits r x hintegral =>
      by_cases hr : ∃ z : Int, r = z
      · obtain ⟨z, hz⟩ := hr
        refine .outside hz ?_ hintegral
        by_contra hrange
        exact hrep (.integral hz (by omega) (by omega))
      · exact .rounded (fun z hz => hr ⟨z, hz⟩) hintegral
    | float => exact absurd .float hrep
    | unbounded => exact .unbounded
    | string => exact .shapeless fun hstring => hrep (.string hstring)

end Ir.Ty.Accepts

namespace Ir

def TypeStore.IsString (s : TypeStore) (id : TypeId) : Prop :=
  ∃ ty, s.body? id = some ty ∧ s.StringBody ty

def TypeStore.IsPointer (s : TypeStore) (id : TypeId) : Prop :=
  ∃ elem, s.body? id = some (.pointer elem)

/-- The constant is one of the values of the type. -/
inductive Const.Fits (s : TypeStore) : Const → TypeId → Prop where
  | void {type : TypeId} : s.IsVoid type → Fits s .void type
  | null {type : TypeId} : s.IsPointer type → Fits s .null type
  | bool {b : Bool} {type : TypeId} : s.IsBool type → Fits s (.bool b) type
  | int {n : Int64} {type : TypeId} : s.IsInt type → Fits s (.int n) type
  | float {x : Binary64} {v : ℚ} {type : TypeId} :
      s.IsFloat type → x.value? = some v → Fits s (.float x) type
  | str {text : String} {type : TypeId} : s.IsString type → Fits s (.str text) type

end Ir

namespace Literal.Denotes

variable {s : TypeStore} {type : TypeId} {ty : Ty} {kind : LiteralKind} {text : String}
  {w : Denoted}

theorem fits (hw : Denotes kind text w) (haccepts : ty.Accepts w) (hbody : s.body? type = some ty)
    (hrep : s.Represents ty w) : (w.const ty).Fits s type := by
  cases haccepts with
  | int _ => exact .int ⟨_, hbody⟩
  | double hn =>
    obtain ⟨v, hv⟩ := exists_value?_wordDouble hn
    exact .float ⟨_, hbody⟩ hv
  | integral _ => exact .int ⟨_, hbody⟩
  | float =>
    cases hw with
    | real _ _ hvalue => exact .float ⟨_, hbody⟩ hvalue
  | unbounded => cases hrep
  | string =>
    cases hrep with
    | string hstring => exact .str ⟨_, hbody, hstring⟩

theorem fits_iff (hw : Denotes kind text w) (haccepts : ty.Accepts w)
    (hbody : s.body? type = some ty) :
    s.Represents ty w ∧ (w.const ty).Fits s type ↔ ¬ s.Overlooks ty w := by
  rw [haccepts.overlooks_iff, not_not]
  exact ⟨And.left, fun hrep => ⟨hrep, hw.fits haccepts hbody hrep⟩⟩

end Literal.Denotes

end Midend
