import Midend.Proofs.AccrueCode
import Midend.Proofs.Redeclared
import Midend.Proofs.SupplyCode

/-!
# Midend.Proofs.Constants

The constants in the code of a module, and whether their types have them as values
(`SourceUnit.lower_constants`). Integers and doubles are of types of their kind. But a literal is
lowered wherever its type accepts it, also out of the range of the type, and the type of a
predeclared name is not looked at.
-/

namespace Midend

open Ir

/-- What a literal or a predeclared name at a node of a type comes to, from `σ`. -/
structure LeavesAt (ctx : FnContext) (m : Mark) (σ τ : FnState) (type : TypeId) (ty : Ty) :
    Prop where
  /-- A literal is the constant of what it denotes, if the type accepts that, -/
  accepted : ∀ {kind text w}, Literal.Denotes kind text w → ty.Accepts w →
    runOn ((Expr.lit m kind text).lower ctx) σ = (.ok (.ofConst (w.const ty) type), τ)
  /-- and is reported if the type accepts nothing that it denotes. -/
  refused : ∀ {kind text}, kind ≠ .imaginary →
    (∀ w, Literal.Denotes kind text w → ¬ ty.Accepts w) →
    runOn ((Expr.lit m kind text).lower ctx) σ =
      (.error (.report (.invalidLiteral text m.span)), τ)
  /-- Names are constants whatever the type. -/
  truth : ∀ {b}, ctx.scope.lookup (if b then "true" else "false") = none →
    runOn ((Expr.ident m (if b then "true" else "false")).lower ctx) σ =
      (.ok (.ofConst (.bool b) type), τ)
  null : ctx.scope.lookup "nil" = none →
    runOn ((Expr.ident m "nil").lower ctx) σ = (.ok (.ofConst .null type), τ)

theorem Recorded.run_const {ctx : Context} {m : Mark} {σ τ : FnState} {type : TypeId} {ty : Ty}
    (h : Recorded ctx m σ τ type ty) (c : Const) :
    runOn (do return .ofConst c (← Lower.exprType ctx m) : Lower Value) σ =
      (.ok (.ofConst c type), τ) := by
  rw [runOn_bind_ok h.found]
  rfl

theorem Recorded.leavesAt {ctx : FnContext} {m : Mark} {σ τ : FnState} {type : TypeId} {ty : Ty}
    (h : Recorded ctx.toContext m σ τ type ty) : LeavesAt ctx m σ τ type ty where
  accepted {kind text w} hw haccepts := by
    have hkind : kind ≠ .imaginary := by
      rintro rfl
      cases hw
    rw [h.lower_lit hkind, literalConst?_eq_some_iff.mpr ⟨w, hw, haccepts, rfl⟩]
  refused {kind text} hkind hnone := by
    rw [h.lower_lit hkind]
    cases hc : literalConst? ty kind text with
    | none => rfl
    | some c =>
      obtain ⟨w, hw, haccepts, -⟩ := literalConst?_eq_some_iff.mp hc
      exact absurd haccepts (hnone w hw)
  truth {b} hscope := by
    rw [Expr.lower, Lower.name, hscope]
    cases b with
    | true => exact h.run_const (.bool true)
    | false => exact h.run_const (.bool false)
  null hscope := by
    rw [Expr.lower, Lower.name, hscope]
    exact h.run_const .null

namespace Ir.Const

variable {table : TypeTable} {wordBits : Nat} {types : TypeStore} {leaves : List Expr} {c : Const}
  {type : TypeId}

def Numeric (types : TypeStore) (c : Const) (type : TypeId) : Prop :=
  (∀ n, c = .int n → types.IsInt type) ∧ ∀ x, c = .float x → types.IsFloat type

theorem OfLeaf.numeric (h : c.OfLeaf table wordBits types leaves type) : c.Numeric types type := by
  cases h with
  | literal _ _ hbody _ haccepts =>
    cases haccepts with
    | int | integral => exact ⟨fun _ _ => ⟨_, hbody⟩, nofun⟩
    | double | float | unbounded => exact ⟨nofun, fun _ _ => ⟨_, hbody⟩⟩
    | string => exact ⟨nofun, nofun⟩
  | truth | null => exact ⟨nofun, nofun⟩

theorem Added.numeric (h : c.Added types type) : c.Numeric types type := by
  cases h with
  | zero hint | ones hint => exact ⟨fun _ _ => hint, nofun⟩
  | bit | nothing => exact ⟨nofun, nofun⟩

theorem Added.fits (h : c.Added types type) : c.Fits types type := by
  cases h with
  | zero hint | ones hint => exact .int hint
  | bit hbool => exact .bool hbool
  | nothing hvoid => exact .void hvoid

end Ir.Const

theorem Attempts.types_le {ctx : Context} {s s' : Session} {attempts : List Attempt}
    (h : Attempts ctx s attempts s') : s.types ≤ s'.types := by
  induction h with
  | nil => exact TypeStore.le_refl _
  | @cons s _ a _ _ hrun _ ih =>
    exact TypeStore.le_trans (Pass.function_accrues ctx a.decl a.span s _ _ hrun).1.types ih

theorem Attempts.supplied {ctx : Context} {s s' : Session} {attempts : List Attempt}
    (h : Attempts ctx s attempts s') : ∀ a ∈ attempts, ∀ fn ∈ a.code,
      ∃ body, a.decl.body = some body ∧ ∀ v ∈ fn.operands, Supplied ctx s'.types body.leaves v := by
  induction h with
  | nil => simp
  | @cons s s' a types rest hrun hrest ih =>
    refine List.forall_mem_cons.mpr ⟨fun fn hfn => ?_, ih⟩
    rw [Option.mem_def.mp hfn] at hrun
    exact Pass.function_supplies hrun hrest.types_le

namespace SourceUnit

/-- What is known of the constants in the code of a module. -/
structure Constants (config : Config) (u : SourceUnit) (m : Module) : Prop where
  /-- Each is from the body of a declaration of the function that it is in, or is added. -/
  origin : ∀ fn ∈ m.functions, ∃ d ∈ u.funcDecls, ∃ body, d.1.name = fn.name ∧
    d.1.body = some body ∧ ∀ v ∈ fn.operands, ∀ c, v.operand = .const c →
      c.OfLeaf u.types config.wordBits m.types body.leaves v.type ∨
        (c.Added m.types v.type ∧ c.Fits m.types v.type)
  numeric : ∀ fn ∈ m.functions, ∀ v ∈ fn.operands, ∀ c, v.operand = .const c →
    c.Numeric m.types v.type
  /-- The type of a literal has a value for it, and the constant is one of its values, unless
  something is overlooked. -/
  literal : ∀ {type ty kind text w}, m.types.body? type = some ty → Literal.Denotes kind text w →
    ty.Accepts w → (m.types.Represents ty w ∧ (w.const ty).Fits m.types type ↔
      ¬ m.types.Overlooks ty w)

theorem Run.constants {config : Config} {u : SourceUnit} {m : Module} {errors : List LowerError}
    (r : Run config u m errors) : u.Constants config m := by
  have hsupplied : ∀ fn ∈ m.functions, ∃ d ∈ u.funcDecls, ∃ body, d.1.name = fn.name ∧
      d.1.body = some body ∧ ∀ v ∈ fn.operands, ∀ c, v.operand = .const c →
        c.OfLeaf u.types config.wordBits m.types body.leaves v.type ∨ c.Added m.types v.type := by
    intro fn hfn
    rw [r.module_eq] at hfn ⊢
    obtain ⟨a, ha, hcode⟩ := List.mem_filterMap.mp hfn
    obtain ⟨body, hbody, hsupplied⟩ := r.lowers.supplied a ha fn hcode
    exact ⟨_, r.isRegistered.sublist.subset (r.mem_kept ha), body, ((r.named a ha).2 fn hcode).symm,
      hbody, hsupplied⟩
  refine ⟨fun fn hfn => ?_, fun fn hfn v hv c hc => ?_, fun hbody hw haccepts =>
    hw.fits_iff haccepts hbody⟩
  · obtain ⟨d, hd, body, hname, hbody, h⟩ := hsupplied fn hfn
    exact ⟨d, hd, body, hname, hbody, fun v hv c hc =>
      (h v hv c hc).imp_right fun hadded => ⟨hadded, hadded.fits⟩⟩
  · obtain ⟨_, _, _, _, _, h⟩ := hsupplied fn hfn
    exact (h v hv c hc).elim (·.numeric) (·.numeric)

/-- The constants of a unit that is lowered to a module, and what becomes one. -/
theorem lower_constants {config : Config} {u : SourceUnit} {m : Module} {errors : List LowerError}
    (h : u.lower config = (.ok m, errors)) : u.Constants config m ∧
      ∀ {ctx : FnContext} {node : Mark} {σ τ : FnState} {type : TypeId} {ty : Ty},
        Recorded ctx.toContext node σ τ type ty → LeavesAt ctx node σ τ type ty := by
  obtain ⟨r⟩ := exists_run h
  exact ⟨r.constants, Recorded.leavesAt⟩

def returning (text type : String) (kind : BasicKind) : SourceUnit :=
  { name := "returning"
    decls := [.func ⟨⟨4⟩, .empty⟩ ⟨"f", [], [.mk [] (.ident .empty type) .empty],
      some (.block ⟨⟨3⟩, .empty⟩ [.ret ⟨⟨2⟩, .empty⟩ [.lit ⟨⟨1⟩, .empty⟩ .int text]])⟩]
    types := .ofList [(⟨1⟩, .basic kind)] }

/-- The operands in a module with the bodies of their types. -/
def operandBodies (m : Module) : List (List (Operand × Option Ty)) :=
  m.functions.map fun fn => fn.operands.map fun v => (v.operand, m.types.body? v.type)

theorem lower_constants_fitting : ∃ m,
    (returning "300" "int16" .int16).lower ⟨64, true⟩ = (.ok m, []) ∧
      (returning "300" "int16" .int16).Constants ⟨64, true⟩ m ∧
      operandBodies m = [[(.const (.int 300), some (.int 16))]] := by
  obtain ⟨m, hlower, hm⟩ : ∃ m, (returning "300" "int16" .int16).lower ⟨64, true⟩ = (.ok m, []) ∧
      operandBodies m = [[(.const (.int 300), some (.int 16))]] :=
    lower_eq_ok (by decide +kernel) (by decide +kernel)
  exact ⟨m, hlower, (lower_constants hlower).1, hm⟩

theorem integerText_threeHundred : Literal.IntegerText "300" 300 :=
  integerText_of_decimal rfl (by decide) (by decide) (by decide)

/-- At a type that does not have the number, the literal is a constant all the same. -/
theorem lower_constants_wide : ∃ m,
    (returning "300" "int8" .int8).lower ⟨64, true⟩ = (.ok m, []) ∧
      operandBodies m = [[(.const (.int 300), some (.int 8))]] ∧
      Literal.Denotes .int "300" (.integer 300) ∧
      ¬ m.types.Represents (.int 8) (.integer 300) := by
  obtain ⟨m, hlower, hm⟩ : ∃ m, (returning "300" "int8" .int8).lower ⟨64, true⟩ = (.ok m, []) ∧
      operandBodies m = [[(.const (.int 300), some (.int 8))]] :=
    lower_eq_ok (by decide +kernel) (by decide +kernel)
  refine ⟨m, hlower, hm, .integer integerText_threeHundred, ?_⟩
  intro hrep
  cases hrep with
  | int hlt => omega

end SourceUnit

end Midend
