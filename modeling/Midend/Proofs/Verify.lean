import Midend.Proofs.Unit

/-!
# Midend.Proofs.Verify

Whether a module is verified makes no difference. What is lowered does not depend on it, by
induction on the code, and the verifier finds nothing in a module without errors.
-/

namespace Midend

open Ir

def Context.withVerify (ctx : Context) (b : Bool) : Context :=
  { ctx with config := { ctx.config with verify := b } }

def FnContext.withVerify (ctx : FnContext) (b : Bool) : FnContext :=
  { ctx.toContext.withVerify b with scope := ctx.scope }

section

variable (ctx : FnContext) (b : Bool)

@[simp] theorem Expr.lower_withVerify (e : Expr) : e.lower (ctx.withVerify b) = e.lower ctx := by
  delta Expr.lower
  rfl

namespace Lower

@[simp] theorem condition_withVerify (e : Expr) :
    condition (ctx.withVerify b) e = condition ctx e := by
  simp only [condition, Expr.lower_withVerify]

@[simp] theorem testValue_withVerify (tag : Value) (clause : BlockId) (e : Expr) :
    testValue (ctx.withVerify b) tag clause e = testValue ctx tag clause e := by
  simp only [testValue, Expr.lower_withVerify]

@[simp] theorem testValues_withVerify (tag : Value) (clause : BlockId) (es : List Expr) :
    testValues (ctx.withVerify b) tag clause es = testValues ctx tag clause es := by
  induction es with
  | nil => rfl
  | cons e rest ih => simp only [testValues, testValue_withVerify, ih]

@[simp] theorem anyOf_withVerify (before : Option Value) (es : List Expr) :
    anyOf (ctx.withVerify b) before es = anyOf ctx before es := by
  induction es generalizing before with
  | nil => rfl
  | cons e rest ih => simp only [anyOf, condition_withVerify, ih]

@[simp] theorem testClauses_withVerify (tag : Option Value) (clauses : List (Clause × BlockId)) :
    testClauses (ctx.withVerify b) tag clauses = testClauses ctx tag clauses := by
  induction clauses with
  | nil => rfl
  | cons c rest ih =>
    simp only [testClauses, testValues_withVerify, testConditions, anyOf_withVerify, ih]

@[simp] theorem results_withVerify (es : List Expr) :
    results (ctx.withVerify b) es = results ctx es := by
  induction es with
  | nil => rfl
  | cons e rest ih => simp only [results, Expr.lower_withVerify, ih]

@[simp] theorem returnStmt_withVerify (span : Span) (es : List Expr) :
    returnStmt (ctx.withVerify b) span es = returnStmt ctx span es := by
  simp only [returnStmt, results_withVerify]

end Lower

namespace Stmt

mutual

theorem lower_withVerify (s : Stmt) : s.lower (ctx.withVerify b) = s.lower ctx := by
  cases s with
  | block m body => simp only [lower, lowerAll_withVerify body]
  | empty m => rfl
  | expr m e => simp only [lower, Expr.lower_withVerify]
  | ifElse m init cond thenBranch elseBranch =>
    simp only [lower, Lower.condition_withVerify, lowerOption_withVerify init,
      lower_withVerify thenBranch, lowerElse_withVerify elseBranch]
  | loop m init cond post body =>
    simp only [lower, Lower.condition_withVerify, lowerOption_withVerify init,
      lowerOption_withVerify post, lower_withVerify body]
  | switch m init tag clauses =>
    simp only [lower, Expr.lower_withVerify, Lower.testClauses_withVerify,
      lowerOption_withVerify init, lowerClauses_withVerify clauses]
  | ret m results => simp only [lower, Lower.returnStmt_withVerify]
  | assign | incDec | jump | varDecl | labeled | defer | go | range => rfl

theorem lowerAll_withVerify (body : List Stmt) :
    lowerAll (ctx.withVerify b) body = lowerAll ctx body := by
  cases body with
  | nil => rfl
  | cons s rest => simp only [lowerAll, lower_withVerify s, lowerAll_withVerify rest]

theorem lowerOption_withVerify (s : Option Stmt) :
    lowerOption (ctx.withVerify b) s = lowerOption ctx s := by
  cases s with
  | none => rfl
  | some s => simp only [lowerOption, lower_withVerify s]

theorem lowerElse_withVerify (s : Option Stmt) :
    lowerElse (ctx.withVerify b) s = lowerElse ctx s := by
  cases s with
  | none => rfl
  | some s => simp only [lowerElse, lower_withVerify s]

theorem lowerClauses_withVerify (clauses : List Clause) (entries : List BlockId) :
    lowerClauses (ctx.withVerify b) clauses entries = lowerClauses ctx clauses entries := by
  match clauses, entries with
  | .mk values body span :: clauses, entry :: entries =>
    simp only [lowerClauses, lowerAll_withVerify body, lowerClauses_withVerify clauses entries]
  | [], _ => simp only [lowerClauses]
  | _ :: _, [] => simp only [lowerClauses]

end

end Stmt

end

namespace Pass

variable (ctx : Context) (b : Bool)

theorem functionBody_withVerify (decl : FuncDecl) (sig : Signature) (body : Stmt) (span : Span) :
    Lower.functionBody (ctx.withVerify b) decl sig body span =
      Lower.functionBody ctx decl sig body span := by
  have hbody : ∀ scope, body.lower { ctx.withVerify b with scope := scope } =
      body.lower { ctx with scope := scope } :=
    fun scope => Stmt.lower_withVerify { ctx with scope := scope } b body
  simp only [Lower.functionBody, hbody]

theorem function_withVerify (decl : FuncDecl) (span : Span) :
    function (ctx.withVerify b) decl span = function ctx decl span := by
  have hsame : (ctx.withVerify b).functions = ctx.functions := rfl
  simp only [function, hsame, functionBody_withVerify]

theorem functions_withVerify (decls : List (FuncDecl × Span)) :
    functions (ctx.withVerify b) decls = functions ctx decls := by
  induction decls with
  | nil => rfl
  | cons d rest ih => simp only [functions, function_withVerify, ih]

end Pass

theorem runOn_bind_congr {σ α β : Type} {x : ExceptT Fault (StateM σ) α}
    {f g : α → ExceptT Fault (StateM σ) β} {s : σ}
    (h : ∀ a s', runOn x s = (.ok a, s') → runOn (f a) s' = runOn (g a) s') :
    runOn (x >>= f) s = runOn (x >>= g) s := by
  obtain ⟨r, s', hx⟩ : ∃ r s', runOn x s = (r, s') := ⟨_, _, rfl⟩
  cases r with
  | ok a => rw [runOn_bind_ok hx, runOn_bind_ok hx, h a s' hx]
  | error e => rw [runOn_bind_error hx, runOn_bind_error hx]

namespace SourceUnit

/-- A unit is lowered to the same module, or to the same fault, with the same errors. -/
theorem lowerPass_unverified (wordBits : Nat) (verify : Bool) (u : SourceUnit) :
    runOn (u.lowerPass ⟨wordBits, verify⟩) ⟨.empty, []⟩ =
      runOn (u.lowerPass ⟨wordBits, false⟩) ⟨.empty, []⟩ := by
  rw [lowerPass, lowerPass]
  cases hsplit : split u.decls with
  | error e => rfl
  | ok r =>
    obtain ⟨types, funcs⟩ := r
    refine runOn_bind_congr fun declared s₁ hresolve => ?_
    refine runOn_bind_congr fun p s₂ hdeclare => ?_
    obtain ⟨signatures, kept⟩ := p
    have hfunctions : Pass.functions ⟨⟨wordBits, verify⟩, u.types, declared, signatures⟩ kept =
        Pass.functions ⟨⟨wordBits, false⟩, u.types, declared, signatures⟩ kept :=
      Pass.functions_withVerify ⟨⟨wordBits, false⟩, u.types, declared, signatures⟩ verify kept
    simp only
    rw [hfunctions]
    refine runOn_bind_congr fun fns s₃ hrun => ?_
    rw [runOn_bind_ok (runOn_get s₃), runOn_bind_ok (runOn_get s₃)]
    cases verify with
    | false => rfl
    | true =>
      have hwhole : runOn (u.lowerPass ⟨wordBits, false⟩) ⟨.empty, []⟩ =
          (.ok ⟨u.name, s₃.types, fns⟩, s₃) := by
        rw [lowerPass, hsplit]
        simp only
        rw [runOn_bind_ok hresolve, runOn_bind_ok hdeclare]
        simp only
        rw [runOn_bind_ok hrun, runOn_bind_ok (runOn_get s₃)]
        rfl
      obtain ⟨ctx, kept, hlowers⟩ := (lowerPass_comes _ u).of_ok hwhole
      have hverify : runOn (Pass.verify ⟨u.name, s₃.types, fns⟩) s₃ = (.ok (), s₃) :=
        Pass.verify_nothing fun herr => by
          rw [hlowers.verify_module, hlowers.unpopulated_eq_nil herr]
          rfl
      simp only
      rw [if_pos trivial, runOn_bind_ok hverify]
      rfl

theorem lower_withVerify (config : Config) (b : Bool) (u : SourceUnit) :
    u.lower { config with verify := b } = u.lower config := by
  obtain ⟨wordBits, verify⟩ := config
  have hsame : runOn (u.lowerPass ⟨wordBits, b⟩) ⟨.empty, []⟩ =
      runOn (u.lowerPass ⟨wordBits, verify⟩) ⟨.empty, []⟩ :=
    (lowerPass_unverified wordBits b u).trans (lowerPass_unverified wordBits verify u).symm
  have hrun : (u.lowerPass ⟨wordBits, b⟩).run ⟨.empty, []⟩ =
      (u.lowerPass ⟨wordBits, verify⟩).run ⟨.empty, []⟩ := hsame
  simp only [lower, hrun]

/-- The verifier accepts every function of a module, whatever was reported. Of the named types,
which start with those of the declarations, it finds the ones that have no body, in their order; an
error was reported for each of them. So it finds nothing if none was reported, and it does not
matter whether it is run. -/
theorem lower_verifies {config : Config} {u : SourceUnit} {m : Module} {errors : List LowerError}
    (h : u.lower config = (.ok m, errors)) :
    (∀ fn ∈ m.functions, fn.verify m.types = .ok []) ∧
    slottedNames u.typeDecls <+: m.types.named.map Prod.fst ∧
    m.verify = .ok ((unpopulated u.typeDecls).map fun d => .pendingType d.1.name) ∧
    (∀ d ∈ unpopulated u.typeDecls, ∃ name span,
      d.1.undefined? (declaredTypes u.typeDecls) (slottedNames u.typeDecls) = some (name, span) ∧
      .undefinedType name span ∈ errors) ∧
    (errors = [] → m.verify = .ok []) ∧ (∀ v, .malformed v ∉ errors) ∧
    ∀ verify, u.lower { config with verify := verify } = (.ok m, errors) := by
  obtain ⟨ctx, kept, hlowers⟩ := lowers_of_lower h
  refine ⟨hlowers.verify_function, hlowers.named, hlowers.verify_module, fun d hd => ?_,
    fun herr => ?_, fun v hv => ?_, fun verify => ?_⟩
  · obtain ⟨hslotted, hsome⟩ := List.mem_filter.mp hd
    obtain ⟨⟨name, span⟩, hundefined⟩ := Option.isSome_iff_exists.mp hsome
    exact ⟨name, span, hundefined, hlowers.reported d hslotted (name, span) hundefined⟩
  · rw [hlowers.verify_module, hlowers.unpopulated_eq_nil herr]
    rfl
  · exact hlowers.ready.genuine _ hv v rfl
  · rw [lower_withVerify]
    exact h

theorem lower_verifies_sample :
    ∃ m, sample.lower ⟨64, true⟩ = (.ok m, []) ∧ m.functions.length = 1 ∧
      (∀ fn ∈ m.functions, fn.verify m.types = .ok []) ∧
      ∀ verify, sample.lower ⟨64, verify⟩ = (.ok m, []) := by
  obtain ⟨m, hlower, hone⟩ := sample_lowers
  obtain ⟨hverify, _, _, _, _, _, hsame⟩ := lower_verifies hlower
  exact ⟨m, hlower, hone, hverify, hsame⟩

end SourceUnit

end Midend
