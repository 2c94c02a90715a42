import Midend.Lower.Stmt

/-!
# Midend.Lower.Unit

Lowering of functions and of whole units.
-/

namespace Midend

open Ir

namespace Lower

/-- Add the parameters of a function, and yield their scope. A later parameter hides an earlier one
of its name; `_` names nothing. -/
def addParams (scope : Scope) : List (Option String × TypeId) → Build Scope
  | [] => return scope
  | (some name, type) :: rest => do
    if name = "_" then do
      let _ ← Build.addParam none type
      addParams scope rest
    else do
      let value ← Build.addParam (some name) type
      addParams ((name, value) :: scope) rest
  | (none, type) :: rest => do
    let _ ← Build.addParam none type
    addParams scope rest

/-- Seal the block where control falls off the end of the body. Where a value is to be returned,
that is an error if control can get there. -/
def finishBody (function : String) (span : Span) : Lower Unit := do
  let b := (← get).builder
  if ← build (liftM b.cursorIsOpen) then do
    if (← body b.ret).isVoid then build (Build.terminate (.ret none))
    else do
      if b.isReachable b.cursor then report (.missingReturn function span)
      build (Build.terminate .unreachable)

def functionBody (ctx : Context) (decl : FuncDecl) (sig : Signature) (body : Stmt) (span : Span) :
    Lower Unit := do
  let names := (Field.flatten decl.params).map Prod.fst
  let scope ← build (addParams [] (names.zip sig.params))
  body.lower { ctx with scope := scope }
  finishBody decl.name span

end Lower

namespace Pass

/-- Lower a declared function. An external function has no code. -/
def function (ctx : Context) (decl : FuncDecl) (span : Span) : Pass (Option Function) :=
  match decl.body, ctx.functions.lookup decl.name with
  | some body, some sig =>
    ExceptT.mk fun s =>
      let start : FnState := ⟨s.types, s.errors, Builder.start decl.name sig.ret⟩
      match (Lower.functionBody ctx decl sig body span).run start with
      | (.ok (), s') => (.ok (some s'.builder.finish), ⟨s'.types, s'.errors⟩)
      | (.error f, s') => (.error f, ⟨s'.types, s'.errors⟩)
  | _, _ => return none

def functions (ctx : Context) : List (FuncDecl × Span) → Pass (List Function)
  | [] => return []
  | (decl, span) :: rest => do
    let f? ← function ctx decl span
    let fs ← functions ctx rest
    return f?.toList ++ fs

def reportViolations : List Violation → Pass Unit
  | [] => return ()
  | v :: rest => do
    report (.malformed v)
    reportViolations rest

/-- Verify a module in which no error was found. -/
def verify (m : Module) : Pass Unit := do
  if (← get).errors.isEmpty then
    match m.verify with
    | .ok violations => reportViolations violations
    | .error b => throw (.breach b)

end Pass

namespace SourceUnit

/-- The declarations by kind, or the first variable or constant, which have no lowering rule. -/
def split : List Decl → Except Unsupported (List (TypeDecl × Span) × List (FuncDecl × Span))
  | [] => .ok ([], [])
  | .var m _ _ _ isConst :: _ =>
    .error ⟨if isConst then "package-level constants" else "package-level variables", m.span⟩
  | .type m decl :: rest => (split rest).map fun (types, funcs) => ((decl, m.span) :: types, funcs)
  | .func m decl :: rest => (split rest).map fun (types, funcs) => (types, (decl, m.span) :: funcs)

def lowerPass (config : Config) (u : SourceUnit) : Pass Module := do
  match split u.decls with
  | .error e => throw (.abort e)
  | .ok (types, funcs) => do
    let declared ← Pass.resolveTypes config.wordBits types
    let (signatures, kept) ← Pass.declareFunctions config.wordBits [] funcs
    let functions ← Pass.functions ⟨config, u.types, declared, signatures⟩ kept
    let m : Module := ⟨u.name, (← get).types, functions⟩
    if config.verify then Pass.verify m
    return m

/-- Lower a unit: its module, unless the run was ended, and the errors reported, in order. -/
def lower (config : Config) (u : SourceUnit) : Except Fault Module × List LowerError :=
  match (u.lowerPass config).run ⟨.empty, []⟩ with
  | (r, s) => (r, s.errors)

end SourceUnit

end Midend
