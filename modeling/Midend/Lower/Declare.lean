import Midend.Lower.Types

/-!
# Midend.Lower.Declare

The declared types and functions of a unit. Types are resolved in two passes: the first gives every
name a slot of the right shape, the second fills in the bodies. A body can therefore refer to its
own name and to names declared after it.
-/

namespace Midend

open Ir

/-- The shape of a type that is declared as `t`; an alias chain without an end has none. A name that
turns out to be undefined counts as a scalar, and is reported when the body is filled in. -/
def shapeOf (declared : Declared) (t : TypeExpr) : Except Unsupported (Option Shape) :=
  match followAlias declared t with
  | none => .ok none
  | some (.ident _ name) =>
    match BasicKind.ofName? name with
    | some .string | some .complex64 | some .complex128 => .ok (some .struct)
    | _ => .ok (some .scalar)
  | some (.qualified span package name) =>
    if isUnsafePointer package name then .ok (some .scalar)
    else .error (TypeExpr.unsupported (.qualified span package name))
  | some (.pointer ..) => .ok (some .pointer)
  | some (.struct ..) => .ok (some .struct)
  | some other => .error other.unsupported

def bodyOf (wordBits : Nat) (declared : Declared) (decl : TypeDecl) (span : Span) : Typing Ty :=
  match followAlias declared decl.type with
  | none => throw (.report (.recursiveAlias decl.name span))
  | some (.ident at_ name) =>
    match BasicKind.ofName? name with
    | some kind => do
      let id ← Typing.basic wordBits kind at_
      Typing.body id
    | none => throw (.report (.undefinedType name at_))
  | some (.pointer _ elem) => do
    let elem ← Typing.ofExpr wordBits elem
    return .pointer elem
  | some (.struct _ fields) => do
    let fields ← Typing.ofFields wordBits fields
    return .struct fields
  | some other => do
    let id ← Typing.ofExpr wordBits other
    Typing.body id

namespace Pass

/-- The declarations whose names are neither reserved nor taken by an earlier one; the others are
reported. -/
def admitTypes (taken : List String) :
    List (TypeDecl × Span) → Pass (List (TypeDecl × Span))
  | [] => return []
  | (decl, span) :: rest => do
    if decl.name ∈ reservedTypeNames then
      report (.reservedTypeName decl.name span)
      admitTypes taken rest
    else if decl.name ∈ taken then
      report (.duplicateDefinition decl.name span)
      admitTypes taken rest
    else
      let kept ← admitTypes (decl.name :: taken) rest
      return (decl, span) :: kept

/-- Give every declaration a slot; those without a shape are reported and left out. -/
def scaffoldTypes (declared : Declared) :
    List (TypeDecl × Span) → Pass (List (TypeId × TypeDecl × Span))
  | [] => return []
  | (decl, span) :: rest => do
    match shapeOf declared decl.type with
    | .error u => throw (.abort u)
    | .ok none =>
      report (.recursiveAlias decl.name span)
      scaffoldTypes declared rest
    | .ok (some shape) =>
      let s ← get
      let (id?, types) := s.types.declare decl.name shape
      set { s with types := types }
      match id? with
      | some id =>
        let slots ← scaffoldTypes declared rest
        return (id, decl, span) :: slots
      | none =>
        report (.duplicateDefinition decl.name span)
        scaffoldTypes declared rest

def define (id : TypeId) (body : Ty) : Pass Unit := do
  let s ← get
  match s.types.define id body with
  | .ok types => set { s with types := types }
  | .error why => throw (.breach (.cannotDefine id why))

/-- Fill in the bodies; a body that cannot be found is reported, and its type stays pending. -/
def populateTypes (wordBits : Nat) (declared : Declared) :
    List (TypeId × TypeDecl × Span) → Pass Unit
  | [] => return ()
  | (id, decl, span) :: rest => do
    match ← recover (bodyOf wordBits declared decl span) with
    | some body => define id body
    | none => pure ()
    populateTypes wordBits declared rest

def resolveTypes (wordBits : Nat) (decls : List (TypeDecl × Span)) : Pass Declared := do
  let kept ← admitTypes [] decls
  let declared := kept.map fun d => (d.1.name, d.1.type)
  let slots ← scaffoldTypes declared kept
  populateTypes wordBits declared slots
  return declared

end Pass

structure Signature where
  params : List TypeId
  ret : TypeId
  deriving DecidableEq, Repr

abbrev Functions := List (String × Signature)

/-- The signature of a function. It returns nothing if it has no results, the result if it has one,
and a struct of its results in order if it has several. -/
def signatureOf (wordBits : Nat) (decl : FuncDecl) : Typing Signature := do
  let params ← Typing.ofFields wordBits decl.params
  let results ← Typing.ofFields wordBits decl.results
  match results with
  | [] => return ⟨params, ← Typing.ofStore TypeStore.void⟩
  | [result] => return ⟨params, result⟩
  | results => return ⟨params, ← Typing.struct results⟩

/-- Register the functions of a unit, and yield with them the declarations that were registered, in
order. A name is taken by the first declaration whose signature can be found. -/
def Pass.declareFunctions (wordBits : Nat) (functions : Functions) :
    List (FuncDecl × Span) → Pass (Functions × List (FuncDecl × Span))
  | [] => return (functions, [])
  | (decl, span) :: rest => do
    if (functions.lookup decl.name).isSome then
      report (.duplicateDefinition decl.name span)
      declareFunctions wordBits functions rest
    else
      match ← recover (signatureOf wordBits decl) with
      | some sig =>
        let (all, kept) ← declareFunctions wordBits (functions ++ [(decl.name, sig)]) rest
        return (all, (decl, span) :: kept)
      | none => declareFunctions wordBits functions rest

end Midend
