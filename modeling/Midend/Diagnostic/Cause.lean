import Midend.Diagnostic.Basic
import Midend.Lower.Error

/-!
# Midend.Diagnostic.Cause

The diagnostic of each thing that can go wrong while a unit is lowered.
-/

namespace Midend

/-- A violation is an error of the compiler and not of the unit, so it has no place in the unit. -/
def Ir.Violation.diagnostic (v : Ir.Violation) : Diagnostic :=
  (Diagnostic.ofCode .malformedIr ("malformed IR: " ++ v.message)).note
    "this is a compiler bug; rerun with `--no-verify` to see the IR"

def Unsupported.diagnostic (u : Unsupported) : Diagnostic :=
  ((Diagnostic.ofCode .unsupported u.message).label u.span
    "no lowering rule for this construct").note
    "lowering stopped here; no output was produced"

def argumentsText (n : Nat) : String :=
  toString n ++ (if n = 1 then " argument" else " arguments")

def LowerError.diagnostic (e : LowerError) : Diagnostic :=
  match e with
  | .typeMismatch lhs rhs span =>
    (Diagnostic.ofCode .mismatchedTypes e.message).label span
      ("expected `" ++ lhs ++ "`, found `" ++ rhs ++ "`")
  | .undefinedType name span =>
    ((Diagnostic.ofCode .undefinedType e.message).label span "not found in this unit").suggest
      ("declare `type " ++ name ++ " ...` at the top level")
  | .recursiveAlias _ span =>
    ((Diagnostic.ofCode .recursiveType e.message).label span
      "alias chain never reaches a concrete type").note
      "a named type may refer to itself only through a pointer or struct field"
  | .undefinedName _ span =>
    (Diagnostic.ofCode .undefinedName e.message).label span "not in scope"
  | .missingType span =>
    ((Diagnostic.ofCode .missingType e.message).label span "no entry in the type table").note
      "the unit was not fully checked before lowering"
  | .argumentCount _ expected found span =>
    (Diagnostic.ofCode .argumentCount e.message).label span
      ("expected " ++ argumentsText expected ++ ", found " ++ toString found)
  | .invalidLiteral _ span =>
    (Diagnostic.ofCode .invalidLiteral e.message).label span
      "cannot be represented in its type"
  | .nonBoolCondition span =>
    (Diagnostic.ofCode .nonBoolCondition e.message).label span "expected `bool`"
  | .missingReturn _ span =>
    ((Diagnostic.ofCode .missingReturn e.message).label span
      "control reaches the end of a non-void function").suggest
      "add a `return` at the end of the body"
  | .duplicateDefinition _ span =>
    ((Diagnostic.ofCode .duplicateDefinition e.message).label span "redefined here").note
      "the first definition is kept"
  | .reservedTypeName _ span =>
    ((Diagnostic.ofCode .reservedTypeName e.message).label span
      "names the type of an untyped constant").suggest "rename the type"
  | .malformed v => v.diagnostic

end Midend
