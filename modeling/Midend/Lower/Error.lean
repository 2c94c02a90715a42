import Midend.Ir.Verify
import Midend.Tree.Unit

/-!
# Midend.Lower.Error

What can go wrong while a unit is lowered. An error in the input is reported, and lowering goes on
with the next statement; a construct without a lowering rule ends the whole run. That lowering
breaks the contract of the types or the builder is a third, separate outcome.
-/

namespace Midend

structure Unsupported where
  construct : String
  span : Span
  deriving DecidableEq, Repr

def Unsupported.message (u : Unsupported) : String :=
  "support for " ++ u.construct ++ " not yet implemented"

inductive LowerError where
  | typeMismatch (lhs rhs : String) (span : Span)
  | undefinedType (name : String) (span : Span)
  /-- A chain of aliases that never comes to an end. -/
  | recursiveAlias (name : String) (span : Span)
  | undefinedName (name : String) (span : Span)
  | missingType (span : Span)
  | argumentCount (callee : String) (expected found : Nat) (span : Span)
  | invalidLiteral (literal : String) (span : Span)
  | nonBoolCondition (span : Span)
  | missingReturn (function : String) (span : Span)
  | duplicateDefinition (name : String) (span : Span)
  /-- A declared type that takes the name of an untyped constant's type. -/
  | reservedTypeName (name : String) (span : Span)
  | malformed (violation : Ir.Violation)
  deriving DecidableEq, Repr

namespace LowerError

def message : LowerError → String
  | .typeMismatch lhs rhs _ => "mismatched types " ++ lhs ++ " and " ++ rhs
  | .undefinedType name _ => "undefined type `" ++ name ++ "`"
  | .recursiveAlias name _ => "invalid recursive type `" ++ name ++ "`"
  | .undefinedName name _ => "undefined: " ++ name
  | .missingType span => "no type recorded for expression at " ++ span.text
  | .argumentCount callee expected found _ =>
    "wrong number of arguments in call to `" ++ callee ++ "`: expected " ++ toString expected ++
      ", found " ++ toString found
  | .invalidLiteral literal _ => "invalid literal " ++ literal
  | .nonBoolCondition _ => "non-boolean condition"
  | .missingReturn function _ => "missing return at end of function `" ++ function ++ "`"
  | .duplicateDefinition name _ => "`" ++ name ++ "` redeclared in this unit"
  | .reservedTypeName name _ => "type name `" ++ name ++ "` is reserved"
  | .malformed v => "malformed IR: " ++ v.message

def span? : LowerError → Option Span
  | .typeMismatch _ _ s | .undefinedType _ s | .recursiveAlias _ s | .undefinedName _ s
  | .missingType s | .argumentCount _ _ _ s | .invalidLiteral _ s | .nonBoolCondition s
  | .missingReturn _ s | .duplicateDefinition _ s | .reservedTypeName _ s => some s
  | .malformed _ => none

end LowerError

/-- Why a step of lowering has no result. -/
inductive Fault where
  | report (e : LowerError)
  | abort (u : Unsupported)
  | breach (b : Ir.Breach)
  deriving DecidableEq, Repr

end Midend
