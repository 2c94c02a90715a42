/-!
# Midend.Diagnostic.Code

The codes of errors. A code begins with `E`; its first two digits tell the category.
-/

namespace Midend

inductive Category where
  | resolution
  | type
  | lowering
  | internal
  deriving DecidableEq, Repr

def Category.text : Category → String
  | .resolution => "Resolution"
  | .type => "Type"
  | .lowering => "Lowering"
  | .internal => "Internal"

inductive ErrorCode where
  | undefinedType
  | undefinedName
  | duplicateDefinition
  | recursiveType
  | reservedTypeName
  | mismatchedTypes
  | argumentCount
  | nonBoolCondition
  | missingReturn
  | invalidLiteral
  | unsupported
  | missingType
  | malformedIr
  deriving DecidableEq, Repr

namespace ErrorCode

/-- The codes in the order of their texts. -/
def all : List ErrorCode :=
  [.undefinedType, .undefinedName, .duplicateDefinition, .recursiveType, .reservedTypeName,
    .mismatchedTypes, .argumentCount, .nonBoolCondition, .missingReturn, .invalidLiteral,
    .unsupported, .missingType, .malformedIr]

def text : ErrorCode → String
  | .undefinedType => "E0100"
  | .undefinedName => "E0101"
  | .duplicateDefinition => "E0102"
  | .recursiveType => "E0103"
  | .reservedTypeName => "E0104"
  | .mismatchedTypes => "E0200"
  | .argumentCount => "E0201"
  | .nonBoolCondition => "E0202"
  | .missingReturn => "E0203"
  | .invalidLiteral => "E0204"
  | .unsupported => "E0300"
  | .missingType => "E0900"
  | .malformedIr => "E0901"

def title : ErrorCode → String
  | .undefinedType => "undefined type"
  | .undefinedName => "undefined name"
  | .duplicateDefinition => "duplicate definition"
  | .recursiveType => "invalid recursive type"
  | .reservedTypeName => "reserved type name"
  | .mismatchedTypes => "mismatched types"
  | .argumentCount => "wrong number of arguments"
  | .nonBoolCondition => "non-boolean condition"
  | .missingReturn => "missing return statement"
  | .invalidLiteral => "invalid literal"
  | .unsupported => "unsupported construct"
  | .missingType => "missing type information"
  | .malformedIr => "malformed IR"

def category : ErrorCode → Category
  | .undefinedType | .undefinedName | .duplicateDefinition | .recursiveType
  | .reservedTypeName => .resolution
  | .mismatchedTypes | .argumentCount | .nonBoolCondition | .missingReturn
  | .invalidLiteral => .type
  | .unsupported => .lowering
  | .missingType | .malformedIr => .internal

def ofText? (text : String) : Option ErrorCode := all.find? fun c => c.text == text

end ErrorCode

end Midend
