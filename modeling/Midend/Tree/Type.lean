import Midend.Tree.Basic

/-!
# Midend.Tree.Type

Types on the source side. A `TypeExpr` is a type as written in a declaration; a `CheckedType` is
what the checker found for an expression. Both rest on `BasicKind`, the predeclared kinds and the
kinds of untyped constants.
-/

namespace Midend

inductive BasicKind where
  | invalid
  | bool
  | int
  | int8
  | int16
  | int32
  | int64
  | uint
  | uint8
  | uint16
  | uint32
  | uint64
  | uintptr
  | float32
  | float64
  | complex64
  | complex128
  | string
  | unsafePointer
  | untypedBool
  | untypedInt
  | untypedRune
  | untypedFloat
  | untypedComplex
  | untypedString
  | untypedNil
  deriving DecidableEq, Repr

namespace BasicKind

/-- The kind that a predeclared type name denotes; `byte` and `rune` are second names. -/
def ofName? (name : String) : Option BasicKind :=
  match name with
  | "bool" => some .bool
  | "int" => some .int
  | "int8" => some .int8
  | "int16" => some .int16
  | "int32" => some .int32
  | "rune" => some .int32
  | "int64" => some .int64
  | "uint" => some .uint
  | "uint8" => some .uint8
  | "byte" => some .uint8
  | "uint16" => some .uint16
  | "uint32" => some .uint32
  | "uint64" => some .uint64
  | "uintptr" => some .uintptr
  | "float32" => some .float32
  | "float64" => some .float64
  | "complex64" => some .complex64
  | "complex128" => some .complex128
  | "string" => some .string
  | _ => none

def name : BasicKind → String
  | .invalid => "invalid type"
  | .bool => "bool"
  | .int => "int"
  | .int8 => "int8"
  | .int16 => "int16"
  | .int32 => "int32"
  | .int64 => "int64"
  | .uint => "uint"
  | .uint8 => "uint8"
  | .uint16 => "uint16"
  | .uint32 => "uint32"
  | .uint64 => "uint64"
  | .uintptr => "uintptr"
  | .float32 => "float32"
  | .float64 => "float64"
  | .complex64 => "complex64"
  | .complex128 => "complex128"
  | .string => "string"
  | .unsafePointer => "unsafe.Pointer"
  | .untypedBool => "untyped bool"
  | .untypedInt => "untyped int"
  | .untypedRune => "untyped rune"
  | .untypedFloat => "untyped float"
  | .untypedComplex => "untyped complex"
  | .untypedString => "untyped string"
  | .untypedNil => "untyped nil"

def isUnsigned : BasicKind → Bool
  | .uint | .uint8 | .uint16 | .uint32 | .uint64 | .uintptr => true
  | _ => false

end BasicKind

mutual

inductive TypeExpr where
  | ident (span : Span) (name : String)
  | qualified (span : Span) (package name : String)
  | pointer (span : Span) (elem : TypeExpr)
  | struct (span : Span) (fields : List Field)
  /-- An array if it has a length, a slice if not. -/
  | array (span : Span) (len : Option UInt64) (elem : TypeExpr)
  | map (span : Span) (key value : TypeExpr)
  | func (span : Span) (params results : List Field)
  | interface (span : Span)

/-- A group of parameters, results or struct fields of one type. A group without names stands for
one entry. -/
inductive Field where
  | mk (names : List String) (type : TypeExpr) (span : Span)

end

namespace Field

def names : Field → List String
  | .mk names _ _ => names

def type : Field → TypeExpr
  | .mk _ type _ => type

def span : Field → Span
  | .mk _ _ span => span

def arity (f : Field) : Nat := max f.names.length 1

def entries (f : Field) : List (Option String × TypeExpr) :=
  match f.names with
  | [] => [(none, f.type)]
  | names => names.map fun n => (some n, f.type)

def flatten (fields : List Field) : List (Option String × TypeExpr) := fields.flatMap entries

end Field

namespace TypeExpr

def span : TypeExpr → Span
  | .ident s _ | .qualified s _ _ | .pointer s _ | .struct s _ | .array s _ _ | .map s _ _
  | .func s _ _ | .interface s => s

def describe : TypeExpr → String
  | .ident .. => "named type"
  | .qualified .. => "qualified type"
  | .pointer .. => "pointer type"
  | .struct .. => "struct type"
  | .array _ (some _) _ => "array type"
  | .array _ none _ => "slice type"
  | .map .. => "map type"
  | .func .. => "function type"
  | .interface .. => "interface type"

end TypeExpr

/-- The checker's view of an expression's type. -/
inductive CheckedType where
  | basic (kind : BasicKind)
  | named (name : String)
  | pointer (elem : CheckedType)
  | struct (fields : List CheckedType)
  | slice (elem : CheckedType)
  /-- What a call with several results yields. -/
  | tuple (elems : List CheckedType)
  | signature

namespace CheckedType

mutual

def text : CheckedType → String
  | .basic kind => kind.name
  | .named name => name
  | .pointer elem => "*" ++ elem.text
  | .struct fields => "struct\x7b" ++ String.intercalate "; " (texts fields) ++ "\x7d"
  | .slice elem => "[]" ++ elem.text
  | .tuple elems => "(" ++ String.intercalate ", " (texts elems) ++ ")"
  | .signature => "func"

def texts : List CheckedType → List String
  | [] => []
  | t :: rest => t.text :: texts rest

end

end CheckedType

end Midend
