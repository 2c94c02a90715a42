import Midend.Json.Basic
import Midend.Tree.Unit

/-!
# Midend.Tree.Encode

Trees as JSON. A record is an object with every field, an absent option is `null`. A variant without
data is its name as a string; any other variant is an object from its name to its data.
-/

namespace Midend

def variant (tag : String) (data : Json) : Json := .obj [(tag, data)]

def NodeId.encode (id : NodeId) : Json := .int id.val.toNat

def Span.encode (s : Span) : Json :=
  .obj [("start", .int s.start.toNat), ("end", .int s.stop.toNat)]

/-- A node that carries a mark: its id, its kind and its span. -/
def Mark.encode (m : Mark) (kind : Json) : Json :=
  .obj [("id", m.id.encode), ("kind", kind), ("span", m.span.encode)]

def encodeStrings (names : List String) : Json := .arr (names.map .str)

namespace BasicKind

def all : List BasicKind :=
  [.invalid, .bool, .int, .int8, .int16, .int32, .int64, .uint, .uint8, .uint16, .uint32, .uint64,
    .uintptr, .float32, .float64, .complex64, .complex128, .string, .unsafePointer, .untypedBool,
    .untypedInt, .untypedRune, .untypedFloat, .untypedComplex, .untypedString, .untypedNil]

def tag : BasicKind → String
  | .invalid => "Invalid"
  | .bool => "Bool"
  | .int => "Int"
  | .int8 => "Int8"
  | .int16 => "Int16"
  | .int32 => "Int32"
  | .int64 => "Int64"
  | .uint => "Uint"
  | .uint8 => "Uint8"
  | .uint16 => "Uint16"
  | .uint32 => "Uint32"
  | .uint64 => "Uint64"
  | .uintptr => "Uintptr"
  | .float32 => "Float32"
  | .float64 => "Float64"
  | .complex64 => "Complex64"
  | .complex128 => "Complex128"
  | .string => "String"
  | .unsafePointer => "UnsafePointer"
  | .untypedBool => "UntypedBool"
  | .untypedInt => "UntypedInt"
  | .untypedRune => "UntypedRune"
  | .untypedFloat => "UntypedFloat"
  | .untypedComplex => "UntypedComplex"
  | .untypedString => "UntypedString"
  | .untypedNil => "UntypedNil"

end BasicKind

namespace LiteralKind

def all : List LiteralKind := [.int, .float, .imaginary, .char, .string]

def tag : LiteralKind → String
  | .int => "Int"
  | .float => "Float"
  | .imaginary => "Imag"
  | .char => "Char"
  | .string => "String"

end LiteralKind

namespace BinaryOp

def all : List BinaryOp :=
  [.add, .sub, .mul, .div, .rem, .and, .or, .xor, .andNot, .shl, .shr, .logicalAnd, .logicalOr,
    .eq, .ne, .lt, .le, .gt, .ge]

def tag : BinaryOp → String
  | .add => "Add"
  | .sub => "Sub"
  | .mul => "Mul"
  | .div => "Div"
  | .rem => "Rem"
  | .and => "And"
  | .or => "Or"
  | .xor => "Xor"
  | .andNot => "AndNot"
  | .shl => "Shl"
  | .shr => "Shr"
  | .logicalAnd => "LAnd"
  | .logicalOr => "LOr"
  | .eq => "Eq"
  | .ne => "Ne"
  | .lt => "Lt"
  | .le => "Le"
  | .gt => "Gt"
  | .ge => "Ge"

end BinaryOp

namespace UnaryOp

def all : List UnaryOp := [.plus, .neg, .not, .bitNot, .addr, .recv]

def tag : UnaryOp → String
  | .plus => "Plus"
  | .neg => "Neg"
  | .not => "Not"
  | .bitNot => "BitNot"
  | .addr => "Addr"
  | .recv => "Recv"

end UnaryOp

mutual

def TypeExpr.encode : TypeExpr → Json
  | .ident span name => written span (variant "Ident" (.str name))
  | .qualified span package name =>
    written span (variant "Qualified" (.obj [("package", .str package), ("name", .str name)]))
  | .pointer span elem => written span (variant "Pointer" elem.encode)
  | .struct span fields => written span (variant "Struct" (.arr (Field.encodeAll fields)))
  | .array span len elem =>
    written span (variant "Array"
      (.obj [("len", Json.ofOption (fun n => .int n.toNat) len), ("elem", elem.encode)]))
  | .map span key value =>
    written span (variant "Map" (.obj [("key", key.encode), ("value", value.encode)]))
  | .func span params results =>
    written span (variant "Func"
      (.obj [("params", .arr (Field.encodeAll params)),
        ("results", .arr (Field.encodeAll results))]))
  | .interface span => written span (.str "Interface")
where
  written (span : Span) (kind : Json) : Json := .obj [("kind", kind), ("span", span.encode)]

def Field.encode : Field → Json
  | .mk names type span =>
    .obj [("names", encodeStrings names), ("ty", type.encode), ("span", span.encode)]

def Field.encodeAll : List Field → List Json
  | [] => []
  | f :: rest => f.encode :: Field.encodeAll rest

end

mutual

def CheckedType.encode : CheckedType → Json
  | .basic kind => variant "Basic" (.str kind.tag)
  | .named name => variant "Named" (.str name)
  | .pointer elem => variant "Pointer" elem.encode
  | .struct fields => variant "Struct" (.arr (CheckedType.encodeAll fields))
  | .slice elem => variant "Slice" elem.encode
  | .tuple elems => variant "Tuple" (.arr (CheckedType.encodeAll elems))
  | .signature => .str "Signature"

def CheckedType.encodeAll : List CheckedType → List Json
  | [] => []
  | t :: rest => t.encode :: CheckedType.encodeAll rest

end

mutual

def Expr.encode : Expr → Json
  | .lit m kind text =>
    m.encode (variant "Lit" (.obj [("kind", .str kind.tag), ("value", .str text)]))
  | .ident m name => m.encode (variant "Ident" (.str name))
  | .paren m inner => m.encode (variant "Paren" inner.encode)
  | .unary m op operand =>
    m.encode (variant "Unary" (.obj [("op", .str op.tag), ("operand", operand.encode)]))
  | .binary m op left right =>
    m.encode (variant "Binary"
      (.obj [("op", .str op.tag), ("left", left.encode), ("right", right.encode)]))
  | .call m callee args =>
    m.encode (variant "Call" (.obj [("func", callee.encode), ("args", .arr (Expr.encodeAll args))]))
  | .selector m object field =>
    m.encode (variant "Selector" (.obj [("object", object.encode), ("field", .str field)]))
  | .index m object place =>
    m.encode (variant "Index" (.obj [("object", object.encode), ("index", place.encode)]))
  | .deref m pointer => m.encode (variant "Deref" pointer.encode)
  | .composite m ty elems =>
    m.encode (variant "Composite"
      (.obj [("ty", Json.ofOption TypeExpr.encode ty), ("elems", .arr (Expr.encodeAll elems))]))
  | .funcLit m => m.encode (.str "FuncLit")

def Expr.encodeAll : List Expr → List Json
  | [] => []
  | e :: rest => e.encode :: Expr.encodeAll rest

end

mutual

def Stmt.encode : Stmt → Json
  | .block m body => m.encode (variant "Block" (.arr (Stmt.encodeAll body)))
  | .empty m => m.encode (.str "Empty")
  | .expr m e => m.encode (variant "Expr" e.encode)
  | .ifElse m init cond thenBranch elseBranch =>
    m.encode (variant "If"
      (.obj [("init", Stmt.encodeOption init), ("cond", cond.encode),
        ("then_branch", thenBranch.encode), ("else_branch", Stmt.encodeOption elseBranch)]))
  | .loop m init cond post body =>
    m.encode (variant "For"
      (.obj [("init", Stmt.encodeOption init), ("cond", Json.ofOption Expr.encode cond),
        ("post", Stmt.encodeOption post), ("body", body.encode)]))
  | .switch m init tag clauses =>
    m.encode (variant "Switch"
      (.obj [("init", Stmt.encodeOption init), ("tag", Json.ofOption Expr.encode tag),
        ("clauses", .arr (Clause.encodeAll clauses))]))
  | .ret m results => m.encode (variant "Return" (.arr (Expr.encodeAll results)))
  | .assign m lhs rhs define =>
    m.encode (variant "Assign"
      (.obj [("lhs", .arr (Expr.encodeAll lhs)), ("rhs", .arr (Expr.encodeAll rhs)),
        ("define", .bool define)]))
  | .incDec m target inc =>
    m.encode (variant "IncDec" (.obj [("target", target.encode), ("inc", .bool inc)]))
  | .jump m keyword label =>
    m.encode (variant "Branch"
      (.obj [("keyword", .str keyword), ("label", Json.ofOption .str label)]))
  | .varDecl m names values =>
    m.encode (variant "VarDecl"
      (.obj [("names", encodeStrings names), ("values", .arr (Expr.encodeAll values))]))
  | .labeled m label body =>
    m.encode (variant "Labeled" (.obj [("label", .str label), ("body", body.encode)]))
  | .defer m call => m.encode (variant "Defer" call.encode)
  | .go m call => m.encode (variant "Go" call.encode)
  | .range m value body =>
    m.encode (variant "Range" (.obj [("value", value.encode), ("body", body.encode)]))

def Stmt.encodeOption : Option Stmt → Json
  | none => .null
  | some s => s.encode

def Stmt.encodeAll : List Stmt → List Json
  | [] => []
  | s :: rest => s.encode :: Stmt.encodeAll rest

def Clause.encode : Clause → Json
  | .mk values body span =>
    .obj [("values", .arr (Expr.encodeAll values)), ("body", .arr (Stmt.encodeAll body)),
      ("span", span.encode)]

def Clause.encodeAll : List Clause → List Json
  | [] => []
  | c :: rest => c.encode :: Clause.encodeAll rest

end

def TypeDecl.encode (d : TypeDecl) : Json :=
  .obj [("name", .str d.name), ("ty", d.type.encode)]

def FuncDecl.encode (d : FuncDecl) : Json :=
  .obj [("name", .str d.name), ("params", .arr (Field.encodeAll d.params)),
    ("results", .arr (Field.encodeAll d.results)), ("body", Stmt.encodeOption d.body)]

def Decl.encode : Decl → Json
  | .type m d => m.encode (variant "Type" d.encode)
  | .func m d => m.encode (variant "Func" d.encode)
  | .var m names ty values isConst =>
    m.encode (variant "Var"
      (.obj [("names", encodeStrings names), ("ty", Json.ofOption TypeExpr.encode ty),
        ("values", .arr (Expr.encodeAll values)), ("is_const", .bool isConst)]))

/-- An object from the node's number in decimal to its type. -/
def TypeTable.encode (t : TypeTable) : Json :=
  .obj (t.entries.map fun (id, type) => (toString id.val.toNat, type.encode))

def SourceUnit.encode (u : SourceUnit) : Json :=
  .obj [("name", .str u.name), ("decls", .arr (u.decls.map Decl.encode)),
    ("types", u.types.encode)]

end Midend
