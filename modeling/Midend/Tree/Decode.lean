import Midend.Json.Decode
import Midend.Json.Read
import Midend.Tree.Encode

/-!
# Midend.Tree.Decode

Trees from JSON. Unknown fields are ignored; an option may be missing or `null`; the type table of a
unit and the names and the span of a field group may be missing. A record, also the data of a
variant with named parts, may be an array of its fields in order. `limit` is the number of arrays
and objects that may still be opened inside one another, which is also what the recursion runs on.
-/

namespace Midend

open Json (record required optional defaulted elements member)

def NodeId.decode (j : Json) : Decoded NodeId := j.asUInt32.map NodeId.mk

def Span.decode : Nat → Json → Decoded Span
  | 0, _ => .error .tooDeep
  | _ + 1, j => do
    let fs ← record ["start", "end"] 0 j
    let start ← required fs "start" Json.asUInt64
    let stop ← required fs "end" Json.asUInt64
    .ok ⟨start, stop⟩

def Mark.decode (limit : Nat) (fs : Fields) : Decoded Mark := do
  let id ← required fs "id" NodeId.decode
  let span ← required fs "span" (Span.decode limit)
  .ok ⟨id, span⟩

def decodeStrings (limit : Nat) (j : Json) : Decoded (List String) :=
  elements (fun _ => Json.asString) limit j

def BasicKind.decode (limit : Nat) (j : Json) : Decoded BasicKind := member all tag limit j

def LiteralKind.decode (limit : Nat) (j : Json) : Decoded LiteralKind := member all tag limit j

def BinaryOp.decode (limit : Nat) (j : Json) : Decoded BinaryOp := member all tag limit j

def UnaryOp.decode (limit : Nat) (j : Json) : Decoded UnaryOp := member all tag limit j

mutual

def TypeExpr.decode : Nat → Json → Decoded TypeExpr
  | 0, _ => .error .tooDeep
  | n + 1, j => do
    let fs ← record ["kind", "span"] 0 j
    let span ← required fs "span" (Span.decode n)
    let kind ← required fs "kind" .ok
    TypeExpr.decodeKind n span kind

def TypeExpr.decodeKind : Nat → Span → Json → Decoded TypeExpr
  | _, span, .str tag =>
    if tag = "Interface" then .ok (.interface span) else .error (.unknown tag)
  | 0, _, _ => .error .tooDeep
  | n + 1, span, .obj [(⟨tag, _⟩, data)] =>
    match tag, data with
    | "Ident", _ => data.asString.map (.ident span)
    | "Pointer", _ => (TypeExpr.decode n data).map (.pointer span)
    | "Struct", _ => (Field.decodeAll n data).map (.struct span)
    | "Interface", .null => .ok (.interface span)
    | _, _ => TypeExpr.decodeParts n span tag data
  | _, _, _ => .error (.expected "a variant")

def TypeExpr.decodeParts : Nat → Span → String → Json → Decoded TypeExpr
  | 0, _, _, _ => .error .tooDeep
  | n + 1, span, tag, j =>
    match tag with
    | "Qualified" => do
      let fs ← record ["package", "name"] 0 j
      let package ← required fs "package" Json.asString
      let name ← required fs "name" Json.asString
      .ok (.qualified span package name)
    | "Array" => do
      let fs ← record ["len", "elem"] 0 j
      let len ← optional fs "len" Json.asUInt64
      let elem ← required fs "elem" (TypeExpr.decode n)
      .ok (.array span len elem)
    | "Map" => do
      let fs ← record ["key", "value"] 0 j
      let key ← required fs "key" (TypeExpr.decode n)
      let value ← required fs "value" (TypeExpr.decode n)
      .ok (.map span key value)
    | "Func" => do
      let fs ← record ["params", "results"] 0 j
      let params ← required fs "params" (Field.decodeAll n)
      let results ← required fs "results" (Field.decodeAll n)
      .ok (.func span params results)
    | _ => .error (.unknown tag)

def Field.decode : Nat → Json → Decoded Field
  | 0, _ => .error .tooDeep
  | n + 1, j => do
    let fs ← record ["names", "ty", "span"] 1 j
    let names ← defaulted fs "names" [] (decodeStrings n)
    let type ← required fs "ty" (TypeExpr.decode n)
    let span ← defaulted fs "span" .empty (Span.decode n)
    .ok (.mk names type span)

def Field.decodeAll : Nat → Json → Decoded (List Field)
  | 0, _ => .error .tooDeep
  | n + 1, .arr xs => xs.mapM (Field.decode n)
  | _ + 1, _ => .error (.expected "an array")

end

mutual

def CheckedType.decode : Nat → Json → Decoded CheckedType
  | _, .str tag => if tag = "Signature" then .ok .signature else .error (.unknown tag)
  | 0, _ => .error .tooDeep
  | n + 1, .obj [(⟨tag, _⟩, data)] =>
    match tag, data with
    | "Basic", _ => (BasicKind.decode n data).map .basic
    | "Named", _ => data.asString.map .named
    | "Pointer", _ => (CheckedType.decode n data).map .pointer
    | "Struct", _ => (CheckedType.decodeAll n data).map .struct
    | "Slice", _ => (CheckedType.decode n data).map .slice
    | "Tuple", _ => (CheckedType.decodeAll n data).map .tuple
    | "Signature", .null => .ok .signature
    | _, _ => .error (.unknown tag)
  | _, _ => .error (.expected "a variant")

def CheckedType.decodeAll : Nat → Json → Decoded (List CheckedType)
  | 0, _ => .error .tooDeep
  | n + 1, .arr xs => xs.mapM (CheckedType.decode n)
  | _ + 1, _ => .error (.expected "an array")

end

mutual

def Expr.decode : Nat → Json → Decoded Expr
  | 0, _ => .error .tooDeep
  | n + 1, j => do
    let fs ← record ["id", "kind", "span"] 0 j
    let m ← Mark.decode n fs
    let kind ← required fs "kind" .ok
    Expr.decodeKind n m kind

def Expr.decodeKind : Nat → Mark → Json → Decoded Expr
  | _, m, .str tag => if tag = "FuncLit" then .ok (.funcLit m) else .error (.unknown tag)
  | 0, _, _ => .error .tooDeep
  | n + 1, m, .obj [(⟨tag, _⟩, data)] =>
    match tag, data with
    | "Ident", _ => data.asString.map (.ident m)
    | "Paren", _ => (Expr.decode n data).map (.paren m)
    | "Deref", _ => (Expr.decode n data).map (.deref m)
    | "FuncLit", .null => .ok (.funcLit m)
    | _, _ => Expr.decodeParts n m tag data
  | _, _, _ => .error (.expected "a variant")

def Expr.decodeParts : Nat → Mark → String → Json → Decoded Expr
  | 0, _, _, _ => .error .tooDeep
  | n + 1, m, tag, j =>
    match tag with
    | "Lit" => do
      let fs ← record ["kind", "value"] 0 j
      let kind ← required fs "kind" (LiteralKind.decode n)
      let text ← required fs "value" Json.asString
      .ok (.lit m kind text)
    | "Unary" => do
      let fs ← record ["op", "operand"] 0 j
      let op ← required fs "op" (UnaryOp.decode n)
      let operand ← required fs "operand" (Expr.decode n)
      .ok (.unary m op operand)
    | "Binary" => do
      let fs ← record ["op", "left", "right"] 0 j
      let op ← required fs "op" (BinaryOp.decode n)
      let left ← required fs "left" (Expr.decode n)
      let right ← required fs "right" (Expr.decode n)
      .ok (.binary m op left right)
    | "Call" => do
      let fs ← record ["func", "args"] 0 j
      let callee ← required fs "func" (Expr.decode n)
      let args ← required fs "args" (Expr.decodeAll n)
      .ok (.call m callee args)
    | "Selector" => do
      let fs ← record ["object", "field"] 0 j
      let object ← required fs "object" (Expr.decode n)
      let field ← required fs "field" Json.asString
      .ok (.selector m object field)
    | "Index" => do
      let fs ← record ["object", "index"] 0 j
      let object ← required fs "object" (Expr.decode n)
      let place ← required fs "index" (Expr.decode n)
      .ok (.index m object place)
    | "Composite" => do
      let fs ← record ["ty", "elems"] 0 j
      let type ← optional fs "ty" (TypeExpr.decode n)
      let elems ← required fs "elems" (Expr.decodeAll n)
      .ok (.composite m type elems)
    | _ => .error (.unknown tag)

def Expr.decodeAll : Nat → Json → Decoded (List Expr)
  | 0, _ => .error .tooDeep
  | n + 1, .arr xs => xs.mapM (Expr.decode n)
  | _ + 1, _ => .error (.expected "an array")

end

mutual

def Stmt.decode : Nat → Json → Decoded Stmt
  | 0, _ => .error .tooDeep
  | n + 1, j => do
    let fs ← record ["id", "kind", "span"] 0 j
    let m ← Mark.decode n fs
    let kind ← required fs "kind" .ok
    Stmt.decodeKind n m kind

def Stmt.decodeKind : Nat → Mark → Json → Decoded Stmt
  | _, m, .str tag => if tag = "Empty" then .ok (.empty m) else .error (.unknown tag)
  | 0, _, _ => .error .tooDeep
  | n + 1, m, .obj [(⟨tag, _⟩, data)] =>
    match tag, data with
    | "Block", _ => (Stmt.decodeAll n data).map (.block m)
    | "Empty", .null => .ok (.empty m)
    | "Expr", _ => (Expr.decode n data).map (.expr m)
    | "Return", _ => (Expr.decodeAll n data).map (.ret m)
    | "Defer", _ => (Expr.decode n data).map (.defer m)
    | "Go", _ => (Expr.decode n data).map (.go m)
    | _, _ => Stmt.decodeParts n m tag data
  | _, _, _ => .error (.expected "a variant")

def Stmt.decodeParts : Nat → Mark → String → Json → Decoded Stmt
  | 0, _, _, _ => .error .tooDeep
  | n + 1, m, tag, j =>
    match tag with
    | "If" => do
      let fs ← record ["init", "cond", "then_branch", "else_branch"] 0 j
      let init ← optional fs "init" (Stmt.decode n)
      let cond ← required fs "cond" (Expr.decode n)
      let thenBranch ← required fs "then_branch" (Stmt.decode n)
      let elseBranch ← optional fs "else_branch" (Stmt.decode n)
      .ok (.ifElse m init cond thenBranch elseBranch)
    | "For" => do
      let fs ← record ["init", "cond", "post", "body"] 0 j
      let init ← optional fs "init" (Stmt.decode n)
      let cond ← optional fs "cond" (Expr.decode n)
      let post ← optional fs "post" (Stmt.decode n)
      let body ← required fs "body" (Stmt.decode n)
      .ok (.loop m init cond post body)
    | "Switch" => do
      let fs ← record ["init", "tag", "clauses"] 0 j
      let init ← optional fs "init" (Stmt.decode n)
      let tag ← optional fs "tag" (Expr.decode n)
      let clauses ← required fs "clauses" (Clause.decodeAll n)
      .ok (.switch m init tag clauses)
    | "Assign" => do
      let fs ← record ["lhs", "rhs", "define"] 0 j
      let lhs ← required fs "lhs" (Expr.decodeAll n)
      let rhs ← required fs "rhs" (Expr.decodeAll n)
      let define ← required fs "define" Json.asBool
      .ok (.assign m lhs rhs define)
    | "IncDec" => do
      let fs ← record ["target", "inc"] 0 j
      let target ← required fs "target" (Expr.decode n)
      let inc ← required fs "inc" Json.asBool
      .ok (.incDec m target inc)
    | "Branch" => do
      let fs ← record ["keyword", "label"] 0 j
      let keyword ← required fs "keyword" Json.asString
      let label ← optional fs "label" Json.asString
      .ok (.jump m keyword label)
    | "VarDecl" => do
      let fs ← record ["names", "values"] 0 j
      let names ← required fs "names" (decodeStrings n)
      let values ← required fs "values" (Expr.decodeAll n)
      .ok (.varDecl m names values)
    | "Labeled" => do
      let fs ← record ["label", "body"] 0 j
      let label ← required fs "label" Json.asString
      let body ← required fs "body" (Stmt.decode n)
      .ok (.labeled m label body)
    | "Range" => do
      let fs ← record ["value", "body"] 0 j
      let value ← required fs "value" (Expr.decode n)
      let body ← required fs "body" (Stmt.decode n)
      .ok (.range m value body)
    | _ => .error (.unknown tag)

def Stmt.decodeAll : Nat → Json → Decoded (List Stmt)
  | 0, _ => .error .tooDeep
  | n + 1, .arr xs => xs.mapM (Stmt.decode n)
  | _ + 1, _ => .error (.expected "an array")

def Clause.decode : Nat → Json → Decoded Clause
  | 0, _ => .error .tooDeep
  | n + 1, j => do
    let fs ← record ["values", "body", "span"] 0 j
    let values ← required fs "values" (Expr.decodeAll n)
    let body ← required fs "body" (Stmt.decodeAll n)
    let span ← required fs "span" (Span.decode n)
    .ok (.mk values body span)

def Clause.decodeAll : Nat → Json → Decoded (List Clause)
  | 0, _ => .error .tooDeep
  | n + 1, .arr xs => xs.mapM (Clause.decode n)
  | _ + 1, _ => .error (.expected "an array")

end

def TypeDecl.decode : Nat → Json → Decoded TypeDecl
  | 0, _ => .error .tooDeep
  | n + 1, j => do
    let fs ← record ["name", "ty"] 0 j
    let name ← required fs "name" Json.asString
    let type ← required fs "ty" (TypeExpr.decode n)
    .ok ⟨name, type⟩

def FuncDecl.decode : Nat → Json → Decoded FuncDecl
  | 0, _ => .error .tooDeep
  | n + 1, j => do
    let fs ← record ["name", "params", "results", "body"] 0 j
    let name ← required fs "name" Json.asString
    let params ← required fs "params" (Field.decodeAll n)
    let results ← required fs "results" (Field.decodeAll n)
    let body ← optional fs "body" (Stmt.decode n)
    .ok ⟨name, params, results, body⟩

/-- A package-level variable or constant, from its parts. -/
def Decl.decodeVar (m : Mark) : Nat → Json → Decoded Decl
  | 0, _ => .error .tooDeep
  | n + 1, j => do
    let fs ← record ["names", "ty", "values", "is_const"] 0 j
    let names ← required fs "names" (decodeStrings n)
    let ty ← optional fs "ty" (TypeExpr.decode n)
    let values ← required fs "values" (Expr.decodeAll n)
    let isConst ← required fs "is_const" Json.asBool
    .ok (.var m names ty values isConst)

def Decl.decodeKind : Nat → Mark → Json → Decoded Decl
  | 0, _, _ => .error .tooDeep
  | n + 1, m, .obj [(⟨tag, _⟩, data)] =>
    match tag with
    | "Type" => (TypeDecl.decode n data).map (.type m)
    | "Func" => (FuncDecl.decode n data).map (.func m)
    | "Var" => Decl.decodeVar m n data
    | _ => .error (.unknown tag)
  | _ + 1, _, _ => .error (.expected "a variant")

def Decl.decode : Nat → Json → Decoded Decl
  | 0, _ => .error .tooDeep
  | n + 1, j => do
    let fs ← record ["id", "kind", "span"] 0 j
    let m ← Mark.decode n fs
    let kind ← required fs "kind" .ok
    Decl.decodeKind n m kind

/-- A node's number in decimal, without sign and leading zeros. -/
def NodeId.ofText? (text : String) : Option NodeId :=
  match Json.scanNumber text.toList with
  | some (.int (.ofNat n), []) => if n < UInt32.size then some ⟨.ofNat n⟩ else none
  | _ => none

/-- The node whose number is a key. The digits must stand in the text as they are. -/
def NodeId.ofKey? (key : Json.Key) : Option NodeId :=
  if key.escaped then none else NodeId.ofText? key.text

def TypeTable.decodeEntry (limit : Nat) (entry : Json.Key × Json) :
    Decoded (NodeId × CheckedType) :=
  match NodeId.ofKey? entry.1 with
  | some id => (CheckedType.decode limit entry.2).map fun type => (id, type)
  | none => .error (.expected "a node number")

def TypeTable.decode : Nat → Json → Decoded TypeTable
  | 0, _ => .error .tooDeep
  | n + 1, j => do
    let fs ← j.asFields
    let entries ← fs.mapM (TypeTable.decodeEntry n)
    .ok (.ofList entries)

namespace SourceUnit

def decode : Nat → Json → Decoded SourceUnit
  | 0, _ => .error .tooDeep
  | n + 1, j => do
    let fs ← record ["name", "decls", "types"] 1 j
    let name ← required fs "name" Json.asString
    let decls ← required fs "decls" (elements Decl.decode n)
    let types ← defaulted fs "types" .empty (TypeTable.decode n)
    .ok ⟨name, decls, types⟩

def ofJson (j : Json) : Decoded SourceUnit := decode j.depth j

/-- How many arrays and objects of a unit's text may enclose one another. -/
def maxDepth : Nat := 127

def parse (text : String) : Decoded SourceUnit :=
  match Json.parse? text with
  | some j => decode maxDepth j
  | none => .error .malformed

end SourceUnit

end Midend
