import Midend.Lower.Declare
import Midend.Tree.Literal

/-!
# Midend.Lower.Expr

Lowering of expressions. Operands and arguments are lowered from left to right; the right operand of
`&&` and `||` has a block of its own, and a phi where both ways meet picks the result.
-/

namespace Midend

open Ir

structure Config where
  /-- The width of `int`, `uint` and addresses. -/
  wordBits : Nat
  /-- Whether a module without errors is verified. -/
  verify : Bool
  deriving DecidableEq, Repr

/-- What is fixed while the bodies of a unit are lowered. -/
structure Context where
  config : Config
  table : TypeTable
  declared : Declared
  functions : Functions

/-- The parameters of a function, the latest first. -/
abbrev Scope := List (String × Value)

structure FnContext extends Context where
  scope : Scope

def builtinNames : List String :=
  ["append", "cap", "clear", "close", "complex", "copy", "delete", "imag", "len", "make", "max",
    "min", "new", "panic", "print", "println", "real", "recover"]

def Expr.unsupported (e : Expr) : Unsupported := ⟨e.describe ++ "s", e.span⟩

namespace Lower

def body (id : TypeId) : Lower Ty := typing (Typing.body id)

def ref (id : TypeId) : Lower String := typing (Typing.ref id)

def push (type : TypeId) (operation : Operation) : Lower Value :=
  build (Build.push type operation)

def checkedType (ctx : Context) (m : Mark) : Lower CheckedType :=
  match ctx.table.get? m.id with
  | some t => return t
  | none => throw (.report (.missingType m.span))

def exprType (ctx : Context) (m : Mark) : Lower TypeId := do
  let t ← checkedType ctx m
  typing (Typing.ofChecked ctx.config.wordBits m.span t)

def unsigned (ctx : Context) (m : Mark) : Lower Bool := do
  let t ← checkedType ctx m
  return isUnsigned ctx.declared t

/-- The type of a truth value: the recorded type if it has one bit, and `i1` otherwise. -/
def boolType (ctx : Context) (m : Mark) : Lower TypeId := do
  match ctx.table.get? m.id with
  | none => typing Typing.bool
  | some t =>
    match ← typing (Typing.attempt (Typing.ofChecked ctx.config.wordBits m.span t)) with
    | none => typing Typing.bool
    | some id =>
      if (← body id).isBool then return id
      typing Typing.bool

def expectBool (v : Value) (span : Span) : Lower Unit := do
  if (← body v.type).isBool then return ()
  throw (.report (.nonBoolCondition span))

def expectSameType (lhs rhs : Value) (span : Span) : Lower Unit := do
  if lhs.type = rhs.type then return ()
  throw (.report (.typeMismatch (← ref lhs.type) (← ref rhs.type) span))

end Lower

/-- The constant that a literal denotes at a type, if it denotes one there. An integer becomes the
double nearest to it at a float type; a float without a fractional part becomes an integer at an
integer type. -/
def literalConst? (type : Ty) (kind : LiteralKind) (text : String) : Option Const :=
  match kind with
  | .int => (Literal.integer? text).bind number
  | .char => ((Literal.rune? text).map Int64.ofNat).bind number
  | .float =>
    match Literal.float? text with
    | none => none
    | some x =>
      if type.isFloat then some (.float x)
      else if type.isInt && x.isIntegral then some (.int x.toInt64)
      else none
  | .string => (Literal.string? text).map .str
  | .imaginary => none
where
  number (n : Int64) : Option Const :=
    if type.isInt then some (.int n)
    else if type.isFloat then some (.float (.ofInt n.toInt))
    else none

namespace Lower

def literal (ctx : FnContext) (m : Mark) (kind : LiteralKind) (text : String) : Lower Value := do
  let type ← exprType ctx.toContext m
  if kind = .imaginary then throw (.abort ⟨"imaginary literals", m.span⟩)
  match literalConst? (← body type) kind text with
  | some c => return .ofConst c type
  | none => throw (.report (.invalidLiteral text m.span))

/-- A parameter, a predeclared constant or the name of a function. -/
def name (ctx : FnContext) (m : Mark) (name : String) : Lower Value :=
  match ctx.scope.lookup name with
  | some v => return v
  | none =>
    if name = "true" then do return .ofConst (.bool true) (← exprType ctx.toContext m)
    else if name = "false" then do return .ofConst (.bool false) (← exprType ctx.toContext m)
    else if name = "nil" then do return .ofConst .null (← exprType ctx.toContext m)
    else if (ctx.functions.lookup name).isSome then
      throw (.abort ⟨"function values", m.span⟩)
    else throw (.report (.undefinedName name m.span))

def unary (m : Mark) (op : UnaryOp) (value : Value) : Lower Value := do
  let type := value.type
  let t ← body type
  match op with
  | .plus => return value
  | .neg =>
    if t.isInt then push type (.binary .sub (.ofConst (.int 0) type) value)
    else if t.isFloat then push type (.fneg value)
    else unsupported
  | .not =>
    if t.isBool then push type (.binary .xor value (.ofConst (.bool true) type))
    else unsupported
  | .bitNot =>
    if t.isInt then push type (.binary .xor value (.ofConst (.int (-1)) type))
    else unsupported
  | .addr => unsupported
  | .recv => unsupported
where
  unsupported : Lower Value := do
    let text ← ref value.type
    throw (.abort ⟨"unary `" ++ op.text ++ "` on " ++ text ++ " values", m.span⟩)

def intPredicate? (op : BinaryOp) (isUnsigned : Bool) : Option IntPredicate :=
  match op, isUnsigned with
  | .eq, _ => some .eq
  | .ne, _ => some .ne
  | .lt, false => some .slt
  | .le, false => some .sle
  | .gt, false => some .sgt
  | .ge, false => some .sge
  | .lt, true => some .ult
  | .le, true => some .ule
  | .gt, true => some .ugt
  | .ge, true => some .uge
  | _, _ => none

def floatPredicate? (op : BinaryOp) : Option FloatPredicate :=
  match op with
  | .eq => some .oeq
  | .ne => some .one
  | .lt => some .olt
  | .le => some .ole
  | .gt => some .ogt
  | .ge => some .oge
  | _ => none

def compare (op : BinaryOp) (lhs rhs : Value) (isUnsigned : Bool) (result : TypeId)
    (span : Span) : Lower Value := do
  expectSameType lhs rhs span
  let t ← body lhs.type
  let operation? ←
    if t.isInt then pure ((intPredicate? op isUnsigned).map fun p => .icmp p lhs rhs)
    else if t.isFloat then pure ((floatPredicate? op).map fun p => .fcmp p lhs rhs)
    else do
      let text ← ref lhs.type
      throw (.abort ⟨"comparison of " ++ text ++ " values", span⟩)
  match operation? with
  | some operation => push result operation
  | none => throw (.abort ⟨"`" ++ op.text ++ "` as a comparison", span⟩)

def equal (lhs rhs : Value) (span : Span) : Lower Value := do
  let result ← typing Typing.bool
  compare .eq lhs rhs false result span

def unsupportedBinary {α : Type} (op : BinaryOp) (type : TypeId) (span : Span) : Lower α := do
  let text ← ref type
  throw (.abort ⟨"`" ++ op.text ++ "` on " ++ text ++ " values", span⟩)

/-- The opcode of a shift. A right shift fills with the sign unless the left operand is unsigned. -/
def shiftOpcode (ctx : Context) (op : BinaryOp) (left : Mark) : Lower Opcode :=
  if op = .shl then return .shl
  else do
    let isUnsigned ← unsigned ctx left
    return if isUnsigned then .lshr else .ashr

/-- A shift. The count is brought to the width of what is shifted. -/
def shift (ctx : Context) (op : BinaryOp) (lhs rhs : Value) (left : Mark) (span : Span) :
    Lower Value := do
  let type := lhs.type
  let shifted ← body type
  let counting ← body rhs.type
  match shifted.intBits?, counting.intBits? with
  | some bits, some countBits =>
    let count ←
      if countBits < bits then push type (.cast .zext rhs)
      else if bits < countBits then push type (.cast .trunc rhs)
      else pure rhs
    let opcode ← shiftOpcode ctx op left
    push type (.binary opcode lhs count)
  | _, _ => unsupportedBinary op type span

def intOpcode? (op : BinaryOp) (isUnsigned : Bool) : Option Opcode :=
  match op, isUnsigned with
  | .add, _ => some .add
  | .sub, _ => some .sub
  | .mul, _ => some .mul
  | .div, true => some .udiv
  | .div, false => some .sdiv
  | .rem, true => some .urem
  | .rem, false => some .srem
  | .and, _ => some .and
  | .or, _ => some .or
  | .xor, _ => some .xor
  | _, _ => none

def floatOpcode? (op : BinaryOp) : Option Opcode :=
  match op with
  | .add => some .fadd
  | .sub => some .fsub
  | .mul => some .fmul
  | .div => some .fdiv
  | .rem => some .frem
  | _ => none

/-- Arithmetic on two values of one type. `a &^ b` is `a & (b ^ -1)`. -/
def arithmetic (ctx : Context) (op : BinaryOp) (lhs rhs : Value) (left : Mark) (span : Span) :
    Lower Value := do
  expectSameType lhs rhs span
  let type := lhs.type
  let t ← body type
  if t.isInt then do
    let isUnsigned ← unsigned ctx left
    if op = .andNot then do
      let inverted ← push type (.binary .xor rhs (.ofConst (.int (-1)) type))
      push type (.binary .and lhs inverted)
    else
      match intOpcode? op isUnsigned with
      | some opcode => push type (.binary opcode lhs rhs)
      | none => unsupportedBinary op type span
  else if t.isFloat then
    match floatOpcode? op with
    | some opcode => push type (.binary opcode lhs rhs)
    | none => unsupportedBinary op type span
  else unsupportedBinary op type span

def binary (ctx : Context) (m : Mark) (op : BinaryOp) (left : Mark) (lhs rhs : Value) :
    Lower Value := do
  if op.isComparison then do
    let isUnsigned ← unsigned ctx left
    let result ← boolType ctx m
    compare op lhs rhs isUnsigned result m.span
  else if op = .shl ∨ op = .shr then shift ctx op lhs rhs left m.span
  else arithmetic ctx op lhs rhs left m.span

/-- The name of a called function, if the callee is a name that is no parameter. -/
def calleeName? (scope : Scope) (callee : Expr) : Option String :=
  match callee.unparen with
  | .ident _ name => if (scope.lookup name).isSome then none else some name
  | _ => none

def callee (ctx : FnContext) (m : Mark) (callee : Expr) : Lower (String × Signature) :=
  match calleeName? ctx.scope callee with
  | none => throw (.abort ⟨"indirect calls", callee.span⟩)
  | some name =>
    match ctx.functions.lookup name with
    | some sig => return (name, sig)
    | none =>
      if name ∈ builtinNames then
        throw (.abort ⟨"builtin function `" ++ name ++ "`", callee.span⟩)
      else if (BasicKind.ofName? name).isSome || (ctx.declared.lookup name).isSome then
        throw (.abort ⟨"type conversions", m.span⟩)
      else throw (.report (.undefinedName name callee.span))

def expectParamType (param : TypeId) (v : Value) (span : Span) : Lower Unit := do
  if v.type = param then return ()
  throw (.report (.typeMismatch (← ref param) (← ref v.type) span))

def call (name : String) (sig : Signature) (args : List Value) : Lower Value := do
  if (← body sig.ret).isVoid then build (Build.pushVoid sig.ret (.call name args))
  else push sig.ret (.call name args)

end Lower

/-! ## Expressions -/

namespace Expr

mutual

def lower (ctx : FnContext) : Expr → Lower Value
  | .lit m kind text => Lower.literal ctx m kind text
  | .ident m name => Lower.name ctx m name
  | .paren _ inner => lower ctx inner
  | .unary m op operand => do
    if op = .addr ∨ op = .recv then throw (.abort (Expr.unsupported (.unary m op operand)))
    let value ← lower ctx operand
    Lower.unary m op value
  | .binary m op left right => do
    if op = .logicalAnd ∨ op = .logicalOr then do
      let lhs ← lower ctx left
      Lower.expectBool lhs left.span
      let lhsEnd ← Lower.build Build.ensureOpen
      let rhsBlock ← Lower.build Build.createBlock
      let merge ← Lower.build Build.createBlock
      Lower.build (Build.terminate
        (if op = .logicalAnd then .condBr lhs rhsBlock merge else .condBr lhs merge rhsBlock))
      Lower.build (Build.switchTo rhsBlock)
      let rhs ← Lower.outcome do
        let rhs ← lower ctx right
        Lower.expectBool rhs right.span
        return rhs
      let rhsEnd ← Lower.build Build.ensureOpen
      Lower.build (Build.terminate (.br merge))
      Lower.build (Build.switchTo merge)
      let rhs ← Lower.ofOutcome rhs
      let type ← Lower.boolType ctx.toContext m
      let decided : Value := .ofConst (.bool (op = .logicalOr)) type
      Lower.push type (.phi [(decided, lhsEnd), (rhs, rhsEnd)])
    else do
      let lhs ← lower ctx left
      let rhs ← lower ctx right
      Lower.binary ctx.toContext m op left.mark lhs rhs
  | .call m callee args => do
    let (name, sig) ← Lower.callee ctx m callee
    if args.length ≠ sig.params.length then
      throw (.report (.argumentCount name sig.params.length args.length m.span))
    let values ← lowerArgs ctx args sig.params
    Lower.call name sig values
  | .selector m object field => throw (.abort (Expr.unsupported (.selector m object field)))
  | .index m object place => throw (.abort (Expr.unsupported (.index m object place)))
  | .deref m pointer => throw (.abort (Expr.unsupported (.deref m pointer)))
  | .composite m type elems => throw (.abort (Expr.unsupported (.composite m type elems)))
  | .funcLit m => throw (.abort (Expr.unsupported (.funcLit m)))

def lowerArgs (ctx : FnContext) : List Expr → List TypeId → Lower (List Value)
  | arg :: args, param :: params => do
    let value ← lower ctx arg
    Lower.expectParamType param value arg.span
    let values ← lowerArgs ctx args params
    return value :: values
  | _, _ => return []

end

end Expr

end Midend
