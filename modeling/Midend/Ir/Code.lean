import Midend.Ir.TypeStore
import Midend.Number.Binary64

/-!
# Midend.Ir.Code

Functions as graphs of basic blocks. A block is open until it has a terminator. Locals are assigned
once: they are the parameters and the results of instructions.
-/

namespace Midend
namespace Ir

/-- The number of a block within its function. -/
structure BlockId where
  index : Nat
  deriving DecidableEq, Repr, Inhabited

structure LocalId where
  index : Nat
  deriving DecidableEq, Repr, Inhabited

def BlockId.text (id : BlockId) : String := "bb" ++ toString id.index

inductive Const where
  /-- What a call that returns nothing leaves. -/
  | void
  | null
  | bool (b : Bool)
  | int (n : Int64)
  | float (x : Binary64)
  | str (s : String)
  deriving DecidableEq, Repr

inductive Operand where
  | local (id : LocalId)
  | const (c : Const)
  deriving DecidableEq, Repr

structure Value where
  operand : Operand
  type : TypeId
  deriving DecidableEq, Repr

namespace Value

def ofLocal (id : LocalId) (type : TypeId) : Value := ⟨.local id, type⟩

def ofConst (c : Const) (type : TypeId) : Value := ⟨.const c, type⟩

def local? (v : Value) : Option LocalId :=
  match v.operand with
  | .local id => some id
  | .const _ => none

end Value

inductive Opcode where
  | add
  | sub
  | mul
  | sdiv
  | udiv
  | srem
  | urem
  | and
  | or
  | xor
  | shl
  | lshr
  | ashr
  | fadd
  | fsub
  | fmul
  | fdiv
  | frem
  deriving DecidableEq, Repr

namespace Opcode

def all : List Opcode :=
  [.add, .sub, .mul, .sdiv, .udiv, .srem, .urem, .and, .or, .xor, .shl, .lshr, .ashr, .fadd, .fsub,
    .fmul, .fdiv, .frem]

def mnemonic : Opcode → String
  | .add => "add"
  | .sub => "sub"
  | .mul => "mul"
  | .sdiv => "sdiv"
  | .udiv => "udiv"
  | .srem => "srem"
  | .urem => "urem"
  | .and => "and"
  | .or => "or"
  | .xor => "xor"
  | .shl => "shl"
  | .lshr => "lshr"
  | .ashr => "ashr"
  | .fadd => "fadd"
  | .fsub => "fsub"
  | .fmul => "fmul"
  | .fdiv => "fdiv"
  | .frem => "frem"

end Opcode

inductive IntPredicate where
  | eq
  | ne
  | slt
  | sle
  | sgt
  | sge
  | ult
  | ule
  | ugt
  | uge
  deriving DecidableEq, Repr

namespace IntPredicate

def all : List IntPredicate := [.eq, .ne, .slt, .sle, .sgt, .sge, .ult, .ule, .ugt, .uge]

def mnemonic : IntPredicate → String
  | .eq => "eq"
  | .ne => "ne"
  | .slt => "slt"
  | .sle => "sle"
  | .sgt => "sgt"
  | .sge => "sge"
  | .ult => "ult"
  | .ule => "ule"
  | .ugt => "ugt"
  | .uge => "uge"

end IntPredicate

/-- Ordered predicates: false as soon as an operand is a NaN. -/
inductive FloatPredicate where
  | oeq
  | one
  | olt
  | ole
  | ogt
  | oge
  deriving DecidableEq, Repr

namespace FloatPredicate

def all : List FloatPredicate := [.oeq, .one, .olt, .ole, .ogt, .oge]

def mnemonic : FloatPredicate → String
  | .oeq => "oeq"
  | .one => "one"
  | .olt => "olt"
  | .ole => "ole"
  | .ogt => "ogt"
  | .oge => "oge"

end FloatPredicate

inductive CastOp where
  | trunc
  | zext
  deriving DecidableEq, Repr

namespace CastOp

def all : List CastOp := [.trunc, .zext]

def mnemonic : CastOp → String
  | .trunc => "trunc"
  | .zext => "zext"

end CastOp

inductive Operation where
  | binary (op : Opcode) (lhs rhs : Value)
  | icmp (pred : IntPredicate) (lhs rhs : Value)
  | fcmp (pred : FloatPredicate) (lhs rhs : Value)
  | fneg (value : Value)
  | cast (op : CastOp) (value : Value)
  | call (callee : String) (args : List Value)
  | aggregate (fields : List Value)
  /-- The value that belongs to the block control came from. -/
  | phi (incoming : List (Value × BlockId))
  deriving DecidableEq, Repr

def Operation.operands : Operation → List Value
  | .binary _ lhs rhs => [lhs, rhs]
  | .icmp _ lhs rhs => [lhs, rhs]
  | .fcmp _ lhs rhs => [lhs, rhs]
  | .fneg value => [value]
  | .cast _ value => [value]
  | .call _ args => args
  | .aggregate fields => fields
  | .phi incoming => incoming.map Prod.fst

/-- An instruction with the type of its result. Only a call that returns nothing has no `dst`. -/
structure Inst where
  dst : Option LocalId
  type : TypeId
  operation : Operation
  deriving DecidableEq, Repr

inductive Terminator where
  | br (target : BlockId)
  | condBr (cond : Value) (thenBlock elseBlock : BlockId)
  | ret (value : Option Value)
  | unreachable
  deriving DecidableEq, Repr

def Terminator.successors : Terminator → List BlockId
  | .br target => [target]
  | .condBr _ thenBlock elseBlock => [thenBlock, elseBlock]
  | .ret _ => []
  | .unreachable => []

/-- A basic block. It is open while it has no terminator, and sealed afterwards. -/
structure Block where
  id : BlockId
  insts : List Inst
  terminator : Option Terminator
  deriving DecidableEq, Repr

namespace Block

/-- An open block without instructions. -/
def fresh (id : BlockId) : Block := ⟨id, [], none⟩

def isOpen (b : Block) : Bool := b.terminator.isNone

/-- Where control can go from here; nowhere as long as the block is open. -/
def successors (b : Block) : List BlockId :=
  match b.terminator with
  | some t => t.successors
  | none => []

theorem length_successors (b : Block) : b.successors.length ≤ 2 := by
  unfold successors
  cases b.terminator with
  | none => simp
  | some t => cases t <;> simp [Terminator.successors]

end Block

structure Local where
  id : LocalId
  name : Option String
  type : TypeId
  isParam : Bool
  deriving DecidableEq, Repr

/-- A function. Control enters at its first block. -/
structure Function where
  name : String
  params : List LocalId
  ret : TypeId
  locals : Array Local
  blocks : Array Block
  deriving DecidableEq, Repr

namespace Function

def block? (f : Function) (id : BlockId) : Option Block :=
  match f.blocks[id.index]? with
  | some b => if b.id = id then some b else none
  | none => none

def local? (f : Function) (id : LocalId) : Option Local := f.locals[id.index]?

end Function

structure Module where
  name : String
  types : TypeStore
  functions : List Function
  deriving DecidableEq, Repr

def Module.function? (m : Module) (name : String) : Option Function :=
  m.functions.find? fun f => f.name == name

end Ir
end Midend
