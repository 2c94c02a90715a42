import Midend.Ir.Code
import Midend.Number.FloatText
import Midend.Text.Quoted

/-!
# Midend.Ir.Text

The text of functions and modules. Types are written by reference to the module's store, so a text
exists only where the store has every type that is written.
-/

namespace Midend
namespace Ir

def Const.text : Const → String
  | .void => "void"
  | .null => "null"
  | .bool b => if b then "true" else "false"
  | .int n => toString n.toInt
  | .float x => FloatLayout.constants.text x
  | .str s => "c" ++ Text.quoted s

namespace Function

/-- A local by its name, or by its number if it has no name but `_`. -/
def localText (f : Function) (id : LocalId) : String :=
  match (f.local? id).bind Local.name with
  | some name => if name = "_" then "%" ++ toString id.index else "%" ++ name
  | none => "%" ++ toString id.index

def operandText (f : Function) : Operand → String
  | .local id => f.localText id
  | .const c => c.text

def valueText? (types : TypeStore) (f : Function) (v : Value) : Option String := do
  let type ← types.ref? v.type
  return type ++ " " ++ f.operandText v.operand

def valuesText? (types : TypeStore) (f : Function) (vs : List Value) : Option String := do
  let ts ← vs.mapM (f.valueText? types)
  return String.intercalate ", " ts

/-- Two operands that share a type, which is written once. -/
def pairText? (types : TypeStore) (f : Function) (lhs rhs : Value) : Option String := do
  let left ← f.valueText? types lhs
  return left ++ ", " ++ f.operandText rhs.operand

def incomingText (f : Function) (entry : Value × BlockId) : String :=
  "[ " ++ f.operandText entry.1.operand ++ ", %" ++ entry.2.text ++ " ]"

def operationText? (types : TypeStore) (f : Function) (type : TypeId) : Operation → Option String
  | .binary op lhs rhs => do
    let args ← f.pairText? types lhs rhs
    return op.mnemonic ++ " " ++ args
  | .icmp pred lhs rhs => do
    let args ← f.pairText? types lhs rhs
    return "icmp " ++ pred.mnemonic ++ " " ++ args
  | .fcmp pred lhs rhs => do
    let args ← f.pairText? types lhs rhs
    return "fcmp " ++ pred.mnemonic ++ " " ++ args
  | .fneg value => do
    let arg ← f.valueText? types value
    return "fneg " ++ arg
  | .cast op value => do
    let arg ← f.valueText? types value
    let result ← types.ref? type
    return op.mnemonic ++ " " ++ arg ++ " to " ++ result
  | .call callee args => do
    let result ← types.ref? type
    let args ← f.valuesText? types args
    return "call " ++ result ++ " @" ++ callee ++ "(" ++ args ++ ")"
  | .aggregate fields => do
    let result ← types.ref? type
    let fields ← f.valuesText? types fields
    return "aggregate " ++ result ++ " (" ++ fields ++ ")"
  | .phi incoming => do
    let result ← types.ref? type
    return "phi " ++ result ++ " " ++ String.intercalate ", " (incoming.map f.incomingText)

def instText? (types : TypeStore) (f : Function) (inst : Inst) : Option String := do
  let operation ← f.operationText? types inst.type inst.operation
  match inst.dst with
  | some dst => return "  " ++ f.localText dst ++ " = " ++ operation ++ "\n"
  | none => return "  " ++ operation ++ "\n"

def terminatorText? (types : TypeStore) (f : Function) : Terminator → Option String
  | .br target => some ("br label %" ++ target.text)
  | .condBr cond thenBlock elseBlock => do
    let cond ← f.valueText? types cond
    return "br " ++ cond ++ ", label %" ++ thenBlock.text ++ ", label %" ++ elseBlock.text
  | .ret none => some "ret void"
  | .ret (some value) => do
    let value ← f.valueText? types value
    return "ret " ++ value
  | .unreachable => some "unreachable"

/-- The end of a block; an open block is marked as such. -/
def blockEndText? (types : TypeStore) (f : Function) : Option Terminator → Option String
  | some t => (f.terminatorText? types t).map fun text => "  " ++ text ++ "\n"
  | none => some "  ; open\n"

def blockText? (types : TypeStore) (f : Function) (block : Block) : Option String := do
  let insts ← block.insts.mapM (f.instText? types)
  let last ← f.blockEndText? types block.terminator
  return block.id.text ++ ":\n" ++ String.join insts ++ last

def paramText? (types : TypeStore) (f : Function) (id : LocalId) : Option String :=
  match f.local? id with
  | some l => (types.ref? l.type).map fun type => type ++ " " ++ f.localText id
  | none => some (f.localText id)

def text? (types : TypeStore) (f : Function) : Option String := do
  let ret ← types.ref? f.ret
  let params ← f.params.mapM (f.paramText? types)
  let blocks ← f.blocks.toList.mapM (f.blockText? types)
  return "define " ++ ret ++ " @" ++ f.name ++ "(" ++ String.intercalate ", " params ++
    ") \x7b\n" ++ String.join blocks ++ "\x7d"

end Function

namespace Module

def typeText? (m : Module) (entry : String × TypeId) : Option String :=
  (m.types.definition? entry.2).map fun body => "%" ++ entry.1 ++ " = type " ++ body ++ "\n"

def functionText? (m : Module) (f : Function) : Option String :=
  (f.text? m.types).map fun text => "\n" ++ text ++ "\n"

def text? (m : Module) : Option String := do
  let types ← m.types.named.mapM m.typeText?
  let functions ← m.functions.mapM m.functionText?
  return "; module " ++ m.name ++ "\n" ++ String.join types ++ String.join functions

/-- A type by itself: how other types refer to it, and its body. -/
def listedText? (m : Module) (id : TypeId) : Option String := do
  let ref ← m.types.ref? id
  let body ← m.types.definition? id
  return ref ++ " = type " ++ body ++ "\n"

def typesText? (m : Module) : Option String := do
  let types ← m.types.named.mapM fun entry => m.listedText? entry.2
  return "; module " ++ m.name ++ "\n" ++ String.join types

end Module

end Ir
end Midend
