import Midend.Ir.Builder

/-!
# Midend.Ir.Verify

Structural checks on finished code: every block is sealed, every branch leads to a block, conditions
have one bit, what is returned agrees with the signature, and every named type has been defined.
-/

namespace Midend
namespace Ir

/-- A way in which code is malformed. Types are given by their text. -/
inductive Violation where
  | unsealed (function : String) (block : BlockId)
  | missingTarget (function : String) (block target : BlockId)
  | nonBoolCondition (function : String) (block : BlockId) (actual : String)
  | returnMismatch (function : String) (block : BlockId) (expected actual : String)
  | missingReturnValue (function : String) (block : BlockId) (expected : String)
  | unexpectedReturnValue (function : String) (block : BlockId)
  | pendingType (name : String)
  deriving DecidableEq, Repr

namespace Violation

def place (function : String) (block : BlockId) : String :=
  "function `" ++ function ++ "`: block " ++ block.text

def message : Violation → String
  | .unsealed f b => place f b ++ " has no terminator"
  | .missingTarget f b target => place f b ++ " branches to missing block " ++ target.text
  | .nonBoolCondition f b actual => place f b ++ " branches on `" ++ actual ++ "`, expected `i1`"
  | .returnMismatch f b expected actual =>
    place f b ++ " returns `" ++ actual ++ "`, expected `" ++ expected ++ "`"
  | .missingReturnValue f b expected =>
    place f b ++ " returns nothing, expected `" ++ expected ++ "`"
  | .unexpectedReturnValue f b => place f b ++ " returns a value from a void function"
  | .pendingType name => "type `" ++ name ++ "` was declared but never populated"

end Violation

namespace TypeStore

def body (s : TypeStore) (id : TypeId) : Except Breach Ty :=
  match s.body? id with
  | some t => .ok t
  | none => .error (.noType id)

def ref (s : TypeStore) (id : TypeId) : Except Breach String :=
  match s.ref? id with
  | some text => .ok text
  | none => .error (.noType id)

end TypeStore

namespace Function

def missingTargets (f : Function) (block : BlockId) (t : Terminator) : List Violation :=
  (t.successors.filter fun target => (f.block? target).isNone).map fun target =>
    .missingTarget f.name block target

/-- What is wrong with the values of a terminator: a condition that is not one bit wide, or a return
that does not agree with the function's return type. -/
def operandViolations (types : TypeStore) (f : Function) (block : BlockId) :
    Terminator → Except Breach (List Violation)
  | .condBr cond _ _ => do
    if (← types.body cond.type).isBool then return []
    return [.nonBoolCondition f.name block (← types.ref cond.type)]
  | .ret none => do
    if (← types.body f.ret).isVoid then return []
    return [.missingReturnValue f.name block (← types.ref f.ret)]
  | .ret (some value) => do
    if (← types.body f.ret).isVoid then return [.unexpectedReturnValue f.name block]
    if value.type = f.ret then return []
    return [.returnMismatch f.name block (← types.ref f.ret) (← types.ref value.type)]
  | .br _ => return []
  | .unreachable => return []

def blockViolations (types : TypeStore) (f : Function) (block : Block) :
    Except Breach (List Violation) :=
  match block.terminator with
  | none => .ok [.unsealed f.name block.id]
  | some t => do
    let operands ← f.operandViolations types block.id t
    return f.missingTargets block.id t ++ operands

/-- The violations in block order. -/
def verify (types : TypeStore) (f : Function) : Except Breach (List Violation) := do
  let found ← f.blocks.toList.mapM (f.blockViolations types)
  return found.flatten

end Function

def TypeStore.pendingTypes (s : TypeStore) : List Violation :=
  (s.named.filter fun entry => (s.body? entry.2).any Ty.isPending).map fun entry =>
    .pendingType entry.1

/-- The violations of a module: its types first, then its functions in order. -/
def Module.verify (m : Module) : Except Breach (List Violation) := do
  let found ← m.functions.mapM (Function.verify m.types)
  return m.types.pendingTypes ++ found.flatten

end Ir
end Midend
