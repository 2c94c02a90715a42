import Midend.Ir.Code
import Midend.Routine

/-!
# Midend.Ir.Builder

Building one function. The cursor is the block that instructions go to. A block is sealed once and
for all: sealing it again, or naming a block that does not exist, breaks the builder's contract. A
step that breaks the contract has no result, so the builder stays as it was.
-/

namespace Midend
namespace Ir

/-- A call that the types and the builder do not allow. -/
inductive Breach where
  | noType (id : TypeId)
  | noBlock (id : BlockId)
  | sealedTwice (id : BlockId)
  | cannotDefine (id : TypeId) (why : DefineError)
  deriving DecidableEq, Repr

def Breach.message : Breach → String
  | .noType id => "type " ++ toString id.index ++ " does not exist"
  | .noBlock id => "block " ++ id.text ++ " does not exist"
  | .sealedTwice id => "block " ++ id.text ++ " sealed twice"
  | .cannotDefine id .missing => "type " ++ toString id.index ++ " does not exist"
  | .cannotDefine id .alreadyDefined => "type " ++ toString id.index ++ " defined twice"
  | .cannotDefine id .anonymous =>
    "anonymous type " ++ toString id.index ++ " cannot be defined"
  | .cannotDefine id .wrongShape =>
    "type " ++ toString id.index ++ " populated with the wrong shape"

structure Builder where
  name : String
  ret : TypeId
  params : List LocalId
  locals : Array Local
  blocks : Array Block
  cursor : BlockId
  deriving DecidableEq, Repr

abbrev Build (α : Type) := StateT Builder (Except Breach) α

namespace Builder

/-- A function with an open entry block and the cursor on it. -/
def start (name : String) (ret : TypeId) : Builder :=
  { name := name
    ret := ret
    params := []
    locals := #[]
    blocks := #[Block.fresh ⟨0⟩]
    cursor := ⟨0⟩ }

def isOpen (b : Builder) (id : BlockId) : Except Breach Bool :=
  match b.blocks[id.index]? with
  | some block => .ok block.isOpen
  | none => .error (.noBlock id)

def cursorIsOpen (b : Builder) : Except Breach Bool := b.isOpen b.cursor

def addLocal (b : Builder) (name : Option String) (type : TypeId) (isParam : Bool) :
    LocalId × Builder :=
  let id : LocalId := ⟨b.locals.size⟩
  (id, { b with locals := b.locals.push ⟨id, name, type, isParam⟩ })

/-- Where a search through the blocks stands. -/
structure Search where
  seen : List BlockId
  /-- The blocks still to be looked at, the next one first. -/
  stack : List BlockId
  deriving DecidableEq, Repr

def ids (b : Builder) : List BlockId := (List.range b.blocks.size).map BlockId.mk

theorem mem_ids {b : Builder} {id : BlockId} {block : Block}
    (h : b.blocks[id.index]? = some block) : id ∈ b.ids := by
  obtain ⟨hlt, _⟩ := Array.getElem?_eq_some_iff.mp h
  exact List.mem_map.mpr ⟨id.index, List.mem_range.mpr hlt, rfl⟩

/-- A round of the search: the next block is the target, or it gives way to its successors unless it
was visited before. A block that does not exist is passed over; a terminator may name one. -/
def searchRound (b : Builder) (target : BlockId) : Search → Bool ⊕ Search
  | ⟨_, []⟩ => .inl false
  | ⟨seen, id :: stack⟩ =>
    if id = target then .inl true
    else
      match b.blocks[id.index]? with
      | none => .inr ⟨seen, stack⟩
      | some block =>
        if id ∈ seen then .inr ⟨seen, stack⟩
        else .inr ⟨id :: seen, block.successors.reverse ++ stack⟩

/-- Every block is visited once at most, and puts two blocks on the stack at most. -/
def searchLeft (b : Builder) (s : Search) : Nat := s.stack.length + 2 * unseen b.ids s.seen

theorem searchRound_descends (b : Builder) (target : BlockId) (s s' : Search)
    (h : b.searchRound target s = .inr s') : b.searchLeft s' < b.searchLeft s := by
  obtain ⟨seen, stack⟩ := s
  cases stack with
  | nil => cases h
  | cons id stack =>
    rw [searchRound] at h
    split at h
    · cases h
    · split at h
      · cases h
        simp [searchLeft]
      · rename_i block hblock
        split at h
        · cases h
          simp [searchLeft]
        · rename_i hnew
          cases h
          have hlt := unseen_cons_lt (mem_ids hblock) hnew
          have hle := block.length_successors
          simp only [searchLeft, List.length_append, List.length_reverse, List.length_cons]
          omega

def search (b : Builder) (target : BlockId) : Routine Search Bool :=
  ⟨b.searchRound target, b.searchLeft, b.searchRound_descends target⟩

/-- Whether control can get from the entry to the block through the terminators set so far. -/
def isReachable (b : Builder) (target : BlockId) : Bool := (b.search target).run ⟨[], [⟨0⟩]⟩

def finish (b : Builder) : Function :=
  { name := b.name
    params := b.params
    ret := b.ret
    locals := b.locals
    blocks := b.blocks }

end Builder

namespace Build

def addParam (name : Option String) (type : TypeId) : Build Value := fun b =>
  let (id, b') := b.addLocal name type true
  .ok (.ofLocal id type, { b' with params := b'.params ++ [id] })

def createBlock : Build BlockId := fun b =>
  let id : BlockId := ⟨b.blocks.size⟩
  .ok (id, { b with blocks := b.blocks.push (Block.fresh id) })

def switchTo (id : BlockId) : Build Unit := fun b => .ok ((), { b with cursor := id })

/-- The cursor, after moving it to a new block if its block is sealed. -/
def ensureOpen : Build BlockId := do
  let b ← get
  if ← b.cursorIsOpen then
    return b.cursor
  else
    let id ← createBlock
    switchTo id
    return id

/-- Add an instruction at the cursor, in a new block if the cursor's is sealed. -/
def append (inst : Inst) : Build Unit := do
  let id ← ensureOpen
  modify fun b =>
    { b with blocks := b.blocks.modify id.index fun block =>
        { block with insts := block.insts ++ [inst] } }

def push (type : TypeId) (operation : Operation) : Build Value := do
  let b ← get
  let (dst, b') := b.addLocal none type false
  set b'
  append ⟨some dst, type, operation⟩
  return .ofLocal dst type

def pushVoid (type : TypeId) (operation : Operation) : Build Value := do
  append ⟨none, type, operation⟩
  return .ofConst .void type

def terminateBlock (id : BlockId) (t : Terminator) : Build Unit := fun b =>
  match b.blocks[id.index]? with
  | none => .error (.noBlock id)
  | some block =>
    if block.isOpen then
      .ok ((), { b with
        blocks := b.blocks.setIfInBounds id.index { block with terminator := some t } })
    else .error (.sealedTwice block.id)

def terminate (t : Terminator) : Build Unit := do
  terminateBlock (← get).cursor t

/-- Seal the block under the cursor if it is open, and say whether it was. -/
def terminateIfOpen (t : Terminator) : Build Bool := do
  if ← (← get).cursorIsOpen then
    terminate t
    return true
  else
    return false

end Build

end Ir
end Midend
