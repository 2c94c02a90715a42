import Midend.Lower.Expr

/-!
# Midend.Lower.Stmt

Lowering of statements to the control-flow graph. A statement begins at the cursor and leaves it on
the block where control goes on afterwards. A block is sealed only while it is open, so a branch
that has returned keeps its terminator. Code after a return goes to a block that nothing leads to.
-/

namespace Midend

open Ir

def Stmt.unsupported (s : Stmt) : Unsupported := ⟨s.describe ++ "s", s.span⟩

namespace Lower

/-- A condition, which must have one bit; nothing if an error was reported. -/
def condition (ctx : FnContext) (e : Expr) : Lower (Option Value) := do
  match ← recover (e.lower ctx) with
  | none => return none
  | some v =>
    match ← recover (expectBool v e.span) with
    | none => return none
    | some () => return some v

/-- The cursor, if control can fall off the end of its block. -/
def openEnd : Lower (Option BlockId) := do
  let b := (← get).builder
  if ← build (liftM b.cursorIsOpen) then return some b.cursor
  return none

/-- Let control go on at a block from all the ends that are open. -/
def joinAt (follow : BlockId) : List (Option BlockId) → Lower Unit
  | [] => return ()
  | none :: rest => joinAt follow rest
  | some last :: rest => do
    build (Build.terminateBlock last (.br follow))
    joinAt follow rest

/-- Go to the body of a clause on a condition, and on to a new block otherwise. -/
def branchOrNext (cond : Value) (clause : BlockId) : Lower Unit := do
  let next ← build Build.createBlock
  let _ ← build Build.ensureOpen
  build (Build.terminate (.condBr cond clause next))
  build (Build.switchTo next)

def testValue (ctx : FnContext) (tag : Value) (clause : BlockId) (e : Expr) : Lower Unit := do
  let _ ← build Build.ensureOpen
  match ← recover (e.lower ctx) with
  | none => return ()
  | some v =>
    match ← recover (equal tag v e.span) with
    | none => return ()
    | some cond => branchOrNext cond clause

def testValues (ctx : FnContext) (tag : Value) (clause : BlockId) : List Expr → Lower Unit
  | [] => return ()
  | e :: rest => do
    testValue ctx tag clause e
    testValues ctx tag clause rest

/-- The disjunction of two conditions, of their type if they share it. -/
def disjunction (lhs rhs : Value) : Lower Value := do
  let type ← if lhs.type = rhs.type then pure lhs.type else typing Typing.bool
  push type (.binary .or lhs rhs)

def anyOf (ctx : FnContext) (before : Option Value) : List Expr → Lower (Option Value)
  | [] => return before
  | e :: rest => do
    match ← condition ctx e with
    | none => anyOf ctx before rest
    | some cond =>
      match before with
      | none => anyOf ctx (some cond) rest
      | some lhs => do
        let both ← disjunction lhs cond
        anyOf ctx (some both) rest

/-- Test a clause of a switch without a tag: it is taken if any of its values holds. -/
def testConditions (ctx : FnContext) (clause : BlockId) (values : List Expr) : Lower Unit := do
  let _ ← build Build.ensureOpen
  match ← anyOf ctx none values with
  | some cond => branchOrNext cond clause
  | none => return ()

/-- Test the clauses in order. A default clause is entered from wherever the tests have come to, so
what is tested after it is never reached. -/
def testClauses (ctx : FnContext) (tag : Option Value) : List (Clause × BlockId) → Lower Unit
  | [] => return ()
  | (clause, entry) :: rest => do
    if clause.isDefault then do
      let _ ← build Build.ensureOpen
      build (Build.terminate (.br entry))
    else
      match tag with
      | some tag => testValues ctx tag entry clause.values
      | none => testConditions ctx entry clause.values
    testClauses ctx tag rest

def createEntries : List Clause → Lower (List BlockId)
  | [] => return []
  | _ :: rest => do
    let entry ← build Build.createBlock
    let entries ← createEntries rest
    return entry :: entries

def results (ctx : FnContext) : List Expr → Lower (Option (List Value))
  | [] => return some []
  | e :: rest => do
    match ← recover (e.lower ctx) with
    | none => return none
    | some v =>
      match ← results ctx rest with
      | none => return none
      | some vs => return some (v :: vs)

def packed (values : List Value) : Lower Value := do
  let type ← typing (Typing.struct (values.map Value.type))
  push type (.aggregate values)

/-- Return one value, which must have the return type. What a call left that returns nothing may be
returned where nothing is to be returned. -/
def returnValue (span : Span) (v : Value) : Lower Unit := do
  let ret := (← get).builder.ret
  if (← body ret).isVoid && v.operand == .const .void then do
    let _ ← build (Build.terminateIfOpen (.ret none))
  else if v.type = ret then do
    let _ ← build (Build.terminateIfOpen (.ret (some v)))
  else do
    report (.typeMismatch (← ref ret) (← ref v.type) span)
    let _ ← build (Build.terminateIfOpen .unreachable)

def returnStmt (ctx : FnContext) (span : Span) (es : List Expr) : Lower Unit := do
  let _ ← build Build.ensureOpen
  match ← results ctx es with
  | none => do
    let _ ← build (Build.terminateIfOpen .unreachable)
  | some [] => do
    let ret := (← get).builder.ret
    if (← body ret).isVoid then do
      let _ ← build (Build.terminateIfOpen (.ret none))
    else throw (.abort ⟨"bare returns with named results", span⟩)
  | some [v] => returnValue span v
  | some vs => do
    let v ← packed vs
    returnValue span v

end Lower

/-! ## Statements -/

namespace Stmt

mutual

def lower (ctx : FnContext) : Stmt → Lower Unit
  | .block _ body => lowerAll ctx body
  | .empty _ => return ()
  | .expr _ e => do
    let _ ← Lower.build Build.ensureOpen
    let _ ← Lower.recover (e.lower ctx)
  | .ifElse _ init cond thenBranch elseBranch => do
    lowerOption ctx init
    let _ ← Lower.build Build.ensureOpen
    match ← Lower.condition ctx cond with
    | none => return ()
    | some cond => do
      -- Its terminator is set last, when both branches exist.
      let condEnd ← Lower.build Build.ensureOpen
      let thenBlock ← Lower.build Build.createBlock
      Lower.build (Build.switchTo thenBlock)
      lower ctx thenBranch
      let thenEnd ← Lower.openEnd
      let other ← lowerElse ctx elseBranch
      let follow ← Lower.build Build.createBlock
      match other with
      | none => do
        Lower.joinAt follow [thenEnd]
        Lower.build (Build.terminateBlock condEnd (.condBr cond thenBlock follow))
      | some (elseBlock, elseEnd) => do
        Lower.joinAt follow [thenEnd, elseEnd]
        Lower.build (Build.terminateBlock condEnd (.condBr cond thenBlock elseBlock))
      Lower.build (Build.switchTo follow)
  | .loop _ init cond post body => do
    let initBlock ← Lower.build Build.createBlock
    let condBlock ← Lower.build Build.createBlock
    let bodyBlock ← Lower.build Build.createBlock
    let postBlock ← Lower.build Build.createBlock
    let follow ← Lower.build Build.createBlock
    let _ ← Lower.build Build.ensureOpen
    Lower.build (Build.terminate (.br initBlock))
    Lower.build (Build.switchTo initBlock)
    lowerOption ctx init
    let _ ← Lower.build (Build.terminateIfOpen (.br condBlock))
    Lower.build (Build.switchTo condBlock)
    let exit ←
      match cond with
      | some cond => Lower.condition ctx cond
      | none => pure none
    -- Without a condition the loop can only be left from its body.
    let _ ← Lower.build (Build.terminateIfOpen
      (match exit with
        | some cond => .condBr cond bodyBlock follow
        | none => .br bodyBlock))
    Lower.build (Build.switchTo bodyBlock)
    lower ctx body
    let _ ← Lower.build (Build.terminateIfOpen (.br postBlock))
    Lower.build (Build.switchTo postBlock)
    lowerOption ctx post
    let _ ← Lower.build (Build.terminateIfOpen (.br condBlock))
    Lower.build (Build.switchTo follow)
  | .switch _ init tag clauses => do
    lowerOption ctx init
    let _ ← Lower.build Build.ensureOpen
    let tag ←
      match tag with
      | some tag => do
        let value ← Lower.recover (tag.lower ctx)
        pure (value.map some)
      | none => pure (some none)
    match tag with
    | none => return ()
    | some tag => do
      let entries ← Lower.createEntries clauses
      Lower.testClauses ctx tag (clauses.zip entries)
      let testsEnd ← Lower.openEnd
      let ends ← lowerClauses ctx clauses entries
      let follow ← Lower.build Build.createBlock
      Lower.joinAt follow (testsEnd :: ends)
      Lower.build (Build.switchTo follow)
  | .ret m results => Lower.returnStmt ctx m.span results
  | .assign m lhs rhs define => throw (.abort (Stmt.unsupported (.assign m lhs rhs define)))
  | .incDec m target inc => throw (.abort (Stmt.unsupported (.incDec m target inc)))
  | .jump m keyword label => throw (.abort (Stmt.unsupported (.jump m keyword label)))
  | .varDecl m names values => throw (.abort (Stmt.unsupported (.varDecl m names values)))
  | .labeled m label body => throw (.abort (Stmt.unsupported (.labeled m label body)))
  | .defer m call => throw (.abort (Stmt.unsupported (.defer m call)))
  | .go m call => throw (.abort (Stmt.unsupported (.go m call)))
  | .range m value body => throw (.abort (Stmt.unsupported (.range m value body)))

def lowerAll (ctx : FnContext) : List Stmt → Lower Unit
  | [] => return ()
  | s :: rest => do
    lower ctx s
    lowerAll ctx rest

def lowerOption (ctx : FnContext) : Option Stmt → Lower Unit
  | none => return ()
  | some s => lower ctx s

/-- An else branch in a block of its own: that block, and the end of the branch if it is open. -/
def lowerElse (ctx : FnContext) : Option Stmt → Lower (Option (BlockId × Option BlockId))
  | none => return none
  | some s => do
    let elseBlock ← Lower.build Build.createBlock
    Lower.build (Build.switchTo elseBlock)
    lower ctx s
    let elseEnd ← Lower.openEnd
    return some (elseBlock, elseEnd)

def lowerClauses (ctx : FnContext) : List Clause → List BlockId → Lower (List (Option BlockId))
  | .mk _ body _ :: clauses, entry :: entries => do
    Lower.build (Build.switchTo entry)
    lowerAll ctx body
    let last ← Lower.openEnd
    let ends ← lowerClauses ctx clauses entries
    return last :: ends
  | _, _ => return []

end

end Stmt

end Midend
