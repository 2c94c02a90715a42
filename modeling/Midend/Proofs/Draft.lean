import Midend.Proofs.Flow
import Midend.Proofs.Typed
import Midend.Proofs.Typing

/-!
# Midend.Proofs.Draft

A function in the making, together with what is true of it at every moment, whatever was reported
and wherever a run ends: its code is well typed, values flow as `Builder.Flow` says, numbers are
right. A `Draft` cannot be built without these facts, so each step of lowering is a function from
drafts to drafts, and what it takes to make the step is its hypothesis.
-/

namespace Midend

open Ir

/-- The state of lowering a body, with the locals that are in sight at the start of each block. -/
structure Draft (ctx : FnContext) extends FnState where
  sight : Builder.Sight
  wf : types.WF
  genuine : ∀ e ∈ errors, e.Genuine
  numbered : builder.Numbered
  typed : builder.Typed types ctx.functions
  flow : builder.Flow sight
  inRange : builder.cursor.index < builder.size
  functions : ∀ name sig, ctx.functions.lookup name = some sig →
    (∀ param ∈ sig.params, types.Proper param) ∧ types.Has sig.ret
  scope : ∀ name v, ctx.scope.lookup name = some v →
    builder.ValueTyped types v ∧ ∃ id, v.operand = .local id ∧ id.index < builder.params.length

namespace Draft

variable {ctx : FnContext} (g : Draft ctx)

abbrev cur : BlockId := g.builder.cursor

abbrev size : Nat := g.builder.size

abbrev Open (i : BlockId) : Prop := g.builder.Open i

abbrev InSight (i : BlockId) (id : LocalId) : Prop := g.builder.InSight g.sight i id

/-- An open block that is not the cursor's. -/
def Waiting (i : BlockId) : Prop := g.Open i ∧ i ≠ g.cur

/-- A value that code at the cursor may read. -/
structure Sees (v : Value) : Prop where
  typed : g.builder.ValueTyped g.types v
  reach : ∀ id, v.operand = .local id → g.InSight g.cur id

theorem Waiting.lt_size {g : Draft ctx} {i : BlockId} (h : g.Waiting i) :
    i.index < g.size := h.1.lt_size

theorem scope_mono {types : TypeStore} {builder : Builder} (ht : g.types ≤ types)
    (hb : g.builder.Le builder) : ∀ name v, ctx.scope.lookup name = some v →
      builder.ValueTyped types v ∧
        ∃ id, v.operand = .local id ∧ id.index < builder.params.length := by
  intro name v h
  obtain ⟨hv, id, hid, hlt⟩ := g.scope name v h
  exact ⟨hv.mono ht hb, id, hid, hb.params ▸ hlt⟩

def grow (types : TypeStore) (hle : g.types ≤ types) (hw : types.WF) : Draft ctx :=
  { g with
    types := types
    wf := hw
    typed := g.typed.store_le hle
    functions := fun name sig h =>
      ⟨fun param hp => ((g.functions name sig h).1 param hp).le hle,
        (g.functions name sig h).2.le hle⟩
    scope := g.scope_mono hle (Builder.Le.refl _) }

def report (e : LowerError) (he : e.Genuine) : Draft ctx :=
  { g with
    errors := g.errors ++ [e]
    genuine := fun e' h => by
      rcases List.mem_append.mp h with h | h
      · exact g.genuine e' h
      · obtain rfl : e' = e := by simpa using h
        exact he }

def addBlock (atStart : LocalId → Prop)
    (hparams : ∀ id, id.index < g.builder.params.length → atStart id) : Draft ctx :=
  { g with
    builder := g.builder.withBlock
    sight := g.sight.with g.size atStart
    numbered := g.numbered.withBlock
    typed := g.typed.withBlock
    flow := g.flow.withBlock g.typed.targets hparams
    inRange := by
      have := g.inRange
      rw [Builder.size_withBlock]
      exact Nat.lt_succ_of_lt this
    scope := g.scope_mono (TypeStore.le_refl _) (Builder.Le.withBlock _) }

def moveTo (i : BlockId) (hi : i.index < g.size) : Draft ctx :=
  { g with
    builder := g.builder.moved i
    numbered := g.numbered.moved i
    typed := g.typed.moved i
    flow := g.flow.moved i
    inRange := hi
    scope := g.scope_mono (TypeStore.le_refl _) (Builder.Le.moved _ i) }

/-- What it takes to seal a block with a terminator: the locals in sight at a target must be in
sight here, and a target must not have a phi. -/
structure Closes (i : BlockId) (t : Terminator) : Prop where
  opened : g.Open i
  typed : g.builder.TerminatorTyped g.types t
  reads : ∀ v ∈ t.operands, ∀ id, v.operand = .local id → g.InSight i id
  targets : ∀ k ∈ t.successors,
    k.index < g.size ∧ (∀ id, g.sight k id → g.InSight i id) ∧ g.builder.PhiFree k

def close (i : BlockId) (t : Terminator) (h : g.Closes i t) : Draft ctx :=
  { g with
    builder := g.builder.closed i t
    numbered := g.numbered.closed i t
    typed := g.typed.closed h.opened h.typed fun k hk => (h.targets k hk).1
    flow := g.flow.closed h.opened h.reads fun k hk => (h.targets k hk).2
    inRange := by
      rw [Builder.size_closed]
      exact g.inRange
    scope := g.scope_mono (TypeStore.le_refl _) (Builder.Le.closed h.opened t) }

/-- What it takes to add an instruction at the cursor. -/
structure Emits (type : TypeId) (operation : Operation) : Prop where
  opened : g.Open g.cur
  typed : OperationTyped g.types ctx.functions operation type
  operands : ∀ v ∈ operation.operands, g.builder.ValueTyped g.types v
  reads : operation.isPhi = false →
    ∀ v ∈ operation.operands, ∀ id, v.operand = .local id → g.InSight g.cur id
  phi : operation.isPhi = true →
    (∀ blk, g.builder.block? g.cur = some blk → blk.insts = []) ∧
      g.builder.PhiFits g.sight g.cur operation

theorem Emits.of_sees {g : Draft ctx} {type : TypeId} {operation : Operation}
    (hopen : g.Open g.cur) (htyped : OperationTyped g.types ctx.functions operation type)
    (hphi : operation.isPhi = false) (hsees : ∀ v ∈ operation.operands, g.Sees v) :
    g.Emits type operation :=
  ⟨hopen, htyped, fun v hv => (hsees v hv).typed, fun _ v hv => (hsees v hv).reach,
    fun h => by rw [hphi] at h; cases h⟩

def push (type : TypeId) (operation : Operation) (h : g.Emits type operation)
    (htype : g.types.Proper type) : Draft ctx :=
  { g with
    builder := g.builder.pushed type operation
    numbered := g.numbered.pushed g.inRange type operation
    typed := g.typed.pushed h.opened h.typed h.operands htype
    flow := (g.flow.withLocal type).emitted h.opened h.reads h.phi
    inRange := by
      rw [Builder.pushed, Builder.size_emitted]
      exact g.inRange
    scope := g.scope_mono (TypeStore.le_refl _) (Builder.Le.pushed h.opened type operation) }

def emit (type : TypeId) (operation : Operation) (h : g.Emits type operation)
    (htype : g.types.IsVoid type) : Draft ctx :=
  { g with
    builder := g.builder.emitted ⟨none, type, operation⟩
    numbered := g.numbered.emitted g.inRange rfl
    typed := g.typed.emitted h.opened
      ⟨h.typed, h.operands, ⟨_, htype⟩, ⟨fun _ => htype, fun _ => rfl⟩, fun id hid => by cases hid⟩
    flow := g.flow.emitted h.opened h.reads h.phi
    inRange := by
      rw [Builder.size_emitted]
      exact g.inRange
    scope := g.scope_mono (TypeStore.le_refl _) (Builder.Le.emitted h.opened _) }

theorem run_report {e : LowerError} (he : e.Genuine) :
    runOn (Lower.report e) g.toFnState = (.ok (), (g.report e he).toFnState) := rfl

theorem run_createBlock {atStart : LocalId → Prop}
    (h : ∀ id, id.index < g.builder.params.length → atStart id) :
    runOn (Lower.build Build.createBlock) g.toFnState =
      (.ok ⟨g.size⟩, (g.addBlock atStart h).toFnState) := rfl

theorem run_switchTo {i : BlockId} (hi : i.index < g.size) :
    runOn (Lower.build (Build.switchTo i)) g.toFnState =
      (.ok (), (g.moveTo i hi).toFnState) := rfl

theorem run_ensureOpen (h : g.Open g.cur) :
    runOn (Lower.build Build.ensureOpen) g.toFnState = (.ok g.cur, g.toFnState) := by
  rw [Lower.runOn_build, Build.run_ensureOpen_of_open h]

theorem newest {atStart : LocalId → Prop}
    {h : ∀ id, id.index < g.builder.params.length → atStart id} :
    g.size < (g.addBlock atStart h).size := by
  show g.builder.size < g.builder.withBlock.size
  rw [Builder.size_withBlock]
  exact Nat.lt_succ_self _

theorem run_ensureOpen_of_sealed (hsealed : ¬ g.Open g.cur) {atStart : LocalId → Prop}
    (h : ∀ id, id.index < g.builder.params.length → atStart id) :
    runOn (Lower.build Build.ensureOpen) g.toFnState =
      (.ok ⟨g.size⟩, ((g.addBlock atStart h).moveTo ⟨g.size⟩ g.newest).toFnState) := by
  rw [Lower.runOn_build, Build.run_ensureOpen_of_sealed g.inRange hsealed]
  rfl

theorem run_terminateBlock {i : BlockId} {t : Terminator} (h : g.Closes i t) :
    runOn (Lower.build (Build.terminateBlock i t)) g.toFnState =
      (.ok (), (g.close i t h).toFnState) := by
  rw [Lower.runOn_build, Build.run_terminateBlock h.opened]
  rfl

theorem run_terminate {t : Terminator} (h : g.Closes g.cur t) :
    runOn (Lower.build (Build.terminate t)) g.toFnState =
      (.ok (), (g.close g.cur t h).toFnState) := by
  rw [Lower.runOn_build, Build.run_terminate h.opened]
  rfl

theorem run_terminateIfOpen {t : Terminator} (h : g.Closes g.cur t) :
    runOn (Lower.build (Build.terminateIfOpen t)) g.toFnState =
      (.ok true, (g.close g.cur t h).toFnState) := by
  rw [Lower.runOn_build, Build.run_terminateIfOpen_of_open h.opened]
  rfl

theorem run_terminateIfOpen_of_sealed (h : ¬ g.Open g.cur) (t : Terminator) :
    runOn (Lower.build (Build.terminateIfOpen t)) g.toFnState = (.ok false, g.toFnState) := by
  rw [Lower.runOn_build, Build.run_terminateIfOpen_of_sealed g.inRange h]

theorem run_push {type : TypeId} {operation : Operation} (h : g.Emits type operation)
    (htype : g.types.Proper type) :
    runOn (Lower.push type operation) g.toFnState =
      (.ok (.ofLocal ⟨g.builder.locals.size⟩ type), (g.push type operation h htype).toFnState) := by
  rw [Lower.push, Lower.runOn_build, Build.run_push h.opened]
  rfl

theorem run_pushVoid {type : TypeId} {operation : Operation} (h : g.Emits type operation)
    (htype : g.types.IsVoid type) :
    runOn (Lower.build (Build.pushVoid type operation)) g.toFnState =
      (.ok (.ofConst .void type), (g.emit type operation h htype).toFnState) := by
  rw [Lower.runOn_build, Build.run_pushVoid h.opened]
  rfl

theorem run_body {id : TypeId} {t : Ty} (h : g.types.body? id = some t) :
    runOn (Lower.body id) g.toFnState = (.ok t, g.toFnState) := by
  rw [Lower.body, Lower.runOn_typing, Typing.runOn_body h]

theorem run_ref {id : TypeId} (h : g.types.Has id) :
    ∃ text, runOn (Lower.ref id) g.toFnState = (.ok text, g.toFnState) := by
  obtain ⟨body, hbody⟩ := h
  obtain ⟨text, htext⟩ := TypeStore.ref?_isSome g.wf hbody
  exact ⟨text, by rw [Lower.ref, Lower.runOn_typing, Typing.runOn_ref htext]⟩

theorem run_openEnd (h : g.Open g.cur) :
    runOn Lower.openEnd g.toFnState = (.ok (some g.cur), g.toFnState) := by
  have hopen : g.builder.cursorIsOpen = .ok true := Builder.isOpen_of_open h
  have hask : runOn (Lower.build (liftM g.builder.cursorIsOpen)) g.toFnState =
      (.ok true, g.toFnState) := by
    rw [Lower.runOn_build, Build.run_cursorIsOpen hopen]
  rw [Lower.openEnd, runOn_bind_ok (runOn_get _), runOn_bind_ok hask]
  rfl

theorem run_openEnd_of_sealed (h : ¬ g.Open g.cur) :
    runOn Lower.openEnd g.toFnState = (.ok none, g.toFnState) := by
  have hsealed : g.builder.cursorIsOpen = .ok false := Builder.isOpen_of_sealed g.inRange h
  have hask : runOn (Lower.build (liftM g.builder.cursorIsOpen)) g.toFnState =
      (.ok false, g.toFnState) := by
    rw [Lower.runOn_build, Build.run_cursorIsOpen hsealed]
  rw [Lower.openEnd, runOn_bind_ok (runOn_get _), runOn_bind_ok hask]
  rfl

end Draft

end Midend
