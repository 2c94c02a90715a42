import Midend.Proofs.Build

/-!
# Midend.Proofs.Machine

A machine that runs a function, one instruction or terminator at a step. What values are, and what
arithmetic, comparisons and casts do with them, is left open (`Interp`). So is what the called
functions do: what a call yields may depend on all the calls made up to it.
-/

namespace Midend
namespace Ir

/-- A call that was made, with the values of its arguments. -/
structure Call (V : Type) where
  callee : String
  args : List V

/-- What code means, over any kind of values. Operations are told the types of their operands. -/
structure Interp (V : Type) where
  const : Const → Ty → V
  binary : Opcode → Ty → V → V → V
  icmp : IntPredicate → Ty → V → V → V
  fcmp : FloatPredicate → Ty → V → V → V
  fneg : Ty → V → V
  /-- A cast, from the first type to the second. -/
  cast : CastOp → Ty → Ty → V → V
  aggregate : List V → V
  /-- Which way a branch on the value goes. -/
  holds : V → Bool
  /-- What the last of the calls made so far yields. -/
  answer : List (Call V) → V

/-- The values of the locals that have one. -/
abbrev Locals (V : Type) := LocalId → Option V

/-- Where a run has come to. -/
structure Point (V : Type) where
  /-- The block that was left last. -/
  prev : Option BlockId
  block : BlockId
  /-- The number of the next instruction of the block. -/
  pc : Nat
  locals : Locals V
  calls : List (Call V)

/-- What a step comes to. -/
inductive Next (V : Type) where
  | to (c : Point V)
  | done (value : Option V) (calls : List (Call V))
  | stuck

structure Machine (V : Type) where
  code : Function
  types : TypeStore
  interp : Interp V

namespace Machine

variable {V : Type} (m : Machine V)

def read (env : Locals V) (v : Value) : Option V :=
  match v.operand with
  | .local id => env id
  | .const c => (m.types.body? v.type).map (m.interp.const c)

/-- The result of an operation that is no call. -/
def compute (prev : Option BlockId) (env : Locals V) (type : TypeId) : Operation → Option V
  | .binary op lhs rhs => do
    let t ← m.types.body? lhs.type
    let x ← m.read env lhs
    let y ← m.read env rhs
    return m.interp.binary op t x y
  | .icmp pred lhs rhs => do
    let t ← m.types.body? lhs.type
    let x ← m.read env lhs
    let y ← m.read env rhs
    return m.interp.icmp pred t x y
  | .fcmp pred lhs rhs => do
    let t ← m.types.body? lhs.type
    let x ← m.read env lhs
    let y ← m.read env rhs
    return m.interp.fcmp pred t x y
  | .fneg value => do
    let t ← m.types.body? value.type
    let x ← m.read env value
    return m.interp.fneg t x
  | .cast op value => do
    let source ← m.types.body? value.type
    let target ← m.types.body? type
    let x ← m.read env value
    return m.interp.cast op source target x
  | .aggregate fields => do
    let xs ← fields.mapM (m.read env)
    return m.interp.aggregate xs
  | .phi incoming => do
    let last ← prev
    let entry ← incoming.find? fun entry => entry.2 = last
    m.read env entry.1
  | .call _ _ => none

/-- The result of an operation, and the calls made afterwards. -/
def perform (c : Point V) (type : TypeId) : Operation → Option (V × List (Call V))
  | .call callee args => do
    let xs ← args.mapM (m.read c.locals)
    let calls := c.calls ++ [⟨callee, xs⟩]
    return (m.interp.answer calls, calls)
  | operation => do
    let x ← m.compute c.prev c.locals type operation
    return (x, c.calls)

def store (env : Locals V) (dst : Option LocalId) (x : V) : Locals V :=
  match dst with
  | some id => fun id' => if id' = id then some x else env id'
  | none => env

def execute (c : Point V) (inst : Inst) : Next V :=
  match m.perform c inst.type inst.operation with
  | some (x, calls) =>
    .to { c with pc := c.pc + 1, locals := store c.locals inst.dst x, calls := calls }
  | none => .stuck

def enter (c : Point V) (target : BlockId) : Point V :=
  { c with prev := some c.block, block := target, pc := 0 }

def leave (c : Point V) : Terminator → Next V
  | .br target => .to (enter c target)
  | .condBr cond thenBlock elseBlock =>
    match m.read c.locals cond with
    | some x => .to (enter c (if m.interp.holds x then thenBlock else elseBlock))
    | none => .stuck
  | .ret none => .done none c.calls
  | .ret (some v) =>
    match m.read c.locals v with
    | some x => .done (some x) c.calls
    | none => .stuck
  | .unreachable => .stuck

def step (c : Point V) : Next V :=
  match m.code.block? c.block with
  | none => .stuck
  | some blk =>
    match blk.insts[c.pc]? with
    | some inst => m.execute c inst
    | none =>
      match blk.terminator with
      | some t => m.leave c t
      | none => .stuck

theorem step_of_inst {c : Point V} {blk : Block} {inst : Inst}
    (hblk : m.code.block? c.block = some blk) (hinst : blk.insts[c.pc]? = some inst) :
    m.step c = m.execute c inst := by
  simp [step, hblk, hinst]

theorem step_of_end {c : Point V} {blk : Block} {t : Terminator}
    (hblk : m.code.block? c.block = some blk) (hend : c.pc = blk.insts.length)
    (ht : blk.terminator = some t) : m.step c = m.leave c t := by
  simp [step, hblk, hend, ht]

/-- The start of a run on the given arguments, after the given calls. -/
def start (args : List V) (calls : List (Call V)) : Point V :=
  { prev := none
    block := ⟨0⟩
    pc := 0
    locals := fun id => (m.code.params.idxOf? id).bind fun i => args[i]?
    calls := calls }

/-! ## Runs -/

/-- A number of steps from one configuration to the other. -/
inductive Steps : Nat → Point V → Point V → Prop where
  | refl {c : Point V} : Steps 0 c c
  | cons {n : Nat} {c c₁ c₂ : Point V} :
      m.step c = .to c₁ → Steps n c₁ c₂ → Steps (n + 1) c c₂

/-- The run comes to its end with the value, when the calls have been made. -/
def Returns (c : Point V) (value : Option V) (calls : List (Call V)) : Prop :=
  ∃ n c', m.Steps n c c' ∧ m.step c' = .done value calls

variable {m}

theorem Steps.single {c c₁ : Point V} (h : m.step c = .to c₁) : m.Steps 1 c c₁ := .cons h .refl

theorem Steps.trans {n k : Nat} {c c₁ c₂ : Point V} (h₁ : m.Steps n c c₁) (h₂ : m.Steps k c₁ c₂) :
    m.Steps (n + k) c c₂ := by
  induction h₁ with
  | refl => rw [Nat.zero_add]; exact h₂
  | @cons n c c₁ _ hstep _ ih =>
    have := Steps.cons hstep (ih h₂)
    rwa [Nat.add_right_comm] at this

theorem Steps.le_of_done {n k : Nat} {c c₁ c₂ : Point V} {value : Option V}
    {calls : List (Call V)} (h₁ : m.Steps n c c₁) (hdone : m.step c₁ = .done value calls)
    (h₂ : m.Steps k c c₂) : k ≤ n ∧ m.Steps (n - k) c₂ c₁ := by
  induction h₂ generalizing n with
  | refl => exact ⟨Nat.zero_le n, h₁⟩
  | @cons k c c' _ hstep _ ih =>
    cases h₁ with
    | refl =>
      rw [hstep] at hdone
      cases hdone
    | @cons n _ c'' _ hstep' hrest =>
      rw [hstep] at hstep'
      cases hstep'
      obtain ⟨hle, hsteps⟩ := ih hrest
      refine ⟨Nat.succ_le_succ hle, ?_⟩
      rwa [Nat.add_sub_add_right]

theorem Returns.of_steps {n : Nat} {c c₁ : Point V} {value : Option V} {calls : List (Call V)}
    (h : m.Steps n c c₁) (hr : m.Returns c₁ value calls) : m.Returns c value calls := by
  obtain ⟨k, c₂, hk, hdone⟩ := hr
  exact ⟨n + k, c₂, h.trans hk, hdone⟩

theorem Returns.unique {c : Point V} {value value' : Option V} {calls calls' : List (Call V)}
    (h : m.Returns c value calls) (h' : m.Returns c value' calls') :
    value = value' ∧ calls = calls' := by
  obtain ⟨n, c₁, hn, hdone⟩ := h
  obtain ⟨k, c₂, hk, hdone'⟩ := h'
  obtain ⟨hle, hback⟩ := hn.le_of_done hdone hk
  obtain ⟨hle', _⟩ := hk.le_of_done hdone' hn
  obtain rfl : n = k := Nat.le_antisymm hle' hle
  rw [Nat.sub_self] at hback
  cases hback
  rw [hdone] at hdone'
  cases hdone'
  exact ⟨rfl, rfl⟩

theorem Returns.not_stuck {c c₁ : Point V} {value : Option V} {calls : List (Call V)}
    (h : m.Returns c value calls) {n : Nat} (hn : m.Steps n c c₁) : m.step c₁ ≠ .stuck := by
  obtain ⟨k, c₂, hk, hdone⟩ := h
  obtain ⟨j, hback⟩ : ∃ j, m.Steps j c₁ c₂ := ⟨_, (hk.le_of_done hdone hn).2⟩
  intro hstuck
  cases hback with
  | refl => rw [hdone] at hstuck; cases hstuck
  | cons hstep _ => rw [hstep] at hstuck; cases hstuck

theorem Steps.split {n k : Nat} {c c₁ c₂ : Point V} (h₁ : m.Steps n c c₁) (h₂ : m.Steps k c c₂)
    (hle : n ≤ k) : m.Steps (k - n) c₁ c₂ := by
  induction h₁ generalizing k with
  | refl => exact h₂
  | @cons n c c' _ hstep _ ih =>
    cases h₂ with
    | refl => omega
    | @cons k _ c'' _ hstep' hrest =>
      rw [hstep] at hstep'
      cases hstep'
      rw [Nat.add_sub_add_right]
      exact ih hrest (Nat.le_of_succ_le_succ hle)

end Machine

end Ir
end Midend
