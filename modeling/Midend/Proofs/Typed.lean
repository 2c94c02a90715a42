import Midend.Lower.Declare
import Midend.Proofs.Build

/-!
# Midend.Proofs.Typed

When code is well typed. `OperationTyped` has one rule for each kind of instruction; types are the
same only if they have the same number in the store. `Builder.Typed` says it of all the code of a
function in the making, its terminators included, and is kept by every step of building.
-/

namespace Midend
namespace Ir

namespace Opcode

def isShift : Opcode → Bool
  | .shl | .lshr | .ashr => true
  | _ => false

def isFloat : Opcode → Bool
  | .fadd | .fsub | .fmul | .fdiv | .frem => true
  | _ => false

end Opcode

namespace TypeStore

def IsInt (s : TypeStore) (id : TypeId) : Prop := ∃ bits, s.body? id = some (.int bits)

def IsFloat (s : TypeStore) (id : TypeId) : Prop := ∃ kind, s.body? id = some (.float kind)

def IsBool (s : TypeStore) (id : TypeId) : Prop := s.body? id = some (.int 1)

/-- A type that only a call without a result has. -/
def IsVoid (s : TypeStore) (id : TypeId) : Prop := s.body? id = some .void

theorem IsInt.le {s t : TypeStore} (h : s ≤ t) {id : TypeId} (hs : s.IsInt id) : t.IsInt id := by
  obtain ⟨bits, hb⟩ := hs
  exact ⟨bits, body?_le h hb⟩

theorem IsFloat.le {s t : TypeStore} (h : s ≤ t) {id : TypeId} (hs : s.IsFloat id) :
    t.IsFloat id := by
  obtain ⟨kind, hb⟩ := hs
  exact ⟨kind, body?_le h hb⟩

theorem IsBool.le {s t : TypeStore} (h : s ≤ t) {id : TypeId} (hs : s.IsBool id) : t.IsBool id :=
  body?_le h hs

theorem IsBool.isInt {s : TypeStore} {id : TypeId} (h : s.IsBool id) : s.IsInt id := ⟨1, h⟩

theorem IsVoid.of_le {s t : TypeStore} (h : s ≤ t) {id : TypeId} (hs : s.Has id)
    (ht : t.IsVoid id) : s.IsVoid id := by
  obtain ⟨body, hb⟩ := hs
  have := body?_le h hb
  rw [ht] at this
  rw [IsVoid, hb, this]

end TypeStore

/-- An `or` of conditions of different types. -/
inductive Operation.Mixed : Operation → Prop where
  | or {lhs rhs : Value} : lhs.type ≠ rhs.type → Mixed (.binary .or lhs rhs)

theorem Operation.Mixed.of_binary {op : Opcode} {lhs rhs : Value}
    (h : Mixed (.binary op lhs rhs)) : op = .or ∧ lhs.type ≠ rhs.type := by
  cases h with
  | or hne => exact ⟨rfl, hne⟩

/-- What an operation must satisfy to have a result of the type. `fns` are the functions that can be
called. -/
inductive OperationTyped (s : TypeStore) (fns : Functions) : Operation → TypeId → Prop where
  | arith {op : Opcode} {lhs rhs : Value} {type : TypeId} :
      op.isShift = false → lhs.type = type → rhs.type = type →
      (if op.isFloat then s.IsFloat type else s.IsInt type) →
      OperationTyped s fns (.binary op lhs rhs) type
  | shift {op : Opcode} {lhs rhs : Value} {type : TypeId} {bits : Nat} :
      op.isShift = true → lhs.type = type → s.body? type = some (.int bits) →
      s.body? rhs.type = some (.int bits) →
      OperationTyped s fns (.binary op lhs rhs) type
  | join {lhs rhs : Value} {type : TypeId} :
      lhs.type ≠ rhs.type → s.IsBool lhs.type → s.IsBool rhs.type → s.IsBool type →
      OperationTyped s fns (.binary .or lhs rhs) type
  | icmp {pred : IntPredicate} {lhs rhs : Value} {type : TypeId} :
      lhs.type = rhs.type → s.IsInt lhs.type → s.IsBool type →
      OperationTyped s fns (.icmp pred lhs rhs) type
  | fcmp {pred : FloatPredicate} {lhs rhs : Value} {type : TypeId} :
      lhs.type = rhs.type → s.IsFloat lhs.type → s.IsBool type →
      OperationTyped s fns (.fcmp pred lhs rhs) type
  | fneg {value : Value} {type : TypeId} :
      value.type = type → s.IsFloat type → OperationTyped s fns (.fneg value) type
  | zext {value : Value} {type : TypeId} {narrow wide : Nat} :
      s.body? value.type = some (.int narrow) → s.body? type = some (.int wide) → narrow < wide →
      OperationTyped s fns (.cast .zext value) type
  | trunc {value : Value} {type : TypeId} {narrow wide : Nat} :
      s.body? value.type = some (.int wide) → s.body? type = some (.int narrow) → narrow < wide →
      OperationTyped s fns (.cast .trunc value) type
  | call {callee : String} {args : List Value} {sig : Signature} :
      fns.lookup callee = some sig → args.map Value.type = sig.params →
      OperationTyped s fns (.call callee args) sig.ret
  | aggregate {fields : List Value} {type : TypeId} :
      s.body? type = some (.struct (fields.map Value.type)) →
      OperationTyped s fns (.aggregate fields) type
  | phi {decided : Bool} {value : Value} {type : TypeId} {before after : BlockId} :
      s.IsBool type → s.IsBool value.type →
      OperationTyped s fns (.phi [(.ofConst (.bool decided) type, before), (value, after)]) type

theorem OperationTyped.le {s t : TypeStore} (h : s ≤ t) {fns : Functions}
    {operation : Operation} {type : TypeId} (hop : OperationTyped s fns operation type) :
    OperationTyped t fns operation type := by
  cases hop with
  | arith hshift hl hr hkind =>
    refine .arith hshift hl hr ?_
    split at hkind
    · rename_i hf; rw [if_pos hf]; exact hkind.le h
    · rename_i hf; rw [if_neg hf]; exact hkind.le h
  | shift hshift hl hb hc =>
    exact .shift hshift hl (TypeStore.body?_le h hb) (TypeStore.body?_le h hc)
  | join hne hl hr ht => exact .join hne (hl.le h) (hr.le h) (ht.le h)
  | icmp hsame hi ht => exact .icmp hsame (hi.le h) (ht.le h)
  | fcmp hsame hf ht => exact .fcmp hsame (hf.le h) (ht.le h)
  | fneg hsame hf => exact .fneg hsame (hf.le h)
  | zext hv ht hlt => exact .zext (TypeStore.body?_le h hv) (TypeStore.body?_le h ht) hlt
  | trunc hv ht hlt => exact .trunc (TypeStore.body?_le h hv) (TypeStore.body?_le h ht) hlt
  | call hf ha => exact .call hf ha
  | aggregate hb => exact .aggregate (TypeStore.body?_le h hb)
  | phi ht hv => exact .phi (ht.le h) (hv.le h)

namespace Builder

/-- A local is recorded with the type of the value; nothing but the constant has the type `void`. -/
structure ValueTyped (s : TypeStore) (b : Builder) (v : Value) : Prop where
  has : s.Has v.type
  recorded : ∀ id, v.operand = .local id → ∃ l, b.local? id = some l ∧ l.type = v.type
  void : s.IsVoid v.type → v.operand = .const .void

/-- An instruction has a result, which is no parameter and is recorded with its type, unless its
type is `void`. -/
structure InstTyped (s : TypeStore) (fns : Functions) (b : Builder) (inst : Inst) :
    Prop where
  operation : OperationTyped s fns inst.operation inst.type
  operands : ∀ v ∈ inst.operation.operands, b.ValueTyped s v
  has : s.Has inst.type
  result : inst.dst = none ↔ s.IsVoid inst.type
  recorded : ∀ id, inst.dst = some id → ∃ l, b.local? id = some l ∧ l.type = inst.type

/-- A condition has one bit, and what is returned is of the return type. -/
def TerminatorTyped (s : TypeStore) (b : Builder) : Terminator → Prop
  | .br _ | .unreachable => True
  | .condBr cond _ _ => s.IsBool cond.type ∧ b.ValueTyped s cond
  | .ret none => s.IsVoid b.ret
  | .ret (some v) => ¬ s.IsVoid b.ret ∧ v.type = b.ret ∧ b.ValueTyped s v

/-- All code so far is well typed, and branches lead to blocks that are there. -/
structure Typed (s : TypeStore) (fns : Functions) (b : Builder) : Prop where
  ret : s.Has b.ret
  insts : ∀ i blk, b.block? i = some blk → ∀ inst ∈ blk.insts, b.InstTyped s fns inst
  terminators : ∀ i blk t, b.block? i = some blk → blk.terminator = some t →
    b.TerminatorTyped s t
  targets : ∀ i j, b.Edge i j → j.index < b.size

variable {s t : TypeStore} {fns : Functions} {b b' : Builder}

theorem ValueTyped.mono {v : Value} (h : b.ValueTyped s v) (hs : s ≤ t) (hb : b.Le b') :
    b'.ValueTyped t v := by
  refine ⟨h.has.le hs, fun id hid => ?_, fun hv => h.void (hv.of_le hs h.has)⟩
  obtain ⟨l, hl, htype⟩ := h.recorded id hid
  exact ⟨l, hb.locals id l hl, htype⟩

theorem InstTyped.mono {inst : Inst} (h : b.InstTyped s fns inst) (hs : s ≤ t)
    (hb : b.Le b') : b'.InstTyped t fns inst := by
  refine ⟨h.operation.le hs, fun v hv => (h.operands v hv).mono hs hb, h.has.le hs, ?_,
    fun id hid => ?_⟩
  · rw [h.result]
    exact ⟨fun hv => TypeStore.body?_le hs hv, fun hv => hv.of_le hs h.has⟩
  · obtain ⟨l, hl, htype⟩ := h.recorded id hid
    exact ⟨l, hb.locals id l hl, htype⟩

theorem TerminatorTyped.mono {term : Terminator} (h : b.TerminatorTyped s term) (hs : s ≤ t)
    (hret : s.Has b.ret) (hb : b.Le b') : b'.TerminatorTyped t term := by
  cases term with
  | br target => trivial
  | unreachable => trivial
  | condBr cond thenBlock elseBlock => exact ⟨h.1.le hs, h.2.mono hs hb⟩
  | ret value =>
    cases value with
    | none =>
      show t.IsVoid b'.ret
      rw [hb.ret]
      exact TypeStore.body?_le hs h
    | some v =>
      refine ⟨?_, ?_, h.2.2.mono hs hb⟩
      · rw [hb.ret]
        exact fun hv => h.1 (hv.of_le hs hret)
      · rw [hb.ret]
        exact h.2.1

namespace Typed

theorem store_le (h : b.Typed s fns) (hs : s ≤ t) : b.Typed t fns :=
  ⟨h.ret.le hs, fun i blk hblk inst hi => (h.insts i blk hblk inst hi).mono hs (Le.refl b),
    fun i blk term hblk ht => (h.terminators i blk term hblk ht).mono hs h.ret (Le.refl b),
    h.targets⟩

theorem moved (h : b.Typed s fns) (i : BlockId) : (b.moved i).Typed s fns :=
  ⟨h.ret, fun j blk hblk inst hi =>
      (h.insts j blk hblk inst hi).mono (TypeStore.le_refl s) (Le.moved b i),
    fun j blk term hblk ht =>
      (h.terminators j blk term hblk ht).mono (TypeStore.le_refl s) h.ret (Le.moved b i),
    h.targets⟩

theorem withLocal (h : b.Typed s fns) (type : TypeId) :
    (b.withLocal type).Typed s fns :=
  ⟨h.ret, fun j blk hblk inst hi =>
      (h.insts j blk hblk inst hi).mono (TypeStore.le_refl s) (Le.withLocal b type),
    fun j blk term hblk ht =>
      (h.terminators j blk term hblk ht).mono (TypeStore.le_refl s) h.ret (Le.withLocal b type),
    h.targets⟩

theorem withBlock (h : b.Typed s fns) : b.withBlock.Typed s fns := by
  have hle := Le.withBlock b
  refine ⟨h.ret, fun i blk hblk inst hi => ?_, fun i blk term hblk ht => ?_, fun i j hedge => ?_⟩
  · rcases block_withBlock_cases hblk with ⟨_, rfl⟩ | hold
    · simp [Block.fresh] at hi
    · exact (h.insts i blk hold inst hi).mono (TypeStore.le_refl s) hle
  · rcases block_withBlock_cases hblk with ⟨_, rfl⟩ | hold
    · simp [Block.fresh] at ht
    · exact (h.terminators i blk term hold ht).mono (TypeStore.le_refl s) h.ret hle
  · obtain ⟨blk, hblk, hj⟩ := hedge
    rcases block_withBlock_cases hblk with ⟨_, rfl⟩ | hold
    · simp [Block.fresh, Block.successors] at hj
    · have := h.targets i j ⟨blk, hold, hj⟩
      rw [size_withBlock]
      omega

theorem emitted (h : b.Typed s fns) (hopen : b.Open b.cursor) {inst : Inst}
    (hinst : b.InstTyped s fns inst) : (b.emitted inst).Typed s fns := by
  have hle := Le.emitted hopen inst
  refine ⟨h.ret, fun i blk hblk inst' hi => ?_, fun i blk term hblk ht => ?_, fun i j hedge => ?_⟩
  · rcases block_emitted_cases hblk with ⟨_, old, hold, rfl⟩ | ⟨_, hold⟩
    · rcases List.mem_append.mp hi with hi | hi
      · exact (h.insts i old hold inst' hi).mono (TypeStore.le_refl s) hle
      · obtain rfl : inst' = inst := by simpa using hi
        exact hinst.mono (TypeStore.le_refl s) hle
    · exact (h.insts i blk hold inst' hi).mono (TypeStore.le_refl s) hle
  · rcases block_emitted_cases hblk with ⟨_, old, hold, rfl⟩ | ⟨_, hold⟩
    · exact (h.terminators i old term hold ht).mono (TypeStore.le_refl s) h.ret hle
    · exact (h.terminators i blk term hold ht).mono (TypeStore.le_refl s) h.ret hle
  · obtain ⟨blk, hblk, hj⟩ := hedge
    rw [size_emitted]
    rcases block_emitted_cases hblk with ⟨_, old, hold, rfl⟩ | ⟨_, hold⟩
    · exact h.targets i j ⟨old, hold, hj⟩
    · exact h.targets i j ⟨blk, hold, hj⟩

theorem closed (h : b.Typed s fns) {i : BlockId} (hopen : b.Open i) {term : Terminator}
    (hterm : b.TerminatorTyped s term) (htargets : ∀ j ∈ term.successors, j.index < b.size) :
    (b.closed i term).Typed s fns := by
  have hle := Le.closed hopen term
  refine ⟨h.ret, fun j blk hblk inst hi => ?_, fun j blk term' hblk ht => ?_, fun j k hedge => ?_⟩
  · rcases block_closed_cases hblk with ⟨_, old, hold, rfl⟩ | ⟨_, hold⟩
    · exact (h.insts j old hold inst hi).mono (TypeStore.le_refl s) hle
    · exact (h.insts j blk hold inst hi).mono (TypeStore.le_refl s) hle
  · rcases block_closed_cases hblk with ⟨_, old, hold, rfl⟩ | ⟨_, hold⟩
    · cases ht
      exact hterm.mono (TypeStore.le_refl s) h.ret hle
    · exact (h.terminators j blk term' hold ht).mono (TypeStore.le_refl s) h.ret hle
  · obtain ⟨blk, hblk, hk⟩ := hedge
    rw [size_closed]
    rcases block_closed_cases hblk with ⟨_, old, hold, rfl⟩ | ⟨_, hold⟩
    · exact htargets k hk
    · exact h.targets j k ⟨blk, hold, hk⟩

theorem pushed (h : b.Typed s fns) (hopen : b.Open b.cursor) {type : TypeId}
    {operation : Operation} (hop : OperationTyped s fns operation type)
    (hoperands : ∀ v ∈ operation.operands, b.ValueTyped s v) (htype : s.Proper type) :
    (b.pushed type operation).Typed s fns := by
  have hle := Le.withLocal b type
  refine (h.withLocal type).emitted hopen ⟨hop,
    fun v hv => (hoperands v hv).mono (TypeStore.le_refl s) hle, htype.has, ?_, fun id hid => ?_⟩
  · obtain ⟨body, hbody, hne⟩ := htype
    have : ¬ s.IsVoid type := fun hv => hne (Option.some.inj (hbody.symm.trans hv))
    simpa using this
  · cases hid
    exact ⟨_, by rw [local?_withLocal, if_pos rfl], rfl⟩

end Typed

theorem ValueTyped.pushed {type : TypeId} {operation : Operation} (htype : s.Proper type) :
    (b.pushed type operation).ValueTyped s (.ofLocal ⟨b.locals.size⟩ type) := by
  refine ⟨htype.has, fun id hid => ?_, fun hv => ?_⟩
  · cases hid
    have hlocal : (b.withLocal type).local? ⟨b.locals.size⟩ =
        some ⟨⟨b.locals.size⟩, none, type, false⟩ := by
      rw [local?_withLocal, if_pos rfl]
    exact ⟨_, hlocal, rfl⟩
  · obtain ⟨body, hbody, hne⟩ := htype
    exact absurd (Option.some.inj (hbody.symm.trans hv)) hne

end Builder

end Ir
end Midend
