import Mathlib.Control.Monad.Basic
import Midend.Proofs.Store

/-!
# Midend.Proofs.Build

What the steps of building a function do to its blocks and locals. A step that keeps the builder's
contract has a result, which is given here as a function of the builder before it.

`Builder.Le` is what all of them have in common: blocks and locals are only added, instructions are
only appended, and a sealed block stays as it is.
-/

namespace Midend
namespace Ir
namespace Builder

def size (b : Builder) : Nat := b.blocks.size

def block? (b : Builder) (i : BlockId) : Option Block := b.blocks[i.index]?

def local? (b : Builder) (id : LocalId) : Option Local := b.locals[id.index]?

/-- The block is there and has no terminator yet. -/
def Open (b : Builder) (i : BlockId) : Prop := ∃ blk, b.block? i = some blk ∧ blk.terminator = none

/-- Control can go from one block to the other through the terminators set so far. -/
def Edge (b : Builder) (i j : BlockId) : Prop := ∃ blk, b.block? i = some blk ∧ j ∈ blk.successors

theorem lt_size {b : Builder} {i : BlockId} {blk : Block} (h : b.block? i = some blk) :
    i.index < b.size := by
  obtain ⟨hlt, _⟩ := Array.getElem?_eq_some_iff.mp h
  exact hlt

theorem block?_of_lt {b : Builder} {i : BlockId} (h : i.index < b.size) :
    ∃ blk, b.block? i = some blk := ⟨_, Array.getElem?_eq_getElem h⟩

theorem Open.lt_size {b : Builder} {i : BlockId} (h : b.Open i) : i.index < b.size := by
  obtain ⟨_, hblk, _⟩ := h
  exact Builder.lt_size hblk

theorem Edge.lt_size {b : Builder} {i j : BlockId} (h : b.Edge i j) : i.index < b.size := by
  obtain ⟨_, hblk, _⟩ := h
  exact Builder.lt_size hblk

theorem index_inj {i j : BlockId} (h : i.index = j.index) : i = j := by
  cases i; cases j; cases h; rfl

def withBlock (b : Builder) : Builder :=
  { b with blocks := b.blocks.push (Block.fresh ⟨b.size⟩) }

def moved (b : Builder) (i : BlockId) : Builder := { b with cursor := i }

def emitted (b : Builder) (inst : Inst) : Builder :=
  { b with blocks := b.blocks.modify b.cursor.index fun blk =>
      { blk with insts := blk.insts ++ [inst] } }

def withLocal (b : Builder) (type : TypeId) : Builder :=
  { b with locals := b.locals.push ⟨⟨b.locals.size⟩, none, type, false⟩ }

def withParam (b : Builder) (name : Option String) (type : TypeId) : Builder :=
  { b with
    locals := b.locals.push ⟨⟨b.locals.size⟩, name, type, true⟩
    params := b.params ++ [⟨b.locals.size⟩] }

def pushed (b : Builder) (type : TypeId) (operation : Operation) : Builder :=
  (b.withLocal type).emitted ⟨some ⟨b.locals.size⟩, type, operation⟩

def closed (b : Builder) (i : BlockId) (t : Terminator) : Builder :=
  { b with blocks := b.blocks.modify i.index fun blk => { blk with terminator := some t } }

@[simp] theorem size_withBlock (b : Builder) : b.withBlock.size = b.size + 1 := by
  simp [withBlock, size]

@[simp] theorem size_moved (b : Builder) (i : BlockId) : (b.moved i).size = b.size := rfl

@[simp] theorem size_emitted (b : Builder) (inst : Inst) : (b.emitted inst).size = b.size := by
  simp [emitted, size]

@[simp] theorem size_withLocal (b : Builder) (type : TypeId) :
    (b.withLocal type).size = b.size := rfl

@[simp] theorem size_closed (b : Builder) (i : BlockId) (t : Terminator) :
    (b.closed i t).size = b.size := by
  simp [closed, size]

theorem block?_withBlock {b : Builder} {j : BlockId} :
    b.withBlock.block? j =
      if j.index = b.size then some (Block.fresh ⟨b.size⟩) else b.block? j :=
  Array.getElem?_push

theorem local_lt {b : Builder} {id : LocalId} {l : Local} (h : b.local? id = some l) :
    id.index < b.locals.size := by
  obtain ⟨hlt, _⟩ := Array.getElem?_eq_some_iff.mp h
  exact hlt

theorem local?_withLocal {b : Builder} {type : TypeId} {id : LocalId} :
    (b.withLocal type).local? id =
      if id.index = b.locals.size then some ⟨⟨b.locals.size⟩, none, type, false⟩
      else b.local? id :=
  Array.getElem?_push

@[simp] theorem block?_moved {b : Builder} {i j : BlockId} :
    (b.moved i).block? j = b.block? j := rfl

@[simp] theorem block?_withLocal {b : Builder} {type : TypeId} {j : BlockId} :
    (b.withLocal type).block? j = b.block? j := rfl

theorem block?_emitted {b : Builder} {inst : Inst} {j : BlockId} :
    (b.emitted inst).block? j =
      if b.cursor = j then
        (b.block? j).map fun blk => { blk with insts := blk.insts ++ [inst] }
      else b.block? j := by
  obtain ⟨j⟩ := j
  have hiff : (b.cursor = ⟨j⟩) ↔ b.cursor.index = j := ⟨fun h => by rw [h], fun h => index_inj h⟩
  simp only [emitted, block?, Array.getElem?_modify, hiff]

theorem block?_closed {b : Builder} {i j : BlockId} {t : Terminator} :
    (b.closed i t).block? j =
      if i = j then (b.block? j).map fun blk => { blk with terminator := some t }
      else b.block? j := by
  obtain ⟨j⟩ := j
  have hiff : (i = ⟨j⟩) ↔ i.index = j := ⟨fun h => by rw [h], fun h => index_inj h⟩
  simp only [closed, block?, Array.getElem?_modify, hiff]

theorem block?_emitted_cursor {b : Builder} (inst : Inst) {blk : Block}
    (h : b.block? b.cursor = some blk) :
    (b.emitted inst).block? b.cursor = some { blk with insts := blk.insts ++ [inst] } := by
  rw [block?_emitted, if_pos rfl, h]
  rfl

theorem block?_closed_self {b : Builder} {i : BlockId} {t : Terminator} {blk : Block}
    (h : b.block? i = some blk) :
    (b.closed i t).block? i = some { blk with terminator := some t } := by
  rw [block?_closed, if_pos rfl, h]
  rfl

/-! The blocks of a builder after a step are those before it, but for one. -/

theorem block_withBlock_cases {b : Builder} {i : BlockId} {blk : Block}
    (h : b.withBlock.block? i = some blk) :
    (i.index = b.size ∧ blk = Block.fresh ⟨b.size⟩) ∨ b.block? i = some blk := by
  rw [block?_withBlock] at h
  split at h
  · rename_i hi
    cases h
    exact .inl ⟨hi, rfl⟩
  · exact .inr h

theorem block_emitted_cases {b : Builder} {inst : Inst} {i : BlockId} {blk : Block}
    (h : (b.emitted inst).block? i = some blk) :
    (b.cursor = i ∧ ∃ old, b.block? i = some old ∧
        blk = { old with insts := old.insts ++ [inst] }) ∨
      (b.cursor ≠ i ∧ b.block? i = some blk) := by
  rw [block?_emitted] at h
  split at h
  · rename_i hi
    obtain ⟨old, hold, rfl⟩ := Option.map_eq_some_iff.mp h
    exact .inl ⟨hi, old, hold, rfl⟩
  · rename_i hi
    exact .inr ⟨hi, h⟩

theorem block_closed_cases {b : Builder} {i j : BlockId} {t : Terminator} {blk : Block}
    (h : (b.closed i t).block? j = some blk) :
    (i = j ∧ ∃ old, b.block? j = some old ∧ blk = { old with terminator := some t }) ∨
      (i ≠ j ∧ b.block? j = some blk) := by
  rw [block?_closed] at h
  split at h
  · rename_i hi
    obtain ⟨old, hold, rfl⟩ := Option.map_eq_some_iff.mp h
    exact .inl ⟨hi, old, hold, rfl⟩
  · rename_i hi
    exact .inr ⟨hi, h⟩

theorem open_withBlock {b : Builder} {j : BlockId} :
    b.withBlock.Open j ↔ j.index = b.size ∨ b.Open j := by
  unfold Open
  rw [block?_withBlock]
  by_cases h : j.index = b.size
  · simp [h, Block.fresh]
  · simp [h]

@[simp] theorem open_moved {b : Builder} {i j : BlockId} : (b.moved i).Open j ↔ b.Open j := Iff.rfl

@[simp] theorem open_withLocal {b : Builder} {type : TypeId} {j : BlockId} :
    (b.withLocal type).Open j ↔ b.Open j := Iff.rfl

@[simp] theorem open_emitted {b : Builder} {inst : Inst} {j : BlockId} :
    (b.emitted inst).Open j ↔ b.Open j := by
  unfold Open
  rw [block?_emitted]
  split
  · cases b.block? j <;> simp
  · rfl

theorem open_closed {b : Builder} {i j : BlockId} {t : Terminator} :
    (b.closed i t).Open j ↔ j ≠ i ∧ b.Open j := by
  unfold Open
  rw [block?_closed]
  by_cases h : i = j
  · subst h
    cases b.block? i <;> simp
  · simp [h, Ne.symm h]

/-- Later in the building of the same function. -/
structure Le (b b' : Builder) : Prop where
  name : b'.name = b.name
  ret : b'.ret = b.ret
  params : b'.params = b.params
  locals : ∀ id l, b.local? id = some l → b'.local? id = some l
  block : ∀ i blk, b.block? i = some blk → ∃ blk', b'.block? i = some blk' ∧
    blk.insts <+: blk'.insts ∧ ∀ t, blk.terminator = some t → blk' = blk

theorem Le.refl (b : Builder) : b.Le b :=
  ⟨rfl, rfl, rfl, fun _ _ h => h, fun _ blk h => ⟨blk, h, List.prefix_refl _, fun _ _ => rfl⟩⟩

theorem Le.trans {b₁ b₂ b₃ : Builder} (h₁ : b₁.Le b₂) (h₂ : b₂.Le b₃) : b₁.Le b₃ := by
  refine ⟨h₂.name.trans h₁.name, h₂.ret.trans h₁.ret, h₂.params.trans h₁.params,
    fun id l h => h₂.locals id l (h₁.locals id l h), fun i blk h => ?_⟩
  obtain ⟨blk₂, hblk₂, hpre₂, hterm₂⟩ := h₁.block i blk h
  obtain ⟨blk₃, hblk₃, hpre₃, hterm₃⟩ := h₂.block i blk₂ hblk₂
  refine ⟨blk₃, hblk₃, hpre₂.trans hpre₃, fun t ht => ?_⟩
  obtain rfl := hterm₂ t ht
  exact hterm₃ t ht

theorem Le.size {b b' : Builder} (h : b.Le b') : b.size ≤ b'.size := by
  rcases Nat.eq_zero_or_pos b.size with h0 | hpos
  · omega
  · have hlast : b.size - 1 < b.size := by omega
    obtain ⟨blk, hblk⟩ := block?_of_lt (i := ⟨b.size - 1⟩) hlast
    obtain ⟨blk', hblk', _⟩ := h.block _ _ hblk
    have hlt : b.size - 1 < b'.size := lt_size hblk'
    omega

theorem Le.locals_size {b b' : Builder} (h : b.Le b') : b.locals.size ≤ b'.locals.size := by
  rcases Nat.lt_or_ge b'.locals.size b.locals.size with hlt | hge
  · have hsome : b.local? ⟨b'.locals.size⟩ = some b.locals[b'.locals.size] :=
      Array.getElem?_eq_getElem hlt
    have := h.locals _ _ hsome
    simp [local?] at this
  · exact hge

theorem Le.sealed {b b' : Builder} (h : b.Le b') {i : BlockId} {blk : Block} {t : Terminator}
    (hblk : b.block? i = some blk) (ht : blk.terminator = some t) : b'.block? i = some blk := by
  obtain ⟨blk', hblk', _, hterm⟩ := h.block i blk hblk
  rw [hblk', hterm t ht]

theorem Le.edge {b b' : Builder} (h : b.Le b') {i j : BlockId} (he : b.Edge i j) : b'.Edge i j := by
  obtain ⟨blk, hblk, hj⟩ := he
  cases ht : blk.terminator with
  | none => simp [Block.successors, ht] at hj
  | some t => exact ⟨blk, h.sealed hblk ht, hj⟩

theorem Le.withBlock (b : Builder) : b.Le b.withBlock := by
  refine ⟨rfl, rfl, rfl, fun _ _ h => h,
    fun i blk h => ⟨blk, ?_, List.prefix_refl _, fun _ _ => rfl⟩⟩
  rw [block?_withBlock, if_neg (Nat.ne_of_lt (lt_size h))]
  exact h

theorem Le.moved (b : Builder) (i : BlockId) : b.Le (b.moved i) :=
  ⟨rfl, rfl, rfl, fun _ _ h => h, fun _ blk h => ⟨blk, h, List.prefix_refl _, fun _ _ => rfl⟩⟩

theorem Le.withLocal (b : Builder) (type : TypeId) : b.Le (b.withLocal type) := by
  refine ⟨rfl, rfl, rfl, fun id l h => ?_,
    fun _ blk h => ⟨blk, h, List.prefix_refl _, fun _ _ => rfl⟩⟩
  rw [local?_withLocal, if_neg (Nat.ne_of_lt (local_lt h))]
  exact h

theorem Le.emitted {b : Builder} (h : b.Open b.cursor) (inst : Inst) : b.Le (b.emitted inst) := by
  refine ⟨rfl, rfl, rfl, fun _ _ h => h, fun i blk hblk => ?_⟩
  rw [block?_emitted]
  by_cases hi : b.cursor = i
  · subst hi
    obtain ⟨blk₀, hblk₀, hnone⟩ := h
    rw [hblk] at hblk₀
    cases hblk₀
    refine ⟨_, by rw [if_pos rfl, hblk]; rfl, List.prefix_append _ _, fun t ht => ?_⟩
    rw [hnone] at ht
    cases ht
  · exact ⟨blk, by rw [if_neg hi, hblk], List.prefix_refl _, fun _ _ => rfl⟩

theorem Le.pushed {b : Builder} (h : b.Open b.cursor) (type : TypeId) (operation : Operation) :
    b.Le (b.pushed type operation) :=
  (Le.withLocal b type).trans (Le.emitted (b := b.withLocal type) h _)

theorem Le.closed {b : Builder} {i : BlockId} (h : b.Open i) (t : Terminator) :
    b.Le (b.closed i t) := by
  refine ⟨rfl, rfl, rfl, fun _ _ h => h, fun j blk hblk => ?_⟩
  rw [block?_closed]
  by_cases hj : i = j
  · subst hj
    obtain ⟨blk₀, hblk₀, hnone⟩ := h
    rw [hblk] at hblk₀
    cases hblk₀
    refine ⟨{ blk with terminator := some t }, by rw [if_pos rfl, hblk]; rfl, List.prefix_refl _,
      fun t' ht => ?_⟩
    rw [hnone] at ht
    cases ht
  · exact ⟨blk, by rw [if_neg hj, hblk], List.prefix_refl _, fun _ _ => rfl⟩

/-! ## Runs -/

theorem isOpen_of_open {b : Builder} {i : BlockId} (h : b.Open i) : b.isOpen i = .ok true := by
  obtain ⟨blk, hblk, hnone⟩ := h
  have hget : b.blocks[i.index]? = some blk := hblk
  simp [isOpen, hget, Block.isOpen, hnone]

theorem isOpen_of_sealed {b : Builder} {i : BlockId} (hi : i.index < b.size) (h : ¬ b.Open i) :
    b.isOpen i = .ok false := by
  obtain ⟨blk, hblk⟩ := block?_of_lt hi
  have hget : b.blocks[i.index]? = some blk := hblk
  cases ht : blk.terminator with
  | none => exact absurd ⟨blk, hblk, ht⟩ h
  | some t => simp [isOpen, hget, Block.isOpen, ht]

end Builder

namespace Build

variable {b : Builder}

theorem ok_bind {α β : Type} (a : α) (f : α → Except Breach β) :
    (Except.ok a : Except Breach α) >>= f = f a := rfl

theorem pure_eq {α : Type} (a : α) : (pure a : Except Breach α) = .ok a := rfl

theorem run_addParam (name : Option String) (type : TypeId) : (addParam name type).run b =
    .ok (.ofLocal ⟨b.locals.size⟩ type, b.withParam name type) := rfl

theorem run_createBlock : createBlock.run b = .ok (⟨b.size⟩, b.withBlock) := rfl

theorem run_switchTo (i : BlockId) : (switchTo i).run b = .ok ((), b.moved i) := rfl

theorem run_cursorIsOpen {o : Bool} (h : b.cursorIsOpen = .ok o) :
    (liftM b.cursorIsOpen : Build Bool).run b = .ok (o, b) := by
  rw [h]
  rfl

theorem run_ensureOpen_of_open (h : b.Open b.cursor) : ensureOpen.run b = .ok (b.cursor, b) := by
  have hopen : b.cursorIsOpen = .ok true := Builder.isOpen_of_open h
  simp [ensureOpen, hopen, ok_bind, pure_eq]

theorem run_ensureOpen_of_sealed (hc : b.cursor.index < b.size) (h : ¬ b.Open b.cursor) :
    ensureOpen.run b = .ok (⟨b.size⟩, b.withBlock.moved ⟨b.size⟩) := by
  have hsealed : b.cursorIsOpen = .ok false := Builder.isOpen_of_sealed hc h
  simp [ensureOpen, hsealed, run_createBlock, run_switchTo, ok_bind]

theorem run_append (h : b.Open b.cursor) (inst : Inst) :
    (append inst).run b = .ok ((), b.emitted inst) := by
  simp [append, run_ensureOpen_of_open h, ok_bind, pure_eq, Builder.emitted]

theorem run_push (h : b.Open b.cursor) (type : TypeId) (operation : Operation) :
    (push type operation).run b = .ok (.ofLocal ⟨b.locals.size⟩ type, b.pushed type operation) := by
  have happend := run_append (b := b.withLocal type) h ⟨some ⟨b.locals.size⟩, type, operation⟩
  simp only [Builder.withLocal] at happend
  simp [push, Builder.addLocal, happend, Builder.pushed, Builder.withLocal]

theorem run_pushVoid (h : b.Open b.cursor) (type : TypeId) (operation : Operation) :
    (pushVoid type operation).run b =
      .ok (.ofConst .void type, b.emitted ⟨none, type, operation⟩) := by
  simp [pushVoid, run_append h ⟨none, type, operation⟩]

theorem run_terminateBlock {i : BlockId} (h : b.Open i) (t : Terminator) :
    (terminateBlock i t).run b = .ok ((), b.closed i t) := by
  obtain ⟨blk, hblk, hnone⟩ := h
  have hget : b.blocks[i.index]? = some blk := hblk
  have hopen : blk.isOpen = true := by simp [Block.isOpen, hnone]
  have hsame : b.blocks.setIfInBounds i.index { blk with terminator := some t } =
      b.blocks.modify i.index fun blk => { blk with terminator := some t } := by
    apply Array.ext_getElem?
    intro j
    rw [Array.getElem?_setIfInBounds, Array.getElem?_modify]
    by_cases hj : i.index = j
    · subst hj
      obtain ⟨hlt, _⟩ := Array.getElem?_eq_some_iff.mp hget
      rw [if_pos rfl, if_pos rfl, if_pos hlt, hget]
      rfl
    · simp [hj]
  simp [terminateBlock, StateT.run, hget, hopen, hsame, Builder.closed]

theorem run_terminate (h : b.Open b.cursor) (t : Terminator) :
    (terminate t).run b = .ok ((), b.closed b.cursor t) := by
  simp [terminate, run_terminateBlock h t, ok_bind, pure_eq]

theorem run_terminateIfOpen_of_open (h : b.Open b.cursor) (t : Terminator) :
    (terminateIfOpen t).run b = .ok (true, b.closed b.cursor t) := by
  have hopen : b.cursorIsOpen = .ok true := Builder.isOpen_of_open h
  simp [terminateIfOpen, hopen, run_terminate h t, ok_bind]

theorem run_terminateIfOpen_of_sealed (hc : b.cursor.index < b.size) (h : ¬ b.Open b.cursor)
    (t : Terminator) : (terminateIfOpen t).run b = .ok (false, b) := by
  have hsealed : b.cursorIsOpen = .ok false := Builder.isOpen_of_sealed hc h
  simp [terminateIfOpen, hsealed, ok_bind, pure_eq]

end Build

/-- The contract of the types was broken, not that of the builder. -/
def Breach.OnTypes : Breach → Prop
  | .noType _ | .cannotDefine _ _ => True
  | .noBlock _ | .sealedTwice _ => False

theorem Builder.isOpen_error {b : Builder} {i : BlockId} {e : Breach} (h : b.isOpen i = .error e) :
    ¬ e.OnTypes := by
  unfold isOpen at h
  split at h
  · cases h
  · cases h
    exact id

namespace Build

/-- On any builder the step breaks the builder's contract, or leaves the return type alone and has a
result with the property. -/
def KeepsRet {α : Type} (m : Build α) (P : α → Prop) : Prop :=
  ∀ b : Builder, (∃ e : Breach, ¬ e.OnTypes ∧ m.run b = .error e) ∨
    ∃ a c, m.run b = .ok (a, c) ∧ c.ret = b.ret ∧ P a

theorem terminateBlock_error {b : Builder} {i : BlockId} (h : ¬ b.Open i) (t : Terminator) :
    ∃ e : Breach, ¬ e.OnTypes ∧ (terminateBlock i t).run b = .error e := by
  cases hget : b.blocks[i.index]? with
  | none => exact ⟨.noBlock i, id, by simp [terminateBlock, StateT.run, hget]⟩
  | some blk =>
    have hsealed : ¬ blk.isOpen = true := fun hopen =>
      h ⟨blk, hget, by simpa [Block.isOpen] using hopen⟩
    exact ⟨.sealedTwice blk.id, id, by simp [terminateBlock, StateT.run, hget, hsealed]⟩

namespace KeepsRet

variable {α β : Type} {P : α → Prop} {Q : β → Prop}

theorem pure {a : α} (h : P a) : KeepsRet (Pure.pure a) P := fun b => .inr ⟨a, b, rfl, rfl, h⟩

theorem bind {m : Build α} {f : α → Build β} (hm : KeepsRet m P)
    (hf : ∀ a, P a → KeepsRet (f a) Q) : KeepsRet (m >>= f) Q := by
  intro b
  rw [StateT.run_bind]
  rcases hm b with ⟨e, hon, he⟩ | ⟨a, c, hrun, hret, hp⟩
  · exact .inl ⟨e, hon, by rw [he]; rfl⟩
  · rw [hrun]
    refine (hf a hp c).imp_right ?_
    rintro ⟨a', c', hrun', hret', hq⟩
    exact ⟨a', c', hrun', hret'.trans hret, hq⟩

theorem get_bind {f : Builder → Build β} (hf : ∀ b, KeepsRet (f b) Q) : KeepsRet (get >>= f) Q :=
  fun b => hf b b

theorem cursorIsOpen_bind {b : Builder} {f : Bool → Build β} (hf : ∀ o, KeepsRet (f o) Q) :
    KeepsRet (liftM b.cursorIsOpen >>= f) Q := by
  refine bind (P := fun _ => True) (fun c => ?_) fun o _ => hf o
  cases h : b.cursorIsOpen with
  | error e => exact .inl ⟨e, Builder.isOpen_error h, rfl⟩
  | ok o => exact .inr ⟨o, c, rfl, rfl, trivial⟩

theorem createBlock : KeepsRet Build.createBlock fun _ => True := fun _ =>
  .inr ⟨_, _, rfl, rfl, trivial⟩

theorem switchTo (i : BlockId) : KeepsRet (Build.switchTo i) fun _ => True := fun _ =>
  .inr ⟨_, _, rfl, rfl, trivial⟩

theorem ensureOpen : KeepsRet Build.ensureOpen fun _ => True :=
  get_bind fun b => cursorIsOpen_bind fun o => by
    cases o with
    | true => exact .pure trivial
    | false => exact createBlock.bind fun i _ => (switchTo i).bind fun _ _ => .pure trivial

theorem append (inst : Inst) : KeepsRet (Build.append inst) fun _ => True :=
  ensureOpen.bind fun _ _ _ => .inr ⟨(), _, rfl, rfl, trivial⟩

theorem push (type : TypeId) (operation : Operation) :
    KeepsRet (Build.push type operation) fun v => ∃ id, v = .ofLocal id type := by
  intro b
  exact ((append ⟨some ⟨b.locals.size⟩, type, operation⟩).bind fun _ _ =>
    .pure ⟨⟨b.locals.size⟩, rfl⟩) (b.withLocal type)

theorem pushVoid (type : TypeId) (operation : Operation) :
    KeepsRet (Build.pushVoid type operation) fun v => v = .ofConst .void type :=
  (append _).bind fun _ _ => .pure rfl

theorem terminateBlock (i : BlockId) (t : Terminator) :
    KeepsRet (Build.terminateBlock i t) fun _ => True := by
  intro b
  by_cases hopen : b.Open i
  · exact .inr ⟨(), _, run_terminateBlock hopen t, rfl, trivial⟩
  · exact .inl (terminateBlock_error hopen t)

theorem terminate (t : Terminator) : KeepsRet (Build.terminate t) fun _ => True :=
  get_bind fun b => terminateBlock b.cursor t

theorem terminateIfOpen (t : Terminator) : KeepsRet (Build.terminateIfOpen t) fun _ => True :=
  get_bind fun b => cursorIsOpen_bind fun o => by
    cases o with
    | true => exact (terminate t).bind fun _ _ => .pure trivial
    | false => exact .pure trivial

end KeepsRet

end Build

end Ir
end Midend
