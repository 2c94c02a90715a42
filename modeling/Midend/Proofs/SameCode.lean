import Midend.Proofs.Link

/-!
# Midend.Proofs.SameCode

Code that is the same in two runs but for the numbers of its types (`Builder.Same`). Every step of
building keeps that up (`Link.sameCode`), as no step looks at the number of a type.
-/

namespace Midend

open Ir Ir.TypeStore

namespace Ir

/-- The values are the same but for the number of their type. -/
abbrev SameOperand (s t : TypeStore) : Value → Value → Prop := SameValue Eq s t

structure Local.Same (s t : TypeStore) (l l' : Local) : Prop where
  id : l.id = l'.id
  name : l.name = l'.name
  type : Alike s t l.type l'.type
  isParam : l.isParam = l'.isParam

structure Inst.Same (s t : TypeStore) (inst inst' : Inst) : Prop where
  dst : inst.dst = inst'.dst
  type : Alike s t inst.type inst'.type
  operation : inst.operation.Matches (SameOperand s t) Eq inst'.operation

structure Block.Same (s t : TypeStore) (blk blk' : Block) : Prop where
  id : blk.id = blk'.id
  insts : List.Forall₂ (Inst.Same s t) blk.insts blk'.insts
  terminator : Option.Rel (Terminator.Matches (SameOperand s t) Eq) blk.terminator blk'.terminator

/-- What is built is the same but for the numbers of types. -/
structure Builder.Same (s t : TypeStore) (b b' : Builder) : Prop where
  name : b.name = b'.name
  ret : Alike s t b.ret b'.ret
  params : b.params = b'.params
  cursor : b.cursor = b'.cursor
  localCount : b.locals.size = b'.locals.size
  locals : ∀ id, Option.Rel (Local.Same s t) (b.local? id) (b'.local? id)
  size : b.size = b'.size
  blocks : ∀ i, Option.Rel (Block.Same s t) (b.block? i) (b'.block? i)

section

variable {s s' t t' : TypeStore}

theorem Operation.Matches.mono {V V' : Value → Value → Prop} {K : BlockId → BlockId → Prop}
    {op op' : Operation} (h : op.Matches V K op') (hv : ∀ v v', V v v' → V' v v') :
    op.Matches V' K op' := by
  cases h with
  | binary op hl hr => exact .binary op (hv _ _ hl) (hv _ _ hr)
  | icmp p hl hr => exact .icmp p (hv _ _ hl) (hv _ _ hr)
  | fcmp p hl hr => exact .fcmp p (hv _ _ hl) (hv _ _ hr)
  | fneg hw => exact .fneg (hv _ _ hw)
  | cast op hw => exact .cast op (hv _ _ hw)
  | call f hvs => exact .call f (hvs.imp hv)
  | aggregate hvs => exact .aggregate (hvs.imp hv)
  | phi hes => exact .phi (hes.imp fun _ _ h => ⟨hv _ _ h.1, h.2⟩)

theorem Terminator.Matches.mono {V V' : Value → Value → Prop} {K : BlockId → BlockId → Prop}
    {e e' : Terminator} (h : e.Matches V K e') (hv : ∀ v v', V v v' → V' v v') :
    e.Matches V' K e' := by
  cases h with
  | br hk => exact .br hk
  | condBr hw hk hj => exact .condBr (hv _ _ hw) hk hj
  | retNone => exact .retNone
  | retSome hw => exact .retSome (hv _ _ hw)
  | unreachable => exact .unreachable

variable (h : ∀ i j, Alike s t i j → Alike s' t' i j)

include h

theorem SameOperand.grow {v v' : Value} (hv : SameOperand s t v v') : SameOperand s' t' v v' :=
  ⟨hv.operand, h _ _ hv.type⟩

theorem Block.Same.grow {blk blk' : Block} (hb : Block.Same s t blk blk') :
    Block.Same s' t' blk blk' where
  id := hb.id
  insts := hb.insts.imp fun _ _ hi =>
    ⟨hi.dst, h _ _ hi.type, hi.operation.mono fun _ _ hv => hv.grow h⟩
  terminator := hb.terminator.imp fun _ _ he => he.mono fun _ _ hv => hv.grow h

theorem Builder.Same.grow {b b' : Builder} (hb : b.Same s t b') : b.Same s' t' b' :=
  { hb with
    ret := h _ _ hb.ret
    locals := fun id => (hb.locals id).imp fun _ _ hl =>
      ⟨hl.id, hl.name, h _ _ hl.type, hl.isParam⟩
    blocks := fun i => (hb.blocks i).imp fun _ _ hblk => hblk.grow h }

end

/-! ## Steps of building -/

namespace Builder

theorem cursor_cases (b : Builder) :
    (∃ e : Breach, ¬ e.OnTypes ∧ b.cursorIsOpen = .error e) ∨ b.Open b.cursor ∨
    (b.cursor.index < b.size ∧ ¬ b.Open b.cursor) := by
  by_cases hopen : b.Open b.cursor
  · exact .inr (.inl hopen)
  · rcases Nat.lt_or_ge b.cursor.index b.size with hlt | hge
    · exact .inr (.inr ⟨hlt, hopen⟩)
    · refine .inl ⟨.noBlock b.cursor, id, ?_⟩
      have hnone : b.blocks[b.cursor.index]? = none := Array.getElem?_eq_none hge
      simp [cursorIsOpen, isOpen, hnone]

namespace Same

variable {s t : TypeStore} {b b' : Builder}

theorem open_of (h : b.Same s t b') {i : BlockId} (hopen : b.Open i) : b'.Open i := by
  obtain ⟨blk, hblk, hnone⟩ := hopen
  obtain ⟨blk', hblk', hsame⟩ := (h.blocks i).some_left hblk
  exact ⟨blk', hblk', hsame.terminator.none_left hnone⟩

theorem sealed_of (h : b.Same s t b') {i : BlockId} (hi : i.index < b.size) (hopen : ¬ b.Open i) :
    i.index < b'.size ∧ ¬ b'.Open i := by
  obtain ⟨blk, hblk⟩ := block?_of_lt hi
  obtain ⟨blk', hblk', hsame⟩ := (h.blocks i).some_left hblk
  refine ⟨lt_size hblk', fun hopen' => ?_⟩
  obtain ⟨_, hblk'', hnone⟩ := hopen'
  rw [hblk'] at hblk''
  cases hblk''
  cases he : blk.terminator with
  | none => exact hopen ⟨blk, hblk, he⟩
  | some e =>
    obtain ⟨e', he', _⟩ := hsame.terminator.some_left he
    rw [hnone] at he'
    cases he'

theorem withBlock (h : b.Same s t b') : b.withBlock.Same s t b'.withBlock :=
  { h with
    size := by rw [size_withBlock, size_withBlock, h.size]
    blocks := fun i => by
      rw [block?_withBlock, block?_withBlock, h.size]
      split
      · exact .some ⟨rfl, .nil, .none⟩
      · exact h.blocks i }

theorem moved (h : b.Same s t b') (i : BlockId) : (b.moved i).Same s t (b'.moved i) :=
  { h with cursor := rfl }

theorem withLocal (h : b.Same s t b') {i j : TypeId} (hij : Alike s t i j) :
    (b.withLocal i).Same s t (b'.withLocal j) :=
  { h with
    localCount := by simp [Builder.withLocal, h.localCount]
    locals := fun id => by
      rw [local?_withLocal, local?_withLocal, h.localCount]
      split
      · exact .some ⟨rfl, rfl, hij, rfl⟩
      · exact h.locals id }

theorem edited (h : b.Same s t b') (i : BlockId) {f f' : Block → Block}
    (hf : ∀ blk blk', Block.Same s t blk blk' → Block.Same s t (f blk) (f' blk')) :
    Builder.Same s t { b with blocks := b.blocks.modify i.index f }
      { b' with blocks := b'.blocks.modify i.index f' } :=
  { h with
    size := by simpa [Builder.size] using h.size
    blocks := fun j => by
      have hblk := h.blocks j
      simp only [Builder.block?, Array.getElem?_modify] at hblk ⊢
      split
      · generalize b.blocks[j.index]? = o at hblk
        generalize b'.blocks[j.index]? = o' at hblk
        cases hblk with
        | none => exact .none
        | some hsame => exact .some (hf _ _ hsame)
      · exact hblk }

theorem closed (h : b.Same s t b') (i : BlockId) {e e' : Terminator}
    (he : e.Matches (SameOperand s t) Eq e') : (b.closed i e).Same s t (b'.closed i e') :=
  h.edited i fun _ _ hsame => ⟨hsame.id, hsame.insts, .some he⟩

end Same

end Builder

namespace Build

theorem Agrees.pure {α β : Type} {B : Builder → Builder → Prop} {a : α} {b : β} {Q : α → β → Prop}
    (hq : Q a b) : Agrees B (Pure.pure a) (Pure.pure b) Q :=
  fun _ _ h => .inr (.inr ⟨_, _, _, _, rfl, rfl, h, hq⟩)

theorem Agrees.bind {α β γ δ : Type} {B : Builder → Builder → Prop} {m : Build α} {m' : Build β}
    {f : α → Build γ} {f' : β → Build δ} {P : α → β → Prop} {Q : γ → δ → Prop}
    (hm : Agrees B m m' P) (hf : ∀ a a', P a a' → Agrees B (f a) (f' a') Q) :
    Agrees B (m >>= f) (m' >>= f') Q := by
  intro b b' h
  simp only [StateT.run_bind]
  obtain ⟨e, hon, he⟩ | ⟨e, hon, he⟩ | ⟨a, c, a', c', hc, hc', hB, hp⟩ := hm b b' h
  · exact .inl ⟨e, hon, by rw [he]; rfl⟩
  · exact .inr (.inl ⟨e, hon, by rw [he]; rfl⟩)
  · rw [hc, hc']
    exact hf a a' hp c c' hB

variable {s t : TypeStore} {b b' : Builder}

theorem modify_same {f f' : Builder → Builder}
    (hf : ∀ b b', Builder.Same s t b b' → (f b).Same s t (f' b')) :
    Agrees (Builder.Same s t) (modify f) (modify f') fun _ _ => True :=
  fun b b' h => .inr (.inr ⟨(), f b, (), f' b', rfl, rfl, hf b b' h, trivial⟩)

theorem createBlock_same : Agrees (Builder.Same s t) createBlock createBlock Eq := by
  intro b b' h
  have hid : (⟨b.size⟩ : BlockId) = ⟨b'.size⟩ := by rw [h.size]
  exact .inr (.inr ⟨_, _, _, _, run_createBlock, run_createBlock, h.withBlock, hid⟩)

theorem switchTo_same {i j : BlockId} (hij : i = j) :
    Agrees (Builder.Same s t) (switchTo i) (switchTo j) fun _ _ => True := by
  subst hij
  exact fun _ _ h => .inr (.inr ⟨_, _, _, _, run_switchTo i, run_switchTo i, h.moved i, trivial⟩)

theorem ensureOpen_same : Agrees (Builder.Same s t) ensureOpen ensureOpen Eq := by
  intro b b' h
  rcases b.cursor_cases with ⟨e, hon, he⟩ | hopen | ⟨hlt, hsealed⟩
  · refine .inl ⟨e, hon, ?_⟩
    simp only [ensureOpen, StateT.run_bind, StateT.run_get, pure_bind, he]
    rfl
  · have hopen' := h.open_of hopen
    rw [h.cursor] at hopen'
    exact .inr (.inr ⟨_, _, _, _, run_ensureOpen_of_open hopen, run_ensureOpen_of_open hopen', h,
      h.cursor⟩)
  · obtain ⟨hlt', hsealed'⟩ := h.sealed_of hlt hsealed
    rw [h.cursor] at hlt' hsealed'
    have hid : (⟨b.size⟩ : BlockId) = ⟨b'.size⟩ := by rw [h.size]
    exact .inr (.inr ⟨_, _, _, _, run_ensureOpen_of_sealed hlt hsealed,
      run_ensureOpen_of_sealed hlt' hsealed', hid ▸ h.withBlock.moved _, hid⟩)

theorem append_same {inst inst' : Inst} (hinst : Inst.Same s t inst inst') :
    Agrees (Builder.Same s t) (append inst) (append inst') fun _ _ => True := by
  refine ensureOpen_same.bind fun i _ hi => modify_same fun b b' h => ?_
  subst hi
  exact h.edited i fun _ _ hsame =>
    ⟨hsame.id, List.rel_append hsame.insts (.cons hinst .nil), hsame.terminator⟩

theorem push_same {i j : TypeId} {op op' : Operation} (hij : Alike s t i j)
    (hop : op.Matches (SameOperand s t) Eq op') :
    Agrees (Builder.Same s t) (push i op) (push j op') (SameOperand s t) := by
  intro b b' h
  have hrest : ∀ dst, Agrees (Builder.Same s t)
      (do append ⟨some dst, i, op⟩; return .ofLocal dst i)
      (do append ⟨some dst, j, op'⟩; return .ofLocal dst j) (SameOperand s t) := by
    intro dst
    have hinst : Inst.Same s t ⟨some dst, i, op⟩ ⟨some dst, j, op'⟩ := ⟨rfl, hij, hop⟩
    exact (append_same hinst).bind fun _ _ _ => .pure ⟨rfl, hij⟩
  have hrun : (push j op').run b' = (do
      append ⟨some ⟨b.locals.size⟩, j, op'⟩
      return Value.ofLocal ⟨b.locals.size⟩ j).run (b'.withLocal j) := by
    rw [h.localCount]
    rfl
  rw [hrun]
  exact hrest ⟨b.locals.size⟩ _ _ (h.withLocal hij)

theorem pushVoid_same {i j : TypeId} {op op' : Operation} (hij : Alike s t i j)
    (hop : op.Matches (SameOperand s t) Eq op') :
    Agrees (Builder.Same s t) (pushVoid i op) (pushVoid j op') (SameOperand s t) := by
  have hinst : Inst.Same s t ⟨none, i, op⟩ ⟨none, j, op'⟩ := ⟨rfl, hij, hop⟩
  exact (append_same hinst).bind fun _ _ _ => .pure ⟨rfl, hij⟩

theorem terminateBlock_same {i j : BlockId} (hij : i = j) {e e' : Terminator}
    (he : e.Matches (SameOperand s t) Eq e') :
    Agrees (Builder.Same s t) (terminateBlock i e) (terminateBlock j e') fun _ _ => True := by
  subst hij
  intro b b' h
  by_cases hopen : b.Open i
  · exact .inr (.inr ⟨(), _, (), _, run_terminateBlock hopen e,
      run_terminateBlock (h.open_of hopen) e', h.closed i he, trivial⟩)
  · exact .inl (terminateBlock_error hopen e)

theorem terminate_same {e e' : Terminator} (he : e.Matches (SameOperand s t) Eq e') :
    Agrees (Builder.Same s t) (terminate e) (terminate e') fun _ _ => True :=
  fun b b' h => terminateBlock_same h.cursor he b b' h

theorem terminateIfOpen_same {e e' : Terminator} (he : e.Matches (SameOperand s t) Eq e') :
    Agrees (Builder.Same s t) (terminateIfOpen e) (terminateIfOpen e') fun _ _ => True := by
  intro b b' h
  rcases b.cursor_cases with ⟨f, hon, hf⟩ | hopen | ⟨hlt, hsealed⟩
  · refine .inl ⟨f, hon, ?_⟩
    simp only [terminateIfOpen, StateT.run_bind, StateT.run_get, pure_bind, hf]
    rfl
  · have hopen' := h.open_of hopen
    rw [h.cursor] at hopen'
    have hclosed := h.closed b.cursor he
    nth_rewrite 2 [h.cursor] at hclosed
    exact .inr (.inr ⟨_, _, _, _, run_terminateIfOpen_of_open hopen e,
      run_terminateIfOpen_of_open hopen' e', hclosed, trivial⟩)
  · obtain ⟨hlt', hsealed'⟩ := h.sealed_of hlt hsealed
    rw [h.cursor] at hlt' hsealed'
    exact .inr (.inr ⟨_, _, _, _, run_terminateIfOpen_of_sealed hlt hsealed e,
      run_terminateIfOpen_of_sealed hlt' hsealed' e', h, trivial⟩)

theorem closeAt_same {i j : BlockId} (hij : i = j) {x x' : Option BlockId} (hx : x = x') :
    Agrees (Builder.Same s t) (closeAt i x) (closeAt j x') fun _ _ => True := by
  subst hx
  cases x with
  | none => exact .pure trivial
  | some last => exact terminateBlock_same rfl (.br hij)

theorem cursorIsOpen_eq (h : b.Same s t b') {o o' : Bool} (ho : b.cursorIsOpen = .ok o)
    (ho' : b'.cursorIsOpen = .ok o') : o = o' := by
  rcases b.cursor_cases with ⟨e, -, he⟩ | hopen | ⟨hlt, hsealed⟩
  · rw [ho] at he
    cases he
  · have hopen' := h.open_of hopen
    rw [h.cursor] at hopen'
    exact Except.ok.inj (ho.symm.trans ((Builder.isOpen_of_open hopen).trans
      ((Builder.isOpen_of_open hopen').symm.trans ho')))
  · obtain ⟨hlt', hsealed'⟩ := h.sealed_of hlt hsealed
    rw [h.cursor] at hlt' hsealed'
    exact Except.ok.inj (ho.symm.trans ((Builder.isOpen_of_sealed hlt hsealed).trans
      ((Builder.isOpen_of_sealed hlt' hsealed').symm.trans ho')))

end Build

end Ir

/-- The code is the same but for the numbers of types. -/
def Link.sameCode : Link where
  operand := Eq
  block := Eq
  ending := Eq
  builder := Builder.Same
  const _ hij := ⟨rfl, hij⟩
  void _ _ h := by rw [h]
  grow h hb := hb.grow h
  ret h := h.ret
  createBlock := Build.createBlock_same
  switchTo := Build.switchTo_same
  ensureOpen := Build.ensureOpen_same
  push := Build.push_same
  pushVoid := Build.pushVoid_same
  terminateBlock hk he := Build.terminateBlock_same hk he
  terminate := Build.terminate_same
  terminateIfOpen := Build.terminateIfOpen_same
  closeAt hk hx := Build.closeAt_same hk hx
  openEnd h ho ho' := by rw [Build.cursorIsOpen_eq h ho ho', h.cursor]

end Midend
