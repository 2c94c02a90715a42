import Mathlib.Data.List.Nodup
import Midend.Proofs.Build

/-!
# Midend.Proofs.Flow

How values flow through a function in the making. `Builder.Flow` goes by a certificate: for each
block the locals that are in sight at its start, whichever way control came there. What is in sight
at the start of a block must be in sight at the end of each block that leads to it, and code may
only read what is in sight. The certificate of a block is fixed when the block is made, so that
edges which are set later cannot take back what was promised.

`Builder.Numbered` is about the numbers of blocks and locals.
-/

namespace Midend
namespace Ir

def Operation.isPhi : Operation → Bool
  | .phi _ => true
  | _ => false

def Terminator.operands : Terminator → List Value
  | .br _ | .unreachable | .ret none => []
  | .condBr cond _ _ => [cond]
  | .ret (some v) => [v]

def defs (insts : List Inst) : List LocalId := insts.filterMap Inst.dst

theorem defs_append (a c : List Inst) : defs (a ++ c) = defs a ++ defs c :=
  List.filterMap_append

theorem mem_defs_of_prefix {a c : List Inst} (h : a <+: c) {id : LocalId} (hid : id ∈ defs a) :
    id ∈ defs c := by
  obtain ⟨d, rfl⟩ := h
  rw [defs_append]
  exact List.mem_append_left _ hid

theorem length_filter_dst (insts : List Inst) (id : LocalId) :
    (insts.filter fun inst => inst.dst = some id).length = (defs insts).count id := by
  induction insts with
  | nil => rfl
  | cons inst rest ih =>
    have hdefs : defs (inst :: rest) = defs [inst] ++ defs rest := defs_append [inst] rest
    rw [hdefs, List.count_append, ← ih]
    cases hdst : inst.dst with
    | none => simp [defs, hdst]
    | some id' =>
      by_cases heq : id' = id
      · subst heq
        simp [defs, hdst]
        omega
      · simp [defs, hdst, heq]

def Function.insts (f : Function) : List Inst := f.blocks.toList.flatMap Block.insts

namespace Builder

/-- Blocks carry their own numbers. -/
def OwnIds (b : Builder) : Prop := ∀ i blk, b.block? i = some blk → blk.id = i

namespace OwnIds

variable {b : Builder}

theorem withBlock (h : b.OwnIds) : b.withBlock.OwnIds := by
  intro i blk hblk
  rcases block_withBlock_cases hblk with ⟨hi, rfl⟩ | hold
  · exact index_inj hi.symm
  · exact h i blk hold

theorem closed (h : b.OwnIds) (i : BlockId) (t : Terminator) : (b.closed i t).OwnIds := by
  intro j blk hblk
  rcases block_closed_cases hblk with ⟨_, old, hold, rfl⟩ | ⟨_, hold⟩
  · exact h j old hold
  · exact h j blk hold

theorem emitted (h : b.OwnIds) (inst : Inst) : (b.emitted inst).OwnIds := by
  intro i blk hblk
  rcases block_emitted_cases hblk with ⟨_, old, hold, rfl⟩ | ⟨_, hold⟩
  · exact h i old hold
  · exact h i blk hold

end OwnIds

def defined (b : Builder) : List LocalId := b.blocks.toList.flatMap fun blk => defs blk.insts

theorem mem_insts {b : Builder} {inst : Inst} (h : inst ∈ b.finish.insts) :
    ∃ i blk, b.block? i = some blk ∧ inst ∈ blk.insts := by
  obtain ⟨blk, hblk, hinst⟩ := List.mem_flatMap.mp h
  obtain ⟨n, hn⟩ := List.mem_iff_getElem?.mp hblk
  exact ⟨⟨n⟩, blk, Array.getElem?_toList.symm.trans hn, hinst⟩

theorem defined_eq (b : Builder) : b.defined = defs b.finish.insts := by
  show b.blocks.toList.flatMap (fun blk => blk.insts.filterMap Inst.dst) =
    (b.blocks.toList.flatMap Block.insts).filterMap Inst.dst
  rw [List.filterMap_flatMap]

theorem exists_only {b : Builder} (hnodup : b.defined.Nodup) {id : LocalId} (hid : id ∈ b.defined) :
    ∃ inst, b.finish.insts.filter (fun inst => inst.dst = some id) = [inst] := by
  have hcount := List.count_eq_one_of_mem hnodup hid
  rw [defined_eq] at hcount
  rw [← length_filter_dst] at hcount
  exact List.length_eq_one_iff.mp hcount

/-- Blocks and locals carry their own numbers. The first locals are the parameters, and each of the
others is the result of one instruction. -/
structure Numbered (b : Builder) : Prop where
  blockId : ∀ i blk, b.block? i = some blk → blk.id = i
  localId : ∀ id l, b.local? id = some l →
    l.id = id ∧ (l.isParam = true ↔ id.index < b.params.length)
  params : b.params = (List.range b.params.length).map LocalId.mk
  enough : b.params.length ≤ b.locals.size
  results : b.defined.Perm
    ((List.range' b.params.length (b.locals.size - b.params.length)).map LocalId.mk)

theorem defined_withBlock (b : Builder) : b.withBlock.defined = b.defined := by
  simp [defined, withBlock, Block.fresh, defs]

theorem defined_closed (b : Builder) (i : BlockId) (t : Terminator) :
    (b.closed i t).defined = b.defined := by
  simp only [defined, closed, Array.toList_modify]
  rcases Nat.lt_or_ge i.index b.blocks.toList.length with hlt | hge
  · obtain ⟨pre, blk, post, hl, _, hm⟩ := List.exists_of_modify
      (fun blk : Block => { blk with terminator := some t }) hlt
    rw [hm, hl]
    simp
  · rw [List.modify_eq_self hge]

theorem defined_emitted {b : Builder} (hc : b.cursor.index < b.size) (inst : Inst) :
    (b.emitted inst).defined.Perm (b.defined ++ defs [inst]) := by
  simp only [defined, emitted, Array.toList_modify]
  obtain ⟨pre, blk, post, hl, _, hm⟩ := List.exists_of_modify (l := b.blocks.toList)
    (fun blk : Block => { blk with insts := blk.insts ++ [inst] }) (by simpa [size] using hc)
  rw [hm, hl]
  simp only [List.flatMap_append, List.flatMap_cons, defs_append, List.append_assoc]
  refine List.Perm.append_left _ (List.Perm.append_left _ ?_)
  exact List.perm_append_comm

namespace Numbered

variable {b : Builder}

theorem ownIds (h : b.Numbered) : b.OwnIds := h.blockId

theorem withBlock (h : b.Numbered) : b.withBlock.Numbered := by
  refine ⟨h.ownIds.withBlock, h.localId, h.params, h.enough, ?_⟩
  rw [defined_withBlock]
  exact h.results

theorem moved (h : b.Numbered) (i : BlockId) : (b.moved i).Numbered :=
  ⟨h.blockId, h.localId, h.params, h.enough, h.results⟩

theorem closed (h : b.Numbered) (i : BlockId) (t : Terminator) : (b.closed i t).Numbered := by
  refine ⟨h.ownIds.closed i t, h.localId, h.params, h.enough, ?_⟩
  rw [defined_closed]
  exact h.results

theorem emitted (h : b.Numbered) (hc : b.cursor.index < b.size) {inst : Inst}
    (hdst : inst.dst = none) : (b.emitted inst).Numbered := by
  refine ⟨h.ownIds.emitted inst, h.localId, h.params, h.enough, ?_⟩
  have hperm := defined_emitted hc inst
  have hnone : defs [inst] = [] := by simp [defs, hdst]
  rw [hnone, List.append_nil] at hperm
  exact hperm.trans h.results

theorem pushed (h : b.Numbered) (hc : b.cursor.index < b.size) (type : TypeId)
    (operation : Operation) : (b.pushed type operation).Numbered := by
  have henough : b.params.length ≤ b.locals.size := h.enough
  have hsize : (b.withLocal type).locals.size = b.locals.size + 1 := by simp [withLocal]
  refine ⟨(h.ownIds : (b.withLocal type).OwnIds).emitted _, fun id l hl => ?_, h.params, ?_, ?_⟩
  · have hl' : (b.withLocal type).local? id = some l := hl
    rw [local?_withLocal] at hl'
    split at hl'
    · rename_i hid
      cases hl'
      refine ⟨by cases id; cases hid; rfl, ?_⟩
      show false = true ↔ id.index < b.params.length
      simp
      omega
    · exact h.localId id l hl'
  · show b.params.length ≤ (b.withLocal type).locals.size
    omega
  · show (b.pushed type operation).defined.Perm ((List.range' b.params.length
      ((b.withLocal type).locals.size - b.params.length)).map LocalId.mk)
    have hperm := defined_emitted (b := b.withLocal type) hc
      ⟨some ⟨b.locals.size⟩, type, operation⟩
    have hcount : b.locals.size + 1 - b.params.length =
        b.locals.size - b.params.length + 1 := by omega
    have hlast : b.params.length + (b.locals.size - b.params.length) = b.locals.size := by omega
    rw [hsize, hcount, List.range'_1_concat, List.map_append, hlast]
    exact hperm.trans (h.results.append_right _)

end Numbered

/-! ## What is in sight -/

/-- The locals that are in sight at the start of each block. -/
abbrev Sight := BlockId → LocalId → Prop

/-- The local is in sight at the start of the block, or the block defines it. -/
def InSight (b : Builder) (sight : Sight) (i : BlockId) (id : LocalId) : Prop :=
  sight i id ∨ ∃ blk, b.block? i = some blk ∧ id ∈ defs blk.insts

def PhiFree (b : Builder) (i : BlockId) : Prop :=
  ∀ blk, b.block? i = some blk → ∀ inst ∈ blk.insts, inst.operation.isPhi = false

/-- A phi has one entry for each block that leads to its own, whose value is in sight there. -/
def PhiFits (b : Builder) (sight : Sight) (i : BlockId) (operation : Operation) : Prop :=
  ∀ incoming, operation = .phi incoming →
    (incoming.map Prod.snd).Nodup ∧ (∀ j, j ∈ incoming.map Prod.snd ↔ b.Edge j i) ∧
      ∀ v j, (v, j) ∈ incoming → ∀ id, v.operand = .local id → b.InSight sight j id

structure Flow (b : Builder) (sight : Sight) : Prop where
  params : ∀ i id, id.index < b.params.length → sight i id
  uses : ∀ i blk before inst, b.block? i = some blk → before ++ [inst] <+: blk.insts →
    inst.operation.isPhi = false → ∀ v ∈ inst.operation.operands, ∀ id, v.operand = .local id →
      sight i id ∨ id ∈ defs before
  ends : ∀ i blk t, b.block? i = some blk → blk.terminator = some t →
    ∀ v ∈ t.operands, ∀ id, v.operand = .local id → b.InSight sight i id
  edges : ∀ i j, b.Edge i j → ∀ id, sight j id → b.InSight sight i id
  phis : ∀ i blk before inst, b.block? i = some blk → before ++ [inst] <+: blk.insts →
    inst.operation.isPhi = true → before = [] ∧ b.PhiFits sight i inst.operation

def Sight.with (sight : Sight) (n : Nat) (atStart : LocalId → Prop) : Sight :=
  fun i id => if i.index = n then atStart id else sight i id

variable {b b' : Builder} {sight sight' : Sight}

theorem InSight.mono {i : BlockId} {id : LocalId} (h : b.InSight sight i id) (hb : b.Le b')
    (hs : sight i id → sight' i id) : b'.InSight sight' i id := by
  rcases h with h | ⟨blk, hblk, hid⟩
  · exact .inl (hs h)
  · obtain ⟨blk', hblk', hpre, _⟩ := hb.block i blk hblk
    exact .inr ⟨blk', hblk', mem_defs_of_prefix hpre hid⟩

theorem PhiFits.mono {i : BlockId} {operation : Operation} (h : b.PhiFits sight i operation)
    (hedges : ∀ j, b'.Edge j i ↔ b.Edge j i)
    (hs : ∀ j id, b.Edge j i → b.InSight sight j id → b'.InSight sight' j id) :
    b'.PhiFits sight' i operation := by
  intro incoming hop
  obtain ⟨hnodup, hpreds, hvalues⟩ := h incoming hop
  refine ⟨hnodup, fun j => (hpreds j).trans (hedges j).symm, fun v j hvj id hid => ?_⟩
  have hj : b.Edge j i := (hpreds j).mp (List.mem_map_of_mem (f := Prod.snd) hvj)
  exact hs j id hj (hvalues v j hvj id hid)

theorem edge_withBlock {i j : BlockId} : b.withBlock.Edge i j ↔ b.Edge i j := by
  unfold Edge
  rw [block?_withBlock]
  by_cases h : i.index = b.size
  · have hnone : b.block? i = none := by
      cases hblk : b.block? i with
      | none => rfl
      | some blk => exact absurd h (Nat.ne_of_lt (lt_size hblk))
    simp [h, hnone, Block.fresh, Block.successors]
  · simp [h]

theorem edge_emitted {inst : Inst} {i j : BlockId} : (b.emitted inst).Edge i j ↔ b.Edge i j := by
  unfold Edge
  rw [block?_emitted]
  split
  · cases b.block? i <;> simp [Block.successors]
  · rfl

theorem edge_closed {i : BlockId} (h : b.Open i) {t : Terminator} {j k : BlockId} :
    (b.closed i t).Edge j k ↔ b.Edge j k ∨ (j = i ∧ k ∈ t.successors) := by
  unfold Edge
  rw [block?_closed]
  obtain ⟨blk, hblk, hnone⟩ := h
  by_cases hj : i = j
  · subst hj
    simp [hblk, Block.successors, hnone]
  · simp [hj, Ne.symm hj]

namespace Flow

theorem moved (h : b.Flow sight) (i : BlockId) : (b.moved i).Flow sight :=
  ⟨h.params, h.uses, h.ends, h.edges, h.phis⟩

theorem withLocal (h : b.Flow sight) (type : TypeId) : (b.withLocal type).Flow sight :=
  ⟨h.params, h.uses, h.ends, h.edges, h.phis⟩

theorem withBlock (h : b.Flow sight) (htargets : ∀ i j, b.Edge i j → j.index < b.size)
    {atStart : LocalId → Prop} (hparams : ∀ id, id.index < b.params.length → atStart id) :
    b.withBlock.Flow (sight.with b.size atStart) := by
  have hold : ∀ {i : BlockId} {id : LocalId}, i.index < b.size →
      ((sight.with b.size atStart) i id ↔ sight i id) := by
    intro i id hi
    simp [Sight.with, Nat.ne_of_lt hi]
  have hsight : ∀ {i : BlockId} {id : LocalId}, i.index < b.size → b.InSight sight i id →
      b.withBlock.InSight (sight.with b.size atStart) i id :=
    fun hi hin => hin.mono (Le.withBlock b) (hold hi).mpr
  refine ⟨fun i id hid => ?_, fun i blk before inst hblk hpre hphi v hv id hid => ?_,
    fun i blk t hblk ht v hv id hid => ?_, fun i j hedge id hid => ?_,
    fun i blk before inst hblk hpre hphi => ?_⟩
  · by_cases hi : i.index = b.size
    · simpa [Sight.with, hi] using hparams id hid
    · simpa [Sight.with, hi] using h.params i id hid
  · rcases block_withBlock_cases hblk with ⟨_, rfl⟩ | hblk
    · simp [Block.fresh] at hpre
    · exact (h.uses i blk before inst hblk hpre hphi v hv id hid).imp_left
        (hold (lt_size hblk)).mpr
  · rcases block_withBlock_cases hblk with ⟨_, rfl⟩ | hblk
    · simp [Block.fresh] at ht
    · exact hsight (lt_size hblk) (h.ends i blk t hblk ht v hv id hid)
  · rw [edge_withBlock] at hedge
    exact hsight hedge.lt_size (h.edges i j hedge id ((hold (htargets i j hedge)).mp hid))
  · rcases block_withBlock_cases hblk with ⟨_, rfl⟩ | hblk
    · simp [Block.fresh] at hpre
    · obtain ⟨hfirst, hfits⟩ := h.phis i blk before inst hblk hpre hphi
      exact ⟨hfirst, hfits.mono (fun j => edge_withBlock)
        fun j id hj hin => hsight hj.lt_size hin⟩

/-- An instruction at the end of the cursor's block: one that reads what is in sight, or a phi in a
block that is empty. -/
theorem emitted (h : b.Flow sight) (hopen : b.Open b.cursor) {inst : Inst}
    (hreads : inst.operation.isPhi = false →
      ∀ v ∈ inst.operation.operands, ∀ id, v.operand = .local id → b.InSight sight b.cursor id)
    (hphi : inst.operation.isPhi = true →
      (∀ blk, b.block? b.cursor = some blk → blk.insts = []) ∧
        b.PhiFits sight b.cursor inst.operation) :
    (b.emitted inst).Flow sight := by
  have hsight : ∀ {i : BlockId} {id : LocalId}, b.InSight sight i id →
      (b.emitted inst).InSight sight i id :=
    fun hin => hin.mono (Le.emitted hopen inst) fun hs => hs
  have hfits : ∀ {i : BlockId} {operation : Operation}, b.PhiFits sight i operation →
      (b.emitted inst).PhiFits sight i operation :=
    fun hf => hf.mono (fun j => edge_emitted) fun j id _ hin => hsight hin
  refine ⟨h.params, fun i blk before inst' hblk hpre hnphi v hv id hid => ?_,
    fun i blk t hblk ht v hv id hid => ?_, fun i j hedge id hid => ?_,
    fun i blk before inst' hblk hpre hisphi => ?_⟩
  · rcases block_emitted_cases hblk with ⟨rfl, old, hold, rfl⟩ | ⟨_, hold⟩
    · rcases List.prefix_concat_iff.mp hpre with hlast | hpre
      · obtain ⟨rfl, hinst⟩ := List.append_inj' hlast rfl
        obtain rfl : inst' = inst := by simpa using hinst
        refine (hreads hnphi v hv id hid).imp_right fun hin => ?_
        obtain ⟨blk', hblk', hdef⟩ := hin
        rw [hold] at hblk'
        cases hblk'
        exact hdef
      · exact h.uses _ old before inst' hold hpre hnphi v hv id hid
    · exact h.uses i blk before inst' hold hpre hnphi v hv id hid
  · rcases block_emitted_cases hblk with ⟨_, old, hold, rfl⟩ | ⟨_, hold⟩
    · exact hsight (h.ends i old t hold ht v hv id hid)
    · exact hsight (h.ends i blk t hold ht v hv id hid)
  · exact hsight (h.edges i j (edge_emitted.mp hedge) id hid)
  · rcases block_emitted_cases hblk with ⟨rfl, old, hold, rfl⟩ | ⟨_, hold⟩
    · rcases List.prefix_concat_iff.mp hpre with hlast | hpre
      · obtain ⟨rfl, hinst⟩ := List.append_inj' hlast rfl
        obtain rfl : inst' = inst := by simpa using hinst
        exact ⟨(hphi hisphi).1 old hold, hfits (hphi hisphi).2⟩
      · obtain ⟨hfirst, hf⟩ := h.phis _ old before inst' hold hpre hisphi
        exact ⟨hfirst, hfits hf⟩
    · obtain ⟨hfirst, hf⟩ := h.phis i blk before inst' hold hpre hisphi
      exact ⟨hfirst, hfits hf⟩

/-- A terminator that reads what is in sight, and leads to blocks without a phi whose promises are
kept. -/
theorem closed (h : b.Flow sight) {i : BlockId} (hopen : b.Open i) {t : Terminator}
    (hreads : ∀ v ∈ t.operands, ∀ id, v.operand = .local id → b.InSight sight i id)
    (htargets : ∀ k ∈ t.successors,
      (∀ id, sight k id → b.InSight sight i id) ∧ b.PhiFree k) :
    (b.closed i t).Flow sight := by
  have hsight : ∀ {j : BlockId} {id : LocalId}, b.InSight sight j id →
      (b.closed i t).InSight sight j id :=
    fun hin => hin.mono (Le.closed hopen t) fun hs => hs
  have huses : ∀ j blk, (b.closed i t).block? j = some blk →
      ∃ old, b.block? j = some old ∧ blk.insts = old.insts := by
    intro j blk hblk
    rcases block_closed_cases hblk with ⟨_, old, hold, rfl⟩ | ⟨_, hold⟩
    · exact ⟨old, hold, rfl⟩
    · exact ⟨blk, hold, rfl⟩
  refine ⟨h.params, fun j blk before inst hblk hpre hnphi v hv id hid => ?_,
    fun j blk t' hblk ht v hv id hid => ?_, fun j k hedge id hid => ?_,
    fun j blk before inst hblk hpre hisphi => ?_⟩
  · obtain ⟨old, hold, hsame⟩ := huses j blk hblk
    exact h.uses j old before inst hold (hsame ▸ hpre) hnphi v hv id hid
  · rcases block_closed_cases hblk with ⟨rfl, old, hold, rfl⟩ | ⟨_, hold⟩
    · cases ht
      exact hsight (hreads v hv id hid)
    · exact hsight (h.ends j blk t' hold ht v hv id hid)
  · rcases (edge_closed hopen).mp hedge with hedge | ⟨rfl, hk⟩
    · exact hsight (h.edges j k hedge id hid)
    · exact hsight ((htargets k hk).1 id hid)
  · obtain ⟨old, hold, hsame⟩ := huses j blk hblk
    obtain ⟨hfirst, hfits⟩ := h.phis j old before inst hold (hsame ▸ hpre) hisphi
    refine ⟨hfirst, hfits.mono (fun k => (edge_closed hopen).trans ?_) fun k id _ hin => hsight hin⟩
    -- A block that has a phi is no target.
    refine or_iff_left fun hnew => ?_
    have hmem : inst ∈ old.insts := (hsame ▸ hpre).subset (by simp)
    have := (htargets j hnew.2).2 old hold inst hmem
    rw [hisphi] at this
    cases this

end Flow

end Builder

end Ir
end Midend
