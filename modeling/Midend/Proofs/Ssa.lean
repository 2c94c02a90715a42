import Midend.Proofs.Unit

/-!
# Midend.Proofs.Ssa

Lowered functions are in static single assignment form (`SourceUnit.lower_ssa`). A local is assigned
by one instruction, and every path from the entry to where it is read has come through that
instruction: what is in sight at the start of a block has been assigned however control came there.
-/

namespace Midend

open Ir

namespace Ir.Function

/-- Control can come to the start of the block when the instructions have been executed, in order.
-/
inductive Arrives (f : Function) : BlockId → List Inst → Prop where
  | entry : Arrives f ⟨0⟩ []
  | edge {i j : BlockId} {blk : Block} {done : List Inst} : Arrives f i done →
      f.block? i = some blk → j ∈ blk.successors → Arrives f j (done ++ blk.insts)

/-- The value is no local, or a parameter, or was assigned by one of the instructions. -/
def Assigned (f : Function) (done : List Inst) (v : Value) : Prop :=
  ∀ id, v.operand = .local id → id ∈ f.params ∨ id ∈ defs done

/-- Static single assignment form. -/
structure Ssa (f : Function) : Prop where
  /-- The parameters are the first locals. -/
  params : f.params = (List.range f.params.length).map LocalId.mk ∧
    f.params.length ≤ f.locals.size
  /-- Locals carry their own numbers. -/
  locals : ∀ (i : Nat) (l : Local), f.locals[i]? = some l → l.id = ⟨i⟩ ∧
    (l.isParam = true ↔ l.id ∈ f.params)
  /-- Every other local is the result of one instruction, of its type. -/
  once : ∀ id l, f.local? id = some l → id ∉ f.params →
    ∃ inst, f.insts.filter (fun inst => inst.dst = some id) = [inst] ∧ inst.type = l.type
  results : ∀ inst ∈ f.insts, ∀ id, inst.dst = some id → id ∉ f.params ∧ (f.local? id).isSome
  /-- What an instruction reads was assigned before, on every path that comes to it. -/
  reads : ∀ i done blk, f.Arrives i done → f.block? i = some blk → ∀ before inst after,
    blk.insts = before ++ inst :: after → inst.operation.isPhi = false →
      ∀ v ∈ inst.operation.operands, f.Assigned (done ++ before) v
  /-- What a terminator reads was assigned before. -/
  ends : ∀ i done blk t, f.Arrives i done → f.block? i = some blk → blk.terminator = some t →
    ∀ v ∈ t.operands, f.Assigned (done ++ blk.insts) v
  /-- What a phi reads was assigned at the end of the block that control comes from. -/
  phiReads : ∀ i done blk j target, f.Arrives i done → f.block? i = some blk →
    j ∈ blk.successors → f.block? j = some target → ∀ inst ∈ target.insts, ∀ incoming,
      inst.operation = .phi incoming → ∀ v, (v, i) ∈ incoming → f.Assigned (done ++ blk.insts) v
  /-- A phi comes first in its block, and has one entry for each predecessor. -/
  phis : ∀ j blk, f.block? j = some blk → ∀ before inst after incoming,
    blk.insts = before ++ inst :: after → inst.operation = .phi incoming →
      before = [] ∧ (incoming.map Prod.snd).Nodup ∧
        ∀ i, i ∈ incoming.map Prod.snd ↔ ∃ pred, f.block? i = some pred ∧ j ∈ pred.successors

end Ir.Function

namespace Ir.Builder

variable {b : Builder} {sight : Sight}

theorem finish_block?_iff (h : b.Numbered) {i : BlockId} {blk : Block} :
    b.finish.block? i = some blk ↔ b.block? i = some blk := by
  refine ⟨block?_of_finish, fun hblk => ?_⟩
  have hget : b.finish.blocks[i.index]? = some blk := hblk
  simp [Function.block?, hget, h.blockId i blk hblk]

theorem edge_of_finish {i j : BlockId} {blk : Block} (hblk : b.finish.block? i = some blk)
    (hj : j ∈ blk.successors) : b.Edge i j := ⟨blk, block?_of_finish hblk, hj⟩

theorem mem_params (h : b.Numbered) {id : LocalId} :
    id ∈ b.params ↔ id.index < b.params.length := by
  rw [h.params]
  obtain ⟨n⟩ := id
  simp

theorem mem_defined (h : b.Numbered) {id : LocalId} :
    id ∈ b.defined ↔ b.params.length ≤ id.index ∧ id.index < b.locals.size := by
  rw [h.results.mem_iff]
  obtain ⟨n⟩ := id
  have henough := h.enough
  simp
  omega

theorem nodup_defined (h : b.Numbered) : b.defined.Nodup := by
  refine h.results.nodup_iff.mpr (List.Nodup.map (fun m n hmn => ?_) List.nodup_range')
  exact LocalId.mk.inj hmn

/-- Whatever is in sight at the start of a block has been assigned when control comes there. -/
theorem assigned_of_sight (h : b.Numbered) (hflow : b.Flow sight)
    (hentry : ∀ id, sight ⟨0⟩ id → id.index < b.params.length) {i : BlockId} {done : List Inst}
    (harrives : b.finish.Arrives i done) {id : LocalId} (hid : sight i id) :
    id ∈ b.params ∨ id ∈ defs done := by
  induction harrives generalizing id with
  | entry => exact .inl ((mem_params h).mpr (hentry id hid))
  | edge _ hblk hj ih =>
    rcases hflow.edges _ _ (edge_of_finish hblk hj) id hid with hin | ⟨blk', hblk', hdef⟩
    · refine (ih hin).imp_right fun hdone => ?_
      rw [defs_append]
      exact List.mem_append_left _ hdone
    · rw [block?_of_finish hblk] at hblk'
      cases hblk'
      rw [defs_append]
      exact .inr (List.mem_append_right _ hdef)

theorem assigned_of_inSight (h : b.Numbered) (hflow : b.Flow sight)
    (hentry : ∀ id, sight ⟨0⟩ id → id.index < b.params.length) {i : BlockId} {done : List Inst}
    (harrives : b.finish.Arrives i done) {blk : Block} (hblk : b.finish.block? i = some blk)
    {v : Value} (hv : ∀ id, v.operand = .local id → b.InSight sight i id) :
    b.finish.Assigned (done ++ blk.insts) v := by
  intro id hid
  rw [defs_append]
  rcases hv id hid with hin | ⟨blk', hblk', hdef⟩
  · exact (assigned_of_sight h hflow hentry harrives hin).imp_right (List.mem_append_left _)
  · rw [block?_of_finish hblk] at hblk'
    cases hblk'
    exact .inr (List.mem_append_right _ hdef)

end Ir.Builder

theorem isPhi_of_eq {operation : Operation} {incoming : List (Value × BlockId)}
    (h : operation = .phi incoming) : operation.isPhi = true := by
  rw [h]
  rfl

theorem prefix_of_append_cons {α : Type} {l before after : List α} {a : α}
    (h : l = before ++ a :: after) : before ++ [a] <+: l := ⟨after, by rw [h]; simp⟩

namespace Lowered

variable {ctx : Context} {decl : FuncDecl} {sig : Signature} {types : TypeStore}
  {b : Builder}

theorem ssa (h : Lowered ctx decl sig types b) : b.finish.Ssa := by
  obtain ⟨sight, hflow, hentry⟩ := h.flow
  have hnum := h.numbered
  refine ⟨⟨hnum.params, hnum.enough⟩, fun i l hl => ?_, fun id l hl hid => ?_,
    fun inst hinst id hid => ?_, ?_, ?_, ?_, ?_⟩
  · obtain ⟨hid, hparam⟩ := hnum.localId ⟨i⟩ l hl
    rw [hid]
    exact ⟨rfl, hparam.trans (Builder.mem_params hnum).symm⟩
  · have hdefined : id ∈ b.defined := by
      refine (Builder.mem_defined hnum).mpr ⟨?_, Builder.local_lt hl⟩
      exact Nat.not_lt.mp fun hlt => hid ((Builder.mem_params hnum).mpr hlt)
    obtain ⟨inst, honly⟩ := Builder.exists_only (Builder.nodup_defined hnum) hdefined
    refine ⟨inst, honly, ?_⟩
    have hmem : inst ∈ b.finish.insts.filter fun inst => inst.dst = some id := by simp [honly]
    obtain ⟨hinst, hdst⟩ := List.mem_filter.mp hmem
    obtain ⟨i, blk, hblk, hin⟩ := Builder.mem_insts hinst
    obtain ⟨l', hl', htype⟩ := (h.typed.insts i blk hblk inst hin).recorded id (by simpa using hdst)
    have hsame : b.local? id = some l := hl
    rw [hsame] at hl'
    cases hl'
    exact htype.symm
  · have hdefined : id ∈ b.defined := by
      rw [Builder.defined_eq]
      exact List.mem_filterMap.mpr ⟨inst, hinst, hid⟩
    obtain ⟨hge, hlt⟩ := (Builder.mem_defined hnum).mp hdefined
    refine ⟨fun hmem => absurd ((Builder.mem_params hnum).mp hmem) (Nat.not_lt.mpr hge), ?_⟩
    have hget : b.finish.local? id = some b.locals[id.index] := Array.getElem?_eq_getElem hlt
    rw [hget]
    rfl
  · intro i done blk harrives hblk before inst after hsplit hphi v hv id hid
    have hblk' := Builder.block?_of_finish hblk
    rw [defs_append]
    rcases hflow.uses i blk before inst hblk' (prefix_of_append_cons hsplit) hphi v hv id hid with
      hin | hdef
    · exact (Builder.assigned_of_sight hnum hflow hentry harrives hin).imp_right
        (List.mem_append_left _)
    · exact .inr (List.mem_append_right _ hdef)
  · intro i done blk t harrives hblk ht v hv
    exact Builder.assigned_of_inSight hnum hflow hentry harrives hblk
      (hflow.ends i blk t (Builder.block?_of_finish hblk) ht v hv)
  · intro i done blk j target harrives hblk hj htarget inst hinst incoming hop v hv
    obtain ⟨before, after, hsplit⟩ := List.append_of_mem hinst
    obtain ⟨_, hfits⟩ := hflow.phis j target before inst (Builder.block?_of_finish htarget)
      (prefix_of_append_cons hsplit) (isPhi_of_eq hop)
    exact Builder.assigned_of_inSight hnum hflow hentry harrives hblk
      ((hfits incoming hop).2.2 v i hv)
  · intro j blk hblk before inst after incoming hsplit hop
    obtain ⟨hfirst, hfits⟩ := hflow.phis j blk before inst (Builder.block?_of_finish hblk)
      (prefix_of_append_cons hsplit) (isPhi_of_eq hop)
    obtain ⟨hnodup, hpreds, _⟩ := hfits incoming hop
    refine ⟨hfirst, hnodup, fun i => (hpreds i).trans ?_⟩
    constructor
    · rintro ⟨pred, hpred, hj⟩
      exact ⟨pred, (Builder.finish_block?_iff hnum).mpr hpred, hj⟩
    · rintro ⟨pred, hpred, hj⟩
      exact Builder.edge_of_finish hpred hj

end Lowered

/-- Every function of a module is in static single assignment form, whatever was reported. -/
theorem SourceUnit.lower_ssa {config : Config} {u : SourceUnit} {m : Module}
    {errors : List LowerError} (h : u.lower config = (.ok m, errors)) :
    ∀ fn ∈ m.functions, fn.Ssa := by
  obtain ⟨ctx, kept, hlowers⟩ := SourceUnit.lowers_of_lower h
  intro fn hfn
  obtain ⟨decl, _, body, sig, b, _, _, rfl, hlowered, _⟩ :=
    exists_left_of_forall₂ hlowers.functions hfn
  exact hlowered.ssa

theorem SourceUnit.lower_ssa_sample :
    ∃ m, SourceUnit.sample.lower ⟨64, true⟩ = (.ok m, []) ∧ m.functions.length = 1 ∧
      ∀ fn ∈ m.functions, fn.Ssa := by
  obtain ⟨m, hlower, hone⟩ := SourceUnit.sample_lowers
  exact ⟨m, hlower, hone, SourceUnit.lower_ssa hlower⟩

end Midend
