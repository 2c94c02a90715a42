import Midend.Proofs.Ssa

/-!
# Midend.Proofs.Contract

Lowering keeps the contracts of the types and of the builder (`SourceUnit.lower_keeps_contracts`).
Every step that could break one has `Breach` for an outcome, and no run comes to it: a pass yields a
result or is ended by a construct without a lowering rule. The numbers in a module are those of its
tables.
-/

namespace Midend

open Ir

namespace Ir

def Function.HasValue (f : Function) (types : TypeStore) (v : Value) : Prop :=
  types.Has v.type ∧ ∀ id, v.operand = .local id → (f.local? id).isSome

/-- Whatever the code refers to is there. -/
structure Function.InRange (types : TypeStore) (f : Function) : Prop where
  ret : types.Has f.ret
  locals : ∀ id l, f.local? id = some l → types.Has l.type
  insts : ∀ inst ∈ f.insts, types.Has inst.type
  operands : ∀ inst ∈ f.insts, ∀ v ∈ inst.operation.operands, f.HasValue types v
  results : ∀ inst ∈ f.insts, ∀ id, inst.dst = some id → (f.local? id).isSome
  incoming : ∀ inst ∈ f.insts, ∀ incoming, inst.operation = .phi incoming →
    ∀ i ∈ incoming.map Prod.snd, (f.block? i).isSome
  ends : ∀ i blk t, f.block? i = some blk → blk.terminator = some t →
    (∀ v ∈ t.operands, f.HasValue types v) ∧ ∀ j ∈ t.successors, (f.block? j).isSome

structure Module.InRange (m : Module) : Prop where
  types : ∀ id body, m.types.body? id = some body → ∀ ref ∈ body.refs, m.types.Has ref
  functions : ∀ f ∈ m.functions, f.InRange m.types

end Ir

theorem Ir.TypeStore.WF.has_of_refs {s : TypeStore} (h : s.WF) {id : TypeId} {body : Ty}
    (hbody : s.body? id = some body) : ∀ ref ∈ body.refs, s.Has ref := by
  intro ref hr
  obtain ⟨slot, hslot, rfl⟩ := slot?_of_body? hbody
  have hlt : ref.index < s.slots.size := h.closed id slot hslot ref hr
  exact ⟨_, body?_of_slot? (Array.getElem?_eq_getElem hlt)⟩

namespace Lowered

variable {ctx : Context} {decl : FuncDecl} {sig : Signature} {types : TypeStore}
  {b : Builder}

theorem hasValue {v : Value} (h : b.ValueTyped types v) : b.finish.HasValue types v := by
  refine ⟨h.has, fun id hid => ?_⟩
  obtain ⟨l, hl, _⟩ := h.recorded id hid
  exact Option.isSome_iff_exists.mpr ⟨l, hl⟩

theorem block?_isSome (h : Lowered ctx decl sig types b) {i : BlockId}
    (hi : i.index < b.size) : (b.finish.block? i).isSome := by
  obtain ⟨blk, hblk⟩ := Builder.block?_of_lt hi
  exact Option.isSome_iff_exists.mpr ⟨blk, (Builder.finish_block?_iff h.numbered).mpr hblk⟩

theorem has_local (h : Lowered ctx decl sig types b)
    (hparams : ∀ param ∈ sig.params, types.Has param) {id : LocalId} {l : Local}
    (hl : b.local? id = some l) : types.Has l.type := by
  obtain ⟨n⟩ := id
  rcases Nat.lt_or_ge n b.params.length with hlt | hge
  · have hn : n < sig.params.length := h.params ▸ hlt
    obtain ⟨l', hl', htype⟩ := h.paramTypes n _ (List.getElem?_eq_getElem hn)
    rw [hl] at hl'
    cases hl'
    rw [htype]
    exact hparams _ (List.getElem_mem hn)
  · have hdefined : (⟨n⟩ : LocalId) ∈ b.defined :=
      (Builder.mem_defined h.numbered).mpr ⟨hge, Builder.local_lt hl⟩
    rw [Builder.defined_eq, defs] at hdefined
    obtain ⟨inst, hinst, hdst⟩ := List.mem_filterMap.mp hdefined
    obtain ⟨i, blk, hblk, hin⟩ := Builder.mem_insts hinst
    have htyped := h.typed.insts i blk hblk inst hin
    obtain ⟨l', hl', htype⟩ := htyped.recorded _ hdst
    rw [hl] at hl'
    cases hl'
    exact htype ▸ htyped.has

theorem inRange (h : Lowered ctx decl sig types b)
    (hparams : ∀ param ∈ sig.params, types.Has param) : b.finish.InRange types := by
  have htyped : ∀ inst ∈ b.finish.insts, b.InstTyped types ctx.functions inst := by
    intro inst hinst
    obtain ⟨i, blk, hblk, hin⟩ := Builder.mem_insts hinst
    exact h.typed.insts i blk hblk inst hin
  refine ⟨h.typed.ret, fun id l hl => h.has_local hparams hl,
    fun inst hinst => (htyped inst hinst).has,
    fun inst hinst v hv => hasValue ((htyped inst hinst).operands v hv),
    fun inst hinst id hid => ?_,
    fun inst hinst incoming hop i hi => ?_, fun i blk t hblk ht => ⟨fun v hv => ?_, fun j hj => ?_⟩⟩
  · obtain ⟨l, hl, _⟩ := (htyped inst hinst).recorded id hid
    exact Option.isSome_iff_exists.mpr ⟨l, hl⟩
  · obtain ⟨j, blk, hblk, hin⟩ := Builder.mem_insts hinst
    obtain ⟨before, after, hsplit⟩ := List.append_of_mem hin
    obtain ⟨sight, hflow, _⟩ := h.flow
    have hfits := (hflow.phis j blk before inst hblk (prefix_of_append_cons hsplit)
      (isPhi_of_eq hop)).2
    exact h.block?_isSome (((hfits incoming hop).2.1 i).mp hi).lt_size
  · have hend := h.typed.terminators i blk t (Builder.block?_of_finish hblk) ht
    cases t with
    | br target => simp [Terminator.operands] at hv
    | unreachable => simp [Terminator.operands] at hv
    | condBr cond thenBlock elseBlock =>
      obtain rfl : v = cond := by simpa [Terminator.operands] using hv
      exact hasValue hend.2
    | ret value =>
      cases value with
      | none => simp [Terminator.operands] at hv
      | some w =>
        obtain rfl : v = w := by simpa [Terminator.operands] using hv
        exact hasValue hend.2.2
  · refine h.block?_isSome (h.typed.targets i j ?_)
    exact Builder.edge_of_finish hblk (by simpa [Block.successors, ht] using hj)

end Lowered

theorem SourceUnit.Lowers.inRange {config : Config} {u : SourceUnit} {ctx : Context}
    {kept : List (FuncDecl × Span)} {m : Module} {errors : List LowerError}
    (h : SourceUnit.Lowers config u ctx kept m errors) : m.InRange := by
  refine ⟨fun id body hbody => h.ready.wf.has_of_refs hbody, fun fn hfn => ?_⟩
  obtain ⟨decl, _, body, sig, b, _, hsig, rfl, hlowered, _⟩ :=
    exists_left_of_forall₂ h.functions hfn
  exact hlowered.inRange fun param hp => ((h.ready.functions _ _ hsig).1 param hp).has

/-- For every unit and configuration, lowering yields a module in which all that is referred to is
there, or is ended by a fault in the input. It never seals a block twice, refers to a block or a
type that is not there, or defines a type that is not pending or has another shape. -/
theorem SourceUnit.lower_keeps_contracts (config : Config) (u : SourceUnit) :
    match (u.lower config).1 with
    | .ok m => m.InRange
    | .error f => ∀ b, f ≠ .breach b := by
  obtain ⟨r, s', hrun⟩ : ∃ r s', runOn (u.lowerPass config) ⟨.empty, []⟩ = (r, s') := ⟨_, _, rfl⟩
  have hsame : u.lower config = (r, s'.errors) := by
    have : (u.lowerPass config).run ⟨.empty, []⟩ = (r, s') := hrun
    rw [lower, this]
  rw [hsame]
  rcases lowerPass_comes config u with ⟨m, s₁, hok, ctx, kept, hlowers⟩ | ⟨f, s₁, hfail, htame⟩
  · rw [hrun] at hok
    cases hok
    exact hlowers.inRange
  · rw [hrun] at hfail
    cases hfail
    rintro b rfl
    exact htame

end Midend
