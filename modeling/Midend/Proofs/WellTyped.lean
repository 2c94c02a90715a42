import Midend.Proofs.Joins
import Midend.Proofs.MissingReturn

/-!
# Midend.Proofs.WellTyped

Every instruction of a module is well typed, in the types of the whole module
(`SourceUnit.lower_wellTyped`). Calls agree with the declarations of what they call, and so with the
code that was lowered for it.
-/

namespace Midend

open Ir

namespace Ir.Function

/-- The value is read with the type that its local is recorded with. -/
def Recorded (f : Function) (v : Value) : Prop :=
  ∀ id, v.operand = .local id → ∃ l, f.local? id = some l ∧ l.type = v.type

/-- The value decides which way a branch goes: it is the condition, or an operand of an `or` whose
result decides. -/
inductive Decides (f : Function) : Value → Prop where
  | branch {i : BlockId} {blk : Block} {cond : Value} {k k' : BlockId} :
      f.block? i = some blk → blk.terminator = some (.condBr cond k k') → Decides f cond
  | operand {inst : Inst} {lhs rhs v w : Value} {id : LocalId} : inst ∈ f.insts →
      inst.operation = .binary .or lhs rhs → inst.dst = some id → v.operand = .local id →
      Decides f v → w = lhs ∨ w = rhs → Decides f w

/-- All instructions follow the rules. -/
structure WellTyped (types : TypeStore) (fns : Functions) (joins : Inst → Prop) (f : Function) :
    Prop where
  operation : ∀ inst ∈ f.insts, OperationTyped types fns inst.operation inst.type
  /-- Operands of different types are only found where values of a clause are joined. -/
  mixed : ∀ inst ∈ f.insts, inst.operation.Mixed → joins inst
  joined : ∀ inst ∈ f.insts, joins inst → ∃ lhs rhs, inst.operation = .binary .or lhs rhs ∧
    types.IsBool lhs.type ∧ types.IsBool rhs.type ∧ types.IsBool inst.type
  operands : ∀ inst ∈ f.insts, ∀ v ∈ inst.operation.operands, f.Recorded v
  /-- What has no value has no result. -/
  result : ∀ inst ∈ f.insts, (inst.dst = none ↔ types.IsVoid inst.type)
  recorded : ∀ inst ∈ f.insts, ∀ id, inst.dst = some id →
    ∃ l, f.local? id = some l ∧ l.type = inst.type
  decides : ∀ v, f.Decides v → types.IsBool v.type

/-- The function has parameters and a return type as the signature says. -/
structure HasSignature (f : Function) (sig : Signature) : Prop where
  ret : f.ret = sig.ret
  count : f.params.length = sig.params.length
  params : ∀ (i : Nat) (t : TypeId), sig.params[i]? = some t →
    ∃ l, f.local? ⟨i⟩ = some l ∧ l.type = t ∧ l.isParam = true

end Ir.Function

namespace Ir.OperationTyped

variable {types : TypeStore} {fns : Functions} {lhs rhs : Value} {type : TypeId}

theorem isBool_operands (h : OperationTyped types fns (.binary .or lhs rhs) type)
    (hbool : types.IsBool type) : types.IsBool lhs.type ∧ types.IsBool rhs.type := by
  cases h with
  | arith _ hl hr _ => exact ⟨hl ▸ hbool, hr ▸ hbool⟩
  | shift hshift _ _ _ => cases hshift
  | join _ hl hr _ => exact ⟨hl, hr⟩

theorem isBool_result (h : OperationTyped types fns (.binary .or lhs rhs) type)
    (hbool : types.IsBool rhs.type) : types.IsBool type := by
  cases h with
  | arith _ _ hr _ => exact hr ▸ hbool
  | shift hshift _ _ _ => cases hshift
  | join _ _ _ ht => exact ht

end Ir.OperationTyped

namespace Lowered

variable {ctx : Context} {decl : FuncDecl} {sig : Signature} {types : TypeStore}
  {b : Builder}

theorem instTyped (h : Lowered ctx decl sig types b) {inst : Inst}
    (hinst : inst ∈ b.finish.insts) : b.InstTyped types ctx.functions inst := by
  obtain ⟨i, blk, hblk, hin⟩ := Builder.mem_insts hinst
  exact h.typed.insts i blk hblk inst hin

theorem isBool_of_decides (h : Lowered ctx decl sig types b) {v : Value}
    (hv : b.finish.Decides v) : types.IsBool v.type ∧ b.ValueTyped types v := by
  induction hv with
  | branch hblk ht => exact h.typed.terminators _ _ _ (Builder.block?_of_finish hblk) ht
  | @operand inst lhs rhs v w id hinst hop hdst hoperand _ hw ih =>
    obtain ⟨hbool, hvalue⟩ := ih
    have htyped := h.instTyped hinst
    obtain ⟨l, hl, htype⟩ := htyped.recorded id hdst
    obtain ⟨l', hl', htype'⟩ := hvalue.recorded id hoperand
    rw [hl] at hl'
    cases hl'
    have hresult : types.IsBool inst.type := by
      rw [← htype, htype']
      exact hbool
    have hoperation := htyped.operation
    have hoperands := htyped.operands
    rw [hop] at hoperation hoperands
    obtain ⟨hleft, hright⟩ := hoperation.isBool_operands hresult
    rcases hw with rfl | rfl
    · exact ⟨hleft, hoperands _ (by simp [Operation.operands])⟩
    · exact ⟨hright, hoperands _ (by simp [Operation.operands])⟩

theorem wellTyped (h : Lowered ctx decl sig types b) {joins : Inst → Prop}
    (hmixed : ∀ inst ∈ b.finish.insts, inst.operation.Mixed → joins inst)
    (hjoins : ∀ inst, joins inst →
      ∃ lhs rhs, inst.operation = .binary .or lhs rhs ∧ types.IsBool rhs.type) :
    b.finish.WellTyped types ctx.functions joins where
  operation _ hinst := (h.instTyped hinst).operation
  mixed := hmixed
  joined inst hinst hjoined := by
    obtain ⟨lhs, rhs, hop, hbool⟩ := hjoins inst hjoined
    have hoperation := hop ▸ (h.instTyped hinst).operation
    have hresult := hoperation.isBool_result hbool
    exact ⟨lhs, rhs, hop, (hoperation.isBool_operands hresult).1, hbool, hresult⟩
  operands _ hinst v hv := ((h.instTyped hinst).operands v hv).recorded
  result _ hinst := (h.instTyped hinst).result
  recorded _ hinst := (h.instTyped hinst).recorded
  decides _ hv := (h.isBool_of_decides hv).1

theorem hasSignature (h : Lowered ctx decl sig types b) : b.finish.HasSignature sig where
  ret := h.ret
  count := h.params
  params i t ht := by
    obtain ⟨l, hl, htype⟩ := h.paramTypes i t ht
    obtain ⟨hlt, _⟩ := List.getElem?_eq_some_iff.mp ht
    refine ⟨l, hl, htype, (h.numbered.localId ⟨i⟩ l hl).2.mpr ?_⟩
    rw [h.params]
    exact hlt

end Lowered

/-- The signature is that of a declared function, and of its code if it has any. -/
def Agrees (config : Config) (u : SourceUnit) (m : Module) (name : String) (sig : Signature) :
    Prop :=
  ∃ d ∈ u.funcDecls, d.1.name = name ∧
    runOn (signatureOf config.wordBits d.1) m.types = (.ok sig, m.types) ∧
    (d.1.body.isSome → ∃ fn ∈ m.functions, fn.name = name ∧ fn.HasSignature sig)

theorem SourceUnit.Lowers.agrees {config : Config} {u : SourceUnit} {ctx : Context}
    {kept : List (FuncDecl × Span)} {m : Module} {errors : List LowerError}
    (h : SourceUnit.Lowers config u ctx kept m errors) {name : String} {sig : Signature}
    (hsig : ctx.functions.lookup name = some sig) : Agrees config u m name sig := by
  obtain ⟨d, hd, rfl, hsigned⟩ := signed_of_lookup h.registered hsig
  refine ⟨d, h.sublist.subset hd, rfl, hsigned.found _ (TypeStore.le_refl _), fun hbody => ?_⟩
  have hmem : d.1 ∈ (kept.map Prod.fst).filter fun decl => decl.body.isSome :=
    List.mem_filter.mpr ⟨List.mem_map_of_mem hd, hbody⟩
  obtain ⟨fn, hfn, body, sig', b, _, hsig', rfl, hlowered, _⟩ :=
    exists_right_of_forall₂ h.functions hmem
  rw [hsig] at hsig'
  cases hsig'
  exact ⟨_, hfn, hlowered.name, hlowered.hasSignature⟩

/-- There are signatures for the declared functions such that all code of a module is well typed. An
`or` of conditions of different types joins values of a clause, in a switch without a tag that
lowering of the function comes to. -/
theorem SourceUnit.lower_wellTyped {config : Config} {u : SourceUnit} {m : Module}
    {errors : List LowerError} (h : u.lower config = (.ok m, errors)) :
    ∃ fns : Functions, (∀ name sig, fns.lookup name = some sig → Agrees config u m name sig) ∧
      ∀ fn ∈ m.functions, ∃ d ∈ u.funcDecls, ∃ ctx s s', ctx.functions = fns ∧
        u.ComesTo config ctx d.1 d.2 s ∧
        runOn (Pass.function ctx d.1 d.2) s = (.ok (some fn), s') ∧
        d.1.body.isSome ∧ fn.name = d.1.name ∧
        fn.WellTyped m.types fns (Pass.Joins ctx d.1 s) := by
  obtain ⟨ctx, kept, hlowers⟩ := SourceUnit.lowers_of_lower h
  refine ⟨ctx.functions, fun name sig hsig => hlowers.agrees hsig, fun fn hfn => ?_⟩
  obtain ⟨d, hd, s, s', hcomes, hrun, hle, body, sig, b, hbody, _, rfl, hlowered, _⟩ :=
    hlowers.comesTo hfn
  refine ⟨d, hd, ctx, s, s', rfl, hcomes, hrun, by rw [hbody]; rfl, hlowered.name,
    hlowered.wellTyped (Pass.function_mixes hrun) fun inst hjoins => ?_⟩
  obtain ⟨lhs, rhs, hop, hbool⟩ := hjoins.isBool hrun
  exact ⟨lhs, rhs, hop, hbool.le hle⟩

theorem SourceUnit.lower_wellTyped_sample :
    ∃ m, SourceUnit.sample.lower ⟨64, true⟩ = (.ok m, []) ∧ m.functions.length = 1 ∧
      ∃ fns : Functions,
        (∀ name sig, fns.lookup name = some sig → Agrees ⟨64, true⟩ .sample m name sig) ∧
        ∀ fn ∈ m.functions, ∃ d ∈ SourceUnit.sample.funcDecls, ∃ ctx s s', ctx.functions = fns ∧
          SourceUnit.sample.ComesTo ⟨64, true⟩ ctx d.1 d.2 s ∧
          runOn (Pass.function ctx d.1 d.2) s = (.ok (some fn), s') ∧
          d.1.body.isSome ∧ fn.name = d.1.name ∧
          fn.WellTyped m.types fns (Pass.Joins ctx d.1 s) := by
  obtain ⟨m, hlower, hone⟩ := SourceUnit.sample_lowers
  exact ⟨m, hlower, hone, SourceUnit.lower_wellTyped hlower⟩

end Midend
