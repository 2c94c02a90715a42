import Midend.Proofs.Function
import Midend.Proofs.Verifier

/-!
# Midend.Proofs.Verified

The verifier finds nothing in a function that was lowered, whatever was reported on the way.
-/

namespace Midend

open Ir

namespace Lowered

variable {ctx : Context} {decl : FuncDecl} {sig : Signature} {types : TypeStore}
  {b : Builder}

/-- Every block has a terminator that is well typed and leads to blocks. -/
theorem exists_terminator (h : Lowered ctx decl sig types b) {i : BlockId} {blk : Block}
    (hblk : b.block? i = some blk) :
    ∃ t, blk.terminator = some t ∧ b.TerminatorTyped types t ∧
      ∀ j ∈ t.successors, ∃ target, b.finish.block? j = some target := by
  cases ht : blk.terminator with
  | none => exact absurd ⟨blk, hblk, ht⟩ (h.sealed i)
  | some t =>
    refine ⟨t, rfl, h.typed.terminators i blk t hblk ht, fun j hj => ?_⟩
    have hedge : b.Edge i j := ⟨blk, hblk, by simpa [Block.successors, ht] using hj⟩
    obtain ⟨target, htarget⟩ := Builder.block?_of_lt (h.typed.targets i j hedge)
    obtain ⟨blk', hblk', _⟩ := Builder.Within.finish h.numbered j target htarget
    exact ⟨blk', hblk'⟩

theorem sound (h : Lowered ctx decl sig types b) :
    ∀ blk ∈ b.finish.blocks.toList, b.finish.SoundBlock types blk := by
  intro blk hblk
  obtain ⟨i, hi⟩ := List.mem_iff_getElem?.mp hblk
  have hget : b.block? ⟨i⟩ = some blk := Array.getElem?_toList.symm.trans hi
  obtain ⟨t, ht, htyped, htargets⟩ := h.exists_terminator hget
  refine ⟨t, ht, fun j hj => Option.isSome_iff_exists.mpr (htargets j hj), ?_⟩
  cases t with
  | br | unreachable => trivial
  | condBr cond thenBlock elseBlock => exact htyped.1
  | ret value =>
    cases value with
    | none => exact htyped
    | some v => exact ⟨htyped.1, htyped.2.1⟩

theorem verify_eq_nil (h : Lowered ctx decl sig types b) :
    b.finish.verify types = .ok [] :=
  Function.verify_of_sound h.typed.ret h.sound

end Lowered

theorem LoweredFrom.verify_eq_nil {ctx : Context} {types : TypeStore} {errors : List LowerError}
    {decl : FuncDecl} {fn : Function} (h : LoweredFrom ctx types errors decl fn) :
    fn.verify types = .ok [] := by
  obtain ⟨body, sig, b, _, _, rfl, hlowered, _⟩ := h
  exact hlowered.verify_eq_nil

/-- Only its types can be wrong with a module whose functions were lowered. -/
theorem verify_eq_pendingTypes {m : Module} (h : ∀ fn ∈ m.functions, fn.verify m.types = .ok []) :
    m.verify = .ok m.types.pendingTypes := by
  rw [Module.verify, mapM_nothing h]
  show Except.ok _ = Except.ok _
  rw [flatten_nothing, List.append_nil]

end Midend
