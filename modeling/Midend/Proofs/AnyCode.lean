import Midend.Proofs.LinkFunction
import Midend.Proofs.FrameStmt

/-!
# Midend.Proofs.AnyCode

What lowering reports does not depend on the code that is there (`Link.anyCode`). The builders of
two runs may have nothing in common but the return type of the function. From a state whose cursor
is on a block no contract of the builder is broken, so there the two runs do end in the same way
(`Lower.Agrees.of_run`).
-/

namespace Midend

open Ir Ir.TypeStore

namespace Ir.Build

variable {α β : Type} {m : Build α} {m' : Build β} {P : α → Prop} {P' : β → Prop} {s t : TypeStore}

def SameRet (s t : TypeStore) (b b' : Builder) : Prop := Alike s t b.ret b'.ret

theorem KeepsRet.agrees {Q : α → β → Prop} (hm : m.KeepsRet P) (hm' : m'.KeepsRet P')
    (hq : ∀ a a', P a → P' a' → Q a a') : Agrees (SameRet s t) m m' Q := by
  intro b b' h
  rcases hm b with hbreak | ⟨a, c, hrun, hret, hp⟩
  · exact .inl hbreak
  rcases hm' b' with hbreak | ⟨a', c', hrun', hret', hp'⟩
  · exact .inr (.inl hbreak)
  refine .inr (.inr ⟨a, c, a', c', hrun, hrun', ?_, hq a a' hp hp'⟩)
  rw [SameRet, hret, hret']
  exact h

theorem KeepsRet.closeAt (follow : BlockId) (last : Option BlockId) :
    (closeAt follow last).KeepsRet fun _ => True := by
  cases last with
  | none => exact .pure trivial
  | some last => exact .terminateBlock last _

end Ir.Build

def Ir.Operand.SameVoid (o o' : Operand) : Prop := o = .const .void ↔ o' = .const .void

/-- The functions return the same type; about their code nothing is said. -/
def Link.anyCode : Link where
  operand := Operand.SameVoid
  block _ _ := True
  ending _ _ := True
  builder := Build.SameRet
  const _ hij := ⟨Iff.rfl, hij⟩
  void _ _ h := h
  grow h hb := h _ _ hb
  ret h := h
  createBlock := Build.KeepsRet.createBlock.agrees .createBlock fun _ _ _ _ => trivial
  switchTo _ := (Build.KeepsRet.switchTo _).agrees (.switchTo _) fun _ _ _ _ => trivial
  ensureOpen := Build.KeepsRet.ensureOpen.agrees .ensureOpen fun _ _ _ _ => trivial
  push hij _ := by
    refine (Build.KeepsRet.push _ _).agrees (.push _ _) ?_
    rintro _ _ ⟨id, rfl⟩ ⟨id', rfl⟩
    exact ⟨by simp [Operand.SameVoid, Value.ofLocal], hij⟩
  pushVoid hij _ := by
    refine (Build.KeepsRet.pushVoid _ _).agrees (.pushVoid _ _) ?_
    rintro _ _ rfl rfl
    exact ⟨Iff.rfl, hij⟩
  terminateBlock _ _ := (Build.KeepsRet.terminateBlock _ _).agrees (.terminateBlock _ _)
    fun _ _ _ _ => trivial
  terminate _ := (Build.KeepsRet.terminate _).agrees (.terminate _) fun _ _ _ _ => trivial
  terminateIfOpen _ := (Build.KeepsRet.terminateIfOpen _).agrees (.terminateIfOpen _)
    fun _ _ _ _ => trivial
  closeAt _ _ := (Build.KeepsRet.closeAt _ _).agrees (.closeAt _ _) fun _ _ _ _ => trivial
  openEnd _ _ _ := trivial

/-- What can be named in two functions with the same code can be named whatever their code. -/
theorem SameContext.anyCode {s t : TypeStore} {ctx ctx' : FnContext}
    (hc : SameContext Link.sameCode s t ctx ctx') : SameContext Link.anyCode s t ctx ctx' :=
  { hc with
    scope := fun name => (hc.scope name).imp fun v v' hv => by
      have hsame : v.operand = v'.operand := hv.operand
      exact ⟨hsame ▸ Iff.rfl, hv.type⟩ }

namespace Lower

variable {α β : Type} {L : Link} {m : Lower α} {m' : Lower β} {σ σ' τ : FnState}
  {Q : TypeStore → TypeStore → α → β → Prop}

theorem Ends.not_breaks {P : α → FnState → Prop} {E : FnState → Prop} (h : Ends m σ P E) :
    ¬ Breaks m σ := by
  rintro ⟨e, hon, τ, hrun⟩
  exact hon (h _ τ hrun).1

theorem Agrees.of_run {r : Except Fault α} {P : α → FnState → Prop} {P' : β → FnState → Prop}
    {E E' : FnState → Prop} (h : Agrees L m m' σ σ' Q) (hm : Ends m σ P E) (hm' : Ends m' σ' P' E')
    (hrun : runOn m σ = (r, τ)) :
    ∃ r' τ', runOn m' σ' = (r', τ') ∧ L.Onward σ σ' τ τ' ∧ (r.isOk = true → r'.isOk = true) := by
  obtain hbreak | hbreak | ⟨υ, υ', hon, ⟨a, a', ha, ha', hq⟩ | ⟨f, hf, hf'⟩⟩ := h
  · exact absurd hbreak hm.not_breaks
  · exact absurd hbreak hm'.not_breaks
  · rw [hrun] at ha
    cases ha
    exact ⟨_, υ', ha', hon, fun _ => rfl⟩
  · rw [hrun] at hf
    cases hf
    exact ⟨_, υ', hf', hon, id⟩

end Lower

end Midend
