import Midend.Proofs.Scene

/-!
# Midend.Proofs.Spec

What a step of lowering comes to from a draft: it ends in a draft again, breaks no contract, and has
one property if it succeeds and another if it fails. `Evals` and `Does` are the two uses of it, for
expressions, which keep to `EvalStep` even where they fail, and for statements.
-/

namespace Midend

open Ir

variable {ctx : FnContext} {α β : Type} {g g₁ : Draft ctx}

/-- From the draft the step comes to a draft with the property `Q` if it succeeds, or fails with a
fault that breaks no contract, at a draft with the property `E`. -/
def Spec (m : Lower α) (g : Draft ctx) (Q : α → Draft ctx → Prop)
    (E : Fault → Draft ctx → Prop) : Prop :=
  (∃ a g', runOn m g.toFnState = (.ok a, Draft.toFnState g') ∧ Q a g') ∨
    ∃ f g', runOn m g.toFnState = (.error f, Draft.toFnState g') ∧ f.Tame ∧ E f g'

namespace Spec

variable {P Q : α → Draft ctx → Prop} {R : β → Draft ctx → Prop}
  {E F : Fault → Draft ctx → Prop}

theorem of_run {m : Lower α} {a : α} (h : runOn m g.toFnState = (.ok a, g₁.toFnState))
    (hq : Q a g₁) : Spec m g Q E := .inl ⟨a, g₁, h, hq⟩

theorem pure {a : α} (hq : Q a g) : Spec (pure a) g Q E := of_run (runOn_pure a _) hq

theorem throw {f : Fault} (hf : f.Tame) (he : E f g) : Spec (throw f : Lower α) g Q E :=
  .inr ⟨f, g, runOn_throw f _, hf, he⟩

theorem bind {x : Lower α} {f : α → Lower β} (hx : Spec x g P F)
    (hf : ∀ a g₁, P a g₁ → Spec (f a) g₁ R E) (he : ∀ e g₁, F e g₁ → E e g₁) :
    Spec (x >>= f) g R E := by
  rcases hx with ⟨a, g₁, hrun, hp⟩ | ⟨e, g₁, hrun, htame, hfail⟩
  · rcases hf a g₁ hp with ⟨b, g₂, hrun₂, hr⟩ | ⟨e, g₂, hrun₂, htame, hfail⟩
    · exact .inl ⟨b, g₂, by rw [runOn_bind_ok hrun, hrun₂], hr⟩
    · exact .inr ⟨e, g₂, by rw [runOn_bind_ok hrun, hrun₂], htame, hfail⟩
  · exact .inr ⟨e, g₁, runOn_bind_error hrun, htame, he e g₁ hfail⟩

theorem next {x : Lower α} {f : α → Lower β} {a : α}
    (h : runOn x g.toFnState = (.ok a, g₁.toFnState)) (hf : Spec (f a) g₁ R E) :
    Spec (x >>= f) g R E :=
  bind (P := fun a' g' => a' = a ∧ g' = g₁) (F := fun _ _ => False) (of_run h ⟨rfl, rfl⟩)
    (by rintro _ _ ⟨rfl, rfl⟩; exact hf) fun _ _ h => h.elim

theorem mono {m : Lower α} (h : Spec m g P F) (hq : ∀ a g₁, P a g₁ → Q a g₁)
    (he : ∀ e g₁, F e g₁ → E e g₁) : Spec m g Q E := by
  rcases h with ⟨a, g₁, hrun, hp⟩ | ⟨e, g₁, hrun, htame, hfail⟩
  · exact .inl ⟨a, g₁, hrun, hq a g₁ hp⟩
  · exact .inr ⟨e, g₁, hrun, htame, he e g₁ hfail⟩

/-- An error to be reported is reported; nothing else is recovered from. -/
theorem recover {m : Lower α} {Q : Option α → Draft ctx → Prop} (h : Spec m g P F)
    (hok : ∀ a g₁, P a g₁ → Q (some a) g₁)
    (hnone : ∀ e g₁ (he : e.Plain), F (.report e) g₁ → Q none (g₁.report e he.genuine))
    (habort : ∀ u g₁, F (.abort u) g₁ → E (.abort u) g₁) : Spec (Lower.recover m) g Q E := by
  rcases h with ⟨a, g₁, hrun, hp⟩ | ⟨f, g₁, hrun, htame, hfail⟩
  · exact .inl ⟨some a, g₁, by rw [Lower.runOn_recover, hrun], hok a g₁ hp⟩
  · cases f with
    | report e =>
      exact .inl ⟨none, g₁.report e htame.genuine, by rw [Lower.runOn_recover, hrun]; rfl,
        hnone e g₁ htame hfail⟩
    | abort u =>
      exact .inr ⟨.abort u, g₁, by rw [Lower.runOn_recover, hrun], trivial, habort u g₁ hfail⟩
    | breach b => exact htame.elim

/-- The outcome is kept for later, whatever it is. -/
theorem outcome {m : Lower α} {Q : Except Fault α → Draft ctx → Prop} (h : Spec m g P F)
    (hok : ∀ a g₁, P a g₁ → Q (.ok a) g₁)
    (herror : ∀ f g₁, f.Tame → F f g₁ → Q (.error f) g₁) : Spec (Lower.outcome m) g Q E := by
  rcases h with ⟨a, g₁, hrun, hp⟩ | ⟨f, g₁, hrun, htame, hfail⟩
  · exact of_run (by rw [Lower.runOn_outcome, hrun]) (hok a g₁ hp)
  · exact of_run (by rw [Lower.runOn_outcome, hrun]) (herror f g₁ htame hfail)

theorem typing {m : Typing α} {P : α → TypeStore → Prop} (h : m.Adds g.types P)
    (hok : ∀ a types hle hw, P a types → (∀ t, types ≤ t → runOn m t = (.ok a, t)) →
      Q a (g.grow types hle hw))
    (herror : ∀ f types hle hw, E f (g.grow types hle hw)) : Spec (Lower.typing m) g Q E := by
  rcases h.cases with ⟨a, types, hrun, hle, hw, hp, hagain⟩ | ⟨f, types, hrun, hle, hw, htame⟩
  · exact .inl ⟨a, g.grow types hle hw, by rw [Lower.runOn_typing, hrun]; rfl,
      hok a types hle hw hp hagain⟩
  · exact .inr ⟨f, g.grow types hle hw, by rw [Lower.runOn_typing, hrun]; rfl, htame,
      herror f types hle hw⟩

end Spec

/-- The step goes on as an expression does. -/
def Evals (m : Lower α) (g : Draft ctx) (P : α → Draft ctx → Prop) : Prop :=
  Spec m g (fun a g' => g.EvalStep g' ∧ P a g') fun _ g' => g.EvalStep g'

namespace Evals

variable {P Q : α → Draft ctx → Prop} {R : β → Draft ctx → Prop}

theorem pure (hopen : g.Open g.cur) {a : α} (hq : Q a g) : Evals (pure a) g Q :=
  Spec.pure ⟨.refl hopen, hq⟩

theorem throw (hopen : g.Open g.cur) {f : Fault} (hf : f.Tame) :
    Evals (throw f : Lower α) g Q := Spec.throw hf (.refl hopen)

theorem abort (hopen : g.Open g.cur) {u : Unsupported} :
    Evals (MonadExcept.throw (Fault.abort u) : Lower α) g Q := throw hopen (f := .abort u) trivial

theorem throw_bind (hopen : g.Open g.cur) {f : Fault} (hf : f.Tame) {k : α → Lower β} :
    Evals ((MonadExcept.throw f : Lower α) >>= k) g R :=
  Spec.bind (P := fun _ _ => False) (F := fun _ g₁ => g.EvalStep g₁)
    (Spec.throw hf (.refl hopen)) (fun _ _ h => h.elim) fun _ _ h => h

theorem abort_bind (hopen : g.Open g.cur) {u : Unsupported} {k : α → Lower β} :
    Evals ((MonadExcept.throw (Fault.abort u) : Lower α) >>= k) g R :=
  throw_bind hopen (f := .abort u) trivial

theorem bind {x : Lower α} {f : α → Lower β} (hx : Evals x g P)
    (hf : ∀ a g₁, g.EvalStep g₁ → P a g₁ → Evals (f a) g₁ R) : Evals (x >>= f) g R := by
  refine Spec.bind (F := fun _ g₁ => g.EvalStep g₁) hx ?_ fun _ _ h => h
  rintro a g₁ ⟨hstep, hp⟩
  exact (hf a g₁ hstep hp).mono (fun b g₂ h => ⟨hstep.trans h.1, h.2⟩)
    fun _ g₂ h => hstep.trans h

theorem next {x : Lower α} {f : α → Lower β} {a : α}
    (h : runOn x g.toFnState = (.ok a, g.toFnState)) (hf : Evals (f a) g R) :
    Evals (x >>= f) g R := Spec.next h hf

theorem mono {m : Lower α} (h : Evals m g P) (hq : ∀ a g₁, g.EvalStep g₁ → P a g₁ → Q a g₁) :
    Evals m g Q := Spec.mono h (fun a g₁ hp => ⟨hp.1, hq a g₁ hp.1 hp.2⟩) fun _ _ h => h

theorem typing (hopen : g.Open g.cur) {m : Typing α} {P : α → TypeStore → Prop}
    (h : m.Adds g.types P)
    (hok : ∀ a types hle hw, P a types → (∀ t, types ≤ t → runOn m t = (.ok a, t)) →
      Q a (g.grow types hle hw)) : Evals (Lower.typing m) g Q :=
  Spec.typing h (fun a types hle hw hp hagain => ⟨.grow hopen hle hw, hok a types hle hw hp hagain⟩)
    fun _ _ hle hw => .grow hopen hle hw

theorem push {type : TypeId} {operation : Operation} {Q : Value → Draft ctx → Prop}
    (h : g.Emits type operation) (htype : g.types.Proper type) (hphi : operation.isPhi = false)
    (hq : Q (.ofLocal ⟨g.builder.locals.size⟩ type) (g.push type operation h htype)) :
    Evals (Lower.push type operation) g Q := Spec.of_run (g.run_push h htype) ⟨.push hphi, hq⟩

theorem recover {m : Lower α} (h : Evals m g P) :
    Evals (Lower.recover m) g fun r g' =>
      match r with
      | some a => P a g'
      | none => g'.errors ≠ g.errors := by
  refine Spec.recover h (fun _ _ hp => hp) (fun e g₁ he hstep => ?_) fun _ _ hstep => hstep
  have hreport : g₁.EvalStep (g₁.report e he.genuine) := .report hstep.opened he
  refine ⟨hstep.trans hreport, fun hsame => ?_⟩
  have hnone := hstep.toLe.errors_right hreport.toLe hsame
  simp [Draft.report] at hnone

theorem ref {id : TypeId} {f : String → Lower β} (h : g.types.Has id)
    (hf : ∀ text, Evals (f text) g R) : Evals (Lower.ref id >>= f) g R := by
  obtain ⟨text, htext⟩ := g.run_ref h
  exact next htext (hf text)

theorem body {id : TypeId} {t : Ty} {f : Ty → Lower β} (h : g.types.body? id = some t)
    (hf : Evals (f t) g R) : Evals (Lower.body id >>= f) g R := next (g.run_body h) hf

end Evals

/-- The step goes on as a statement does. -/
def Does (m : Lower α) (g : Draft ctx) (P : α → Draft ctx → Prop) : Prop :=
  Spec m g (fun a g' => g.Step g' ∧ P a g') fun _ _ => True

namespace Does

variable {P Q : α → Draft ctx → Prop} {R : β → Draft ctx → Prop}

theorem pure {a : α} (hq : Q a g) : Does (pure a) g Q := Spec.pure ⟨.refl g, hq⟩

theorem throw {f : Fault} (hf : f.Tame) : Does (throw f : Lower α) g Q := Spec.throw hf trivial

theorem abort {u : Unsupported} : Does (MonadExcept.throw (Fault.abort u) : Lower α) g Q :=
  throw (f := .abort u) trivial

theorem bind {x : Lower α} {f : α → Lower β} (hx : Does x g P)
    (hf : ∀ a g₁, g.Step g₁ → P a g₁ → Does (f a) g₁ R) : Does (x >>= f) g R := by
  refine Spec.bind (F := fun _ _ => True) hx ?_ fun _ _ h => h
  rintro a g₁ ⟨hstep, hp⟩
  exact (hf a g₁ hstep hp).mono (fun b g₂ h => ⟨hstep.trans h.1, h.2⟩) fun _ _ h => h

/-- What an expression does, a statement may do. -/
theorem of_evals {m : Lower α} (h : Evals m g P) :
    Does m g fun a g' => g.EvalStep g' ∧ P a g' :=
  Spec.mono h (fun _ _ hp => ⟨hp.1.toStep, hp⟩) fun _ _ _ => trivial

theorem next {x : Lower α} {f : α → Lower β} {a : α}
    (h : runOn x g.toFnState = (.ok a, g₁.toFnState)) (hstep : g.Step g₁)
    (hf : Does (f a) g₁ R) : Does (x >>= f) g R :=
  Spec.next h (Spec.mono hf (fun _ _ h => ⟨hstep.trans h.1, h.2⟩) fun _ _ h => h)

theorem mono {m : Lower α} (h : Does m g P) (hq : ∀ a g₁, g.Step g₁ → P a g₁ → Q a g₁) :
    Does m g Q := Spec.mono h (fun a g₁ hp => ⟨hp.1, hq a g₁ hp.1 hp.2⟩) fun _ _ h => h

theorem body {id : TypeId} {t : Ty} {f : Ty → Lower β} (h : g.types.body? id = some t)
    (hf : Does (f t) g R) : Does (Lower.body id >>= f) g R := next (g.run_body h) (.refl g) hf

end Does

end Midend
