import Midend.Lower.Stmt
import Midend.Proofs.Store

/-!
# Midend.Proofs.Steps

What the steps of lowering come to when they are run, one combinator at a time. `runOn` is the run
of any of the three kinds of steps: typings, passes and lowerings.
-/

namespace Midend

open Ir

/-- An error that is found in the input, not by the verifier. -/
def LowerError.Genuine (e : LowerError) : Prop := ∀ v, e ≠ .malformed v

/-- An error that is found where it is: in a declaration, a statement or an expression. -/
def LowerError.Plain : LowerError → Prop
  | .malformed _ | .missingReturn _ _ => False
  | _ => True

theorem LowerError.Plain.genuine {e : LowerError} (h : e.Plain) : e.Genuine := by
  rintro v rfl
  exact h

/-- More errors were reported, each where it was found. -/
def Reporting (es es' : List LowerError) : Prop := ∃ new, es' = es ++ new ∧ ∀ e ∈ new, e.Plain

namespace Reporting

variable {es es₁ es₂ : List LowerError}

theorem refl (es : List LowerError) : Reporting es es := ⟨[], by simp, by simp⟩

theorem one (es : List LowerError) {e : LowerError} (he : e.Plain) : Reporting es (es ++ [e]) :=
  ⟨[e], rfl, by simpa using he⟩

theorem trans (h₁ : Reporting es es₁) (h₂ : Reporting es₁ es₂) : Reporting es es₂ := by
  obtain ⟨new, rfl, hnew⟩ := h₁
  obtain ⟨new', rfl, hnew'⟩ := h₂
  refine ⟨new ++ new', List.append_assoc _ _ _, fun e he => ?_⟩
  exact (List.mem_append.mp he).elim (hnew e) (hnew' e)

theorem isPrefix (h : Reporting es es₁) : es <+: es₁ := by
  obtain ⟨new, rfl, _⟩ := h
  exact List.prefix_append es new

end Reporting

/-- A failure that breaks no contract. -/
def Fault.Tame : Fault → Prop
  | .report e => e.Plain
  | .abort _ => True
  | .breach _ => False

/-- The outcome of a step, and the state it leaves. -/
def runOn {σ α : Type} (m : ExceptT Fault (StateM σ) α) (s : σ) : Except Fault α × σ := m.run s

section Run

variable {σ α β : Type}

@[simp] theorem runOn_pure (a : α) (s : σ) :
    runOn (pure a : ExceptT Fault (StateM σ) α) s = (.ok a, s) := rfl

@[simp] theorem runOn_throw (f : Fault) (s : σ) :
    runOn (throw f : ExceptT Fault (StateM σ) α) s = (.error f, s) := rfl

@[simp] theorem runOn_get (s : σ) :
    runOn (get : ExceptT Fault (StateM σ) σ) s = (.ok s, s) := rfl

@[simp] theorem runOn_set (s' s : σ) :
    runOn (set s' : ExceptT Fault (StateM σ) PUnit) s = (.ok ⟨⟩, s') := rfl

@[simp] theorem runOn_modify (f : σ → σ) (s : σ) :
    runOn (modify f : ExceptT Fault (StateM σ) PUnit) s = (.ok ⟨⟩, f s) := rfl

theorem runOn_bind (x : ExceptT Fault (StateM σ) α) (f : α → ExceptT Fault (StateM σ) β) (s : σ) :
    runOn (x >>= f) s =
      match runOn x s with
      | (.ok a, s') => runOn (f a) s'
      | (.error e, s') => (.error e, s') := by
  show (ExceptT.bindCont f (x s).1) (x s).2 =
    match x s with
    | (.ok a, s') => f a s'
    | (.error e, s') => (.error e, s')
  obtain ⟨r, s'⟩ := x s
  cases r <;> rfl

theorem runOn_bind_ok {x : ExceptT Fault (StateM σ) α} {f : α → ExceptT Fault (StateM σ) β}
    {s s' : σ} {a : α} (h : runOn x s = (.ok a, s')) :
    runOn (x >>= f) s = runOn (f a) s' := by
  rw [runOn_bind, h]

theorem runOn_bind_error {x : ExceptT Fault (StateM σ) α} {f : α → ExceptT Fault (StateM σ) β}
    {s s' : σ} {e : Fault} (h : runOn x s = (.error e, s')) :
    runOn (x >>= f) s = (.error e, s') := by
  rw [runOn_bind, h]

theorem runOn_bind_eq_ok {x : ExceptT Fault (StateM σ) α} {f : α → ExceptT Fault (StateM σ) β}
    {s s' : σ} {b : β} (h : runOn (x >>= f) s = (.ok b, s')) :
    ∃ a s₁, runOn x s = (.ok a, s₁) ∧ runOn (f a) s₁ = (.ok b, s') := by
  obtain ⟨r, s₁, hx⟩ : ∃ r s₁, runOn x s = (r, s₁) := ⟨_, _, rfl⟩
  cases r with
  | ok a => exact ⟨a, s₁, hx, by rw [← runOn_bind_ok hx]; exact h⟩
  | error e =>
    rw [runOn_bind_error hx] at h
    cases h

end Run

namespace Typing

theorem runOn_ofStore {α : Type} (f : TypeStore → α × TypeStore) (s : TypeStore) :
    runOn (ofStore f) s = (.ok (f s).1, (f s).2) := rfl

theorem runOn_ask {α : Type} (f : TypeStore → Except Breach α) (s : TypeStore) :
    runOn (ask f) s =
      match f s with
      | .ok a => (.ok a, s)
      | .error b => (.error (.breach b), s) := rfl

theorem runOn_body {s : TypeStore} {id : TypeId} {ty : Ty} (h : s.body? id = some ty) :
    runOn (body id) s = (.ok ty, s) := by
  rw [body, runOn_ask, TypeStore.body_eq h]

theorem runOn_ref {s : TypeStore} {id : TypeId} {text : String} (h : s.ref? id = some text) :
    runOn (ref id) s = (.ok text, s) := by
  rw [ref, runOn_ask, TypeStore.ref, h]

theorem runOn_attempt {α : Type} (m : Typing α) (s : TypeStore) :
    runOn (attempt m) s =
      match runOn m s with
      | (.ok a, s') => (.ok (some a), s')
      | (.error (.breach b), s') => (.error (.breach b), s')
      | (.error _, s') => (.ok none, s') := rfl

end Typing

namespace Pass

theorem runOn_recover {α : Type} (m : Typing α) (s : Session) :
    runOn (recover m) s =
      match runOn m s.types with
      | (.ok a, types) => (.ok (some a), { s with types := types })
      | (.error (.report e), types) =>
        (.ok none, { s with types := types, errors := s.errors ++ [e] })
      | (.error f, types) => (.error f, { s with types := types }) := rfl

theorem runOn_report (e : LowerError) (s : Session) :
    runOn (report e) s = (.ok (), ⟨s.types, s.errors ++ [e]⟩) := rfl

/-- From `s` the pass comes to a result with the property, or is ended without breaking a contract.
-/
def Comes {α : Type} (m : Pass α) (s : Session) (Q : α → Session → Prop) : Prop :=
  (∃ a s', runOn m s = (.ok a, s') ∧ Q a s') ∨ ∃ f s', runOn m s = (.error f, s') ∧ f.Tame

namespace Comes

variable {α β : Type} {s s₁ : Session} {P Q : α → Session → Prop} {R : β → Session → Prop}

theorem of_run {m : Pass α} {a : α} (h : runOn m s = (.ok a, s₁)) (hq : Q a s₁) : Comes m s Q :=
  .inl ⟨a, s₁, h, hq⟩

theorem pure {a : α} (hq : Q a s) : Comes (Pure.pure a) s Q := of_run (runOn_pure a s) hq

theorem abort {u : Unsupported} : Comes (MonadExcept.throw (Fault.abort u)) s Q :=
  .inr ⟨.abort u, s, runOn_throw _ s, trivial⟩

theorem bind {x : Pass α} {f : α → Pass β} (hx : Comes x s P)
    (hf : ∀ a s₁, runOn x s = (.ok a, s₁) → P a s₁ → Comes (f a) s₁ R) : Comes (x >>= f) s R := by
  rcases hx with ⟨a, s₁, hrun, hp⟩ | ⟨e, s₁, hrun, htame⟩
  · rcases hf a s₁ hrun hp with ⟨b, s₂, hrun₂, hr⟩ | ⟨e, s₂, hrun₂, htame⟩
    · exact .inl ⟨b, s₂, by rw [runOn_bind_ok hrun, hrun₂], hr⟩
    · exact .inr ⟨e, s₂, by rw [runOn_bind_ok hrun, hrun₂], htame⟩
  · exact .inr ⟨e, s₁, runOn_bind_error hrun, htame⟩

theorem next {x : Pass α} {f : α → Pass β} {a : α} (h : runOn x s = (.ok a, s₁))
    (hf : Comes (f a) s₁ R) : Comes (x >>= f) s R := by
  refine bind (P := fun a' s' => a' = a ∧ s' = s₁) (of_run h ⟨rfl, rfl⟩) ?_
  rintro _ _ - ⟨rfl, rfl⟩
  exact hf

theorem mono {m : Pass α} (h : Comes m s P) (hq : ∀ a s₁, P a s₁ → Q a s₁) : Comes m s Q := by
  rcases h with ⟨a, s₁, hrun, hp⟩ | hfail
  · exact .inl ⟨a, s₁, hrun, hq a s₁ hp⟩
  · exact .inr hfail

theorem of_ok {m : Pass α} {a : α} (h : Comes m s Q) (hrun : runOn m s = (.ok a, s₁)) : Q a s₁ := by
  rcases h with ⟨_, _, hrun', hq⟩ | ⟨_, _, hrun', _⟩
  · rw [hrun] at hrun'
    cases hrun'
    exact hq
  · rw [hrun] at hrun'
    cases hrun'

end Comes

end Pass

namespace Lower

theorem runOn_typing {α : Type} (m : Typing α) (s : FnState) :
    runOn (typing m) s = ((runOn m s.types).1, { s with types := (runOn m s.types).2 }) := rfl

theorem runOn_build {α : Type} (m : Build α) (s : FnState) :
    runOn (build m) s =
      match m.run s.builder with
      | .ok (a, builder) => (.ok a, { s with builder := builder })
      | .error b => (.error (.breach b), s) := rfl

theorem runOn_report (e : LowerError) (s : FnState) :
    runOn (report e) s = (.ok (), { s with errors := s.errors ++ [e] }) := rfl

theorem runOn_recover {α : Type} (m : Lower α) (s : FnState) :
    runOn (recover m) s =
      match runOn m s with
      | (.ok a, s') => (.ok (some a), s')
      | (.error (.report e), s') => (.ok none, { s' with errors := s'.errors ++ [e] })
      | (.error f, s') => (.error f, s') := rfl

theorem runOn_outcome {α : Type} (m : Lower α) (s : FnState) :
    runOn (outcome m) s = (.ok (runOn m s).1, (runOn m s).2) := rfl

theorem runOn_ofOutcome {α : Type} (r : Except Fault α) (s : FnState) :
    runOn (ofOutcome r) s = (r, s) := rfl

end Lower

end Midend
