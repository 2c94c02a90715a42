import Midend.Proofs.Region
import Midend.Proofs.Steps

/-!
# Midend.Proofs.Frame

What a step of lowering leaves alone. A step that is `Flowing` touches only the region of the
cursor, from any state whose cursor is on a block and whatever becomes of it: with a value or with
an error to be reported, the code is complete, and the cursor is on an open block again if it was on
one. No contract of the builder is broken on the way.
-/

namespace Midend

open Ir

theorem exists_runOn {σ α : Type} (m : ExceptT Fault (StateM σ) α) (s : σ) :
    ∃ r t, runOn m s = (r, t) := ⟨_, _, rfl⟩

theorem runOn_of_toOption {σ α : Type} {m : ExceptT Fault (StateM σ) α} {s : σ} {a : α}
    (h : (runOn m s).1.toOption = some a) : runOn m s = (.ok a, (runOn m s).2) := by
  obtain ⟨r, t, hrun⟩ := exists_runOn m s
  rw [hrun] at h ⊢
  cases r with
  | ok _ => rw [Option.some.inj h]
  | error f => cases h

namespace Typing

/-- The step only adds types. -/
def Grows {α : Type} (m : Typing α) : Prop :=
  ∀ s r t, runOn m s = (r, t) → s ≤ t ∧ ∀ b, r = .error (.breach b) → b.OnTypes

namespace Grows

variable {α β : Type}

theorem of_same {m : Typing α} {r : TypeStore → Except Fault α} (h : ∀ s, runOn m s = (r s, s))
    (hr : ∀ s b, r s = .error (.breach b) → b.OnTypes) : Grows m := by
  intro s r' t hrun
  rw [h] at hrun
  cases hrun
  exact ⟨TypeStore.le_refl s, hr s⟩

theorem pure (a : α) : Grows (Pure.pure a : Typing α) :=
  of_same (fun s => runOn_pure a s) (by simp)

theorem report (e : LowerError) : Grows (MonadExcept.throw (Fault.report e) : Typing α) :=
  of_same (fun s => runOn_throw _ s) (by simp)

theorem abort (u : Unsupported) : Grows (MonadExcept.throw (Fault.abort u) : Typing α) :=
  of_same (fun s => runOn_throw _ s) (by simp)

theorem bind {m : Typing α} {f : α → Typing β} (hm : Grows m) (hf : ∀ a, Grows (f a)) :
    Grows (m >>= f) := by
  intro s r t hrun
  obtain ⟨r₁, s₁, hrun₁⟩ : ∃ r₁ s₁, runOn m s = (r₁, s₁) := ⟨_, _, rfl⟩
  obtain ⟨hle, hbreach⟩ := hm s r₁ s₁ hrun₁
  rw [runOn_bind, hrun₁] at hrun
  cases r₁ with
  | ok a =>
    obtain ⟨hle', hbreach'⟩ := hf a s₁ r t hrun
    exact ⟨TypeStore.le_trans hle hle', hbreach'⟩
  | error f =>
    cases hrun
    exact ⟨hle, fun b h => hbreach b (by cases h; rfl)⟩

theorem attempt {m : Typing α} (hm : Grows m) : Grows (Typing.attempt m) := by
  intro s r t hrun
  obtain ⟨r₁, s₁, hrun₁⟩ : ∃ r₁ s₁, runOn m s = (r₁, s₁) := ⟨_, _, rfl⟩
  obtain ⟨hle, hbreach⟩ := hm s r₁ s₁ hrun₁
  rw [runOn_attempt, hrun₁] at hrun
  cases r₁ with
  | ok a =>
    cases hrun
    exact ⟨hle, by simp⟩
  | error f =>
    cases f <;> cases hrun <;> refine ⟨hle, fun b h => ?_⟩
    all_goals cases h
    exact hbreach _ rfl

end Grows

theorem intern_grows {t : Ty} (ht : t.isPending = false) :
    Grows (ofStore (TypeStore.intern t)) := by
  intro s r t' hrun
  rw [runOn_ofStore] at hrun
  cases hrun
  exact ⟨TypeStore.le_intern s ht, by simp⟩

theorem bool_grows : Grows bool := intern_grows rfl

theorem struct_grows (fields : List TypeId) : Grows (struct fields) := intern_grows rfl

theorem memoized_grows (name : String) {t : Ty} (ht : t.isPending = false) :
    Grows (memoized name t) := by
  intro s r t' hrun
  rw [memoized, runOn_ofStore] at hrun
  cases hrun
  exact ⟨TypeStore.le_memoized s name ht, by simp⟩

theorem ask_grows {α : Type} {f : TypeStore → Except Breach α}
    (hf : ∀ s b, f s = .error b → b.OnTypes) : Grows (ask f) := by
  intro s r t hrun
  rw [runOn_ask] at hrun
  cases h : f s with
  | ok a =>
    rw [h] at hrun
    cases hrun
    exact ⟨TypeStore.le_refl s, by simp⟩
  | error b =>
    rw [h] at hrun
    cases hrun
    exact ⟨TypeStore.le_refl s, fun b' hb => by cases hb; exact hf s b h⟩

theorem body_grows (id : TypeId) : Grows (body id) := by
  refine ask_grows fun s b h => ?_
  unfold TypeStore.body at h
  split at h <;> cases h
  trivial

theorem ref_grows (id : TypeId) : Grows (ref id) := by
  refine ask_grows fun s b h => ?_
  unfold TypeStore.ref at h
  split at h <;> cases h
  trivial

theorem named_grows (name : String) (span : Span) : Grows (named name span) := by
  intro s r t hrun
  rw [named, runOn_bind_ok (runOn_get s)] at hrun
  cases hid : s.lookup? name with
  | some id =>
    rw [hid] at hrun
    exact Grows.pure id s r t hrun
  | none =>
    rw [hid] at hrun
    exact Grows.report _ s r t hrun

theorem complex_grows (kind : FloatKind) : Grows (complex kind) :=
  .bind (intern_grows rfl) fun _ => struct_grows _

theorem stringFields_grows : Grows stringFields :=
  .bind (intern_grows rfl) fun _ => .bind (intern_grows rfl) fun _ =>
    .bind (intern_grows rfl) fun _ => .pure _

theorem basic_grows (wordBits : Nat) (kind : BasicKind) (span : Span) :
    Grows (basic wordBits kind span) := by
  cases kind with
  | complex64 | complex128 => exact complex_grows _
  | string => exact .bind stringFields_grows fun _ => struct_grows _
  | untypedBool | untypedInt | untypedRune | untypedFloat => exact memoized_grows _ rfl
  | untypedComplex => exact .bind (memoized_grows _ rfl) fun _ => memoized_grows _ rfl
  | untypedString => exact .bind stringFields_grows fun _ => memoized_grows _ rfl
  | untypedNil => exact .bind (intern_grows rfl) fun _ => memoized_grows _ rfl
  | invalid => exact .abort _
  | _ => exact intern_grows rfl

theorem ofChecked_grows (wordBits : Nat) (span : Span) :
    ∀ t : CheckedType, Grows (ofChecked wordBits span t)
  | .basic kind => basic_grows wordBits kind span
  | .named name => named_grows name span
  | .pointer elem => by
    rw [ofChecked]
    exact .bind (ofChecked_grows wordBits span elem) fun _ => intern_grows rfl
  | .struct _ | .slice _ | .tuple _ | .signature => .abort _

end Typing

/-! ## What a step leaves alone -/

/-- The failure does not come from the builder. -/
def Fault.OffBuilder : Fault → Prop
  | .breach b => b.OnTypes
  | _ => True

namespace FnState

def on (σ : FnState) (b : Builder) : FnState := { σ with builder := b }

@[simp] theorem on_builder (σ : FnState) (b : Builder) : (σ.on b).builder = b := rfl

@[simp] theorem on_types (σ : FnState) (b : Builder) : (σ.on b).types = σ.types := rfl

@[simp] theorem on_errors (σ : FnState) (b : Builder) : (σ.on b).errors = σ.errors := rfl

@[simp] theorem on_on (σ : FnState) (b b' : Builder) : (σ.on b).on b' = σ.on b' := rfl

def OnBlock (σ : FnState) : Prop := σ.builder.cursor.index < σ.builder.size

/-- Types are only added, and code only in the region of the cursor. -/
structure Stays (exits : List BlockId) (σ τ : FnState) : Prop where
  types : σ.types ≤ τ.types
  code : Builder.Confined exits σ.builder τ.builder

/-- The same, and the cursor is on an open block if it was. -/
structure Flows (σ τ : FnState) : Prop extends Stays [] σ τ where
  opened : σ.builder.Open σ.builder.cursor → τ.builder.Open τ.builder.cursor

variable {σ τ υ : FnState} {exits : List BlockId}

theorem Stays.onBlock (h : Stays exits σ τ) : τ.OnBlock := h.code.inRange

theorem Stays.refl (exits : List BlockId) (h : σ.OnBlock) : Stays exits σ σ :=
  ⟨TypeStore.le_refl _, .refl h⟩

theorem Stays.trans (h : Stays exits σ τ) (h' : Stays exits τ υ) : Stays exits σ υ :=
  ⟨TypeStore.le_trans h.types h'.types, h.code.trans h'.code⟩

theorem Stays.weaken (h : Stays exits σ τ) {exits' : List BlockId}
    (hsub : ∀ j ∈ exits, j ∈ exits') : Stays exits' σ τ := ⟨h.types, h.code.weaken hsub⟩

theorem Flows.refl (h : σ.OnBlock) : Flows σ σ := ⟨.refl [] h, fun hopen => hopen⟩

theorem Flows.trans (h : Flows σ τ) (h' : Flows τ υ) : Flows σ υ :=
  ⟨h.toStays.trans h'.toStays, fun hopen => h'.opened (h.opened hopen)⟩

end FnState

namespace Lower

variable {α β : Type} {σ τ υ : FnState}

theorem runOn_build_ok {m : Build α} {a : α} {b : Builder} (h : m.run σ.builder = .ok (a, b)) :
    runOn (build m) σ = (.ok a, σ.on b) := by
  rw [runOn_build, h]
  rfl

theorem runOn_createBlock (σ : FnState) :
    runOn (build Build.createBlock) σ = (.ok ⟨σ.builder.size⟩, σ.on σ.builder.withBlock) :=
  runOn_build_ok Build.run_createBlock

theorem runOn_switchTo (σ : FnState) (i : BlockId) :
    runOn (build (Build.switchTo i)) σ = (.ok (), σ.on (σ.builder.moved i)) :=
  runOn_build_ok (Build.run_switchTo i)

theorem runOn_ensureOpen (hc : σ.OnBlock) : runOn (build Build.ensureOpen) σ =
    (.ok σ.builder.opened.cursor, σ.on σ.builder.opened) :=
  runOn_build_ok (Build.run_ensureOpen hc)

theorem runOn_terminateBlock {i : BlockId} (h : σ.builder.Open i) (t : Terminator) :
    runOn (build (Build.terminateBlock i t)) σ = (.ok (), σ.on (σ.builder.closed i t)) :=
  runOn_build_ok (Build.run_terminateBlock h t)

theorem runOn_terminate (h : σ.builder.Open σ.builder.cursor) (t : Terminator) :
    runOn (build (Build.terminate t)) σ =
      (.ok (), σ.on (σ.builder.closed σ.builder.cursor t)) :=
  runOn_build_ok (Build.run_terminate h t)

/-- From `σ` the step comes to a result with the property `Q`, or fails with `E`, but not because of
the builder. -/
def Ends (m : Lower α) (σ : FnState) (Q : α → FnState → Prop) (E : FnState → Prop) : Prop :=
  ∀ r τ, runOn m σ = (r, τ) →
    match r with
    | .ok a => Q a τ
    | .error f => f.OffBuilder ∧ E τ

namespace Ends

variable {P Q : α → FnState → Prop} {R : β → FnState → Prop} {E F : FnState → Prop}

theorem of_ok {m : Lower α} {a : α} (h : runOn m σ = (.ok a, τ)) (hq : Q a τ) : Ends m σ Q E := by
  intro r υ hrun
  rw [h] at hrun
  cases hrun
  exact hq

theorem of_error {m : Lower α} {f : Fault} (h : runOn m σ = (.error f, τ)) (hf : f.OffBuilder)
    (he : E τ) : Ends m σ Q E := by
  intro r υ hrun
  rw [h] at hrun
  cases hrun
  exact ⟨hf, he⟩

theorem pure {a : α} (hq : Q a σ) : Ends (Pure.pure a) σ Q E := of_ok (runOn_pure a σ) hq

theorem bind {m : Lower α} {f : α → Lower β} (hm : Ends m σ P F)
    (hf : ∀ a τ, runOn m σ = (.ok a, τ) → P a τ → Ends (f a) τ R E) (he : ∀ τ, F τ → E τ) :
    Ends (m >>= f) σ R E := by
  intro r υ hrun
  obtain ⟨r₁, τ, hrun₁⟩ : ∃ r₁ τ, runOn m σ = (r₁, τ) := ⟨_, _, rfl⟩
  have hm' := hm r₁ τ hrun₁
  rw [runOn_bind, hrun₁] at hrun
  cases r₁ with
  | ok a => exact hf a τ hrun₁ hm' r υ hrun
  | error f =>
    cases hrun
    exact ⟨hm'.1, he υ hm'.2⟩

theorem next {m : Lower α} {f : α → Lower β} {a : α} (h : runOn m σ = (.ok a, τ))
    (hf : Ends (f a) τ R E) : Ends (m >>= f) σ R E := by
  intro r υ hrun
  rw [runOn_bind_ok h] at hrun
  exact hf r υ hrun

theorem mono {m : Lower α} (h : Ends m σ P F) (hq : ∀ a τ, P a τ → Q a τ) (he : ∀ τ, F τ → E τ) :
    Ends m σ Q E := by
  intro r τ hrun
  have hr := h r τ hrun
  cases r with
  | ok a => exact hq a τ hr
  | error f => exact ⟨hr.1, he τ hr.2⟩

end Ends

/-- The step touches only the region of the cursor, wherever it begins and however it ends. -/
def Flowing (m : Lower α) : Prop :=
  ∀ σ : FnState, σ.OnBlock → Ends m σ (fun _ τ => σ.Flows τ) fun τ => σ.Flows τ

namespace Flowing

theorem pure (a : α) : Flowing (Pure.pure a : Lower α) := fun _ hc => Ends.pure (.refl hc)

theorem throw {f : Fault} (hf : f.OffBuilder) : Flowing (MonadExcept.throw f : Lower α) :=
  fun σ hc => .of_error (runOn_throw f σ) hf (.refl hc)

theorem report (e : LowerError) : Flowing (MonadExcept.throw (Fault.report e) : Lower α) :=
  throw (f := .report e) trivial

theorem abort (u : Unsupported) : Flowing (MonadExcept.throw (Fault.abort u) : Lower α) :=
  throw (f := .abort u) trivial

theorem bind {m : Lower α} {f : α → Lower β} (hm : Flowing m) (hf : ∀ a, Flowing (f a)) :
    Flowing (m >>= f) := fun σ hc =>
  (hm σ hc).bind
    (fun a τ _ h => (hf a τ h.onBlock).mono (fun _ _ h' => h.trans h') fun _ h' => h.trans h')
    fun _ h => h

theorem ofOption {f : Option α → Lower β} (hnone : Flowing (f none))
    (hsome : ∀ a, Flowing (f (some a))) : ∀ o, Flowing (f o) := by
  rintro (_ | a)
  · exact hnone
  · exact hsome a

theorem typing {m : Typing α} (hm : m.Grows) : Flowing (Lower.typing m) := by
  intro σ hc r τ hrun
  rw [runOn_typing] at hrun
  obtain ⟨r', t, hrun'⟩ : ∃ r' t, runOn m σ.types = (r', t) := ⟨_, _, rfl⟩
  obtain ⟨hle, hbreach⟩ := hm σ.types r' t hrun'
  rw [hrun'] at hrun
  have hflows : σ.Flows { σ with types := t } := ⟨⟨hle, .refl hc⟩, fun hopen => hopen⟩
  cases hrun
  cases r' with
  | ok a => exact hflows
  | error f =>
    refine ⟨?_, hflows⟩
    cases f with
    | breach b => exact hbreach b rfl
    | report e => trivial
    | abort u => trivial

theorem build {m : Build α} {f : Builder → α × Builder}
    (hrun : ∀ b : Builder, b.cursor.index < b.size → m.run b = .ok (f b))
    (hcode : ∀ b : Builder, b.cursor.index < b.size → Builder.Confined [] b (f b).2)
    (hopen : ∀ b : Builder, b.cursor.index < b.size → (f b).2.Open (f b).2.cursor) :
    Flowing (Lower.build m) := fun σ hc =>
  .of_ok (a := (f σ.builder).1) (τ := { σ with builder := (f σ.builder).2 })
    (by rw [runOn_build, hrun σ.builder hc])
    ⟨⟨TypeStore.le_refl _, hcode _ hc⟩, fun _ => hopen _ hc⟩

theorem ensureOpen : Flowing (Lower.build Build.ensureOpen) :=
  build (fun _ hc => Build.run_ensureOpen hc) (fun _ hc => .opened hc) fun _ hc =>
    Builder.open_opened hc

theorem recover {m : Lower α} (hm : Flowing m) : Flowing (Lower.recover m) := by
  intro σ hc r τ hrun
  obtain ⟨r', υ, hrun'⟩ : ∃ r' υ, runOn m σ = (r', υ) := ⟨_, _, rfl⟩
  have hr := hm σ hc r' υ hrun'
  rw [runOn_recover, hrun'] at hrun
  cases r' with
  | ok a =>
    cases hrun
    exact hr
  | error f =>
    cases f with
    | report e =>
      cases hrun
      exact ⟨⟨hr.2.types, hr.2.code⟩, hr.2.opened⟩
    | abort u =>
      cases hrun
      exact hr
    | breach b =>
      cases hrun
      exact hr

theorem push (type : TypeId) (operation : Operation) : Flowing (Lower.push type operation) :=
  build (f := fun b => (.ofLocal ⟨b.locals.size⟩ type, b.opened.pushed type operation))
    (fun _ hc => Build.run_push_opened hc type operation)
    (fun _ hc => (Builder.Confined.opened hc).trans
      (.pushed (Builder.open_opened hc) type operation))
    fun _ hc => Builder.open_emitted.mpr (Builder.open_opened hc)

theorem pushVoid (type : TypeId) (operation : Operation) :
    Flowing (Lower.build (Build.pushVoid type operation)) :=
  build (f := fun b => (.ofConst .void type, b.opened.emitted ⟨none, type, operation⟩))
    (fun _ hc => Build.run_pushVoid_opened hc type operation)
    (fun _ hc => (Builder.Confined.opened hc).trans (.emitted (Builder.open_opened hc) _))
    fun _ hc => Builder.open_emitted.mpr (Builder.open_opened hc)

theorem body (id : TypeId) : Flowing (Lower.body id) := typing (Typing.body_grows id)

theorem ref (id : TypeId) : Flowing (Lower.ref id) := typing (Typing.ref_grows id)

end Flowing

end Lower

end Midend
