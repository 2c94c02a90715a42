import Midend.Proofs.Scene

/-!
# Midend.Proofs.Reach

What the code of a statement comes to. `Scene.Reaches` is about one run, by the outcome that the
source has: control falls through, the function returns, or the machine is still under way after as
many steps as there was fuel. `Performs` is about all runs.

A block may be sealed long after its code was made, when the cursor is elsewhere (`Draft.Seals`).
-/

namespace Midend

open Ir

variable {ctx : FnContext} {g g' g₁ g₂ f : Draft ctx}

namespace Draft

/-- The block got the terminator, and no instruction more. -/
def Seals (g f : Draft ctx) (i : BlockId) (t : Terminator) : Prop :=
  ∃ blk, g.builder.block? i = some blk ∧
    f.builder.block? i = some { blk with terminator := some t }

/-- The cursor is at the start of a block that has no code yet. -/
def Starts (g : Draft ctx) : Prop := g.builder.block? g.cur = some (Block.fresh g.cur)

variable {i : BlockId} {t : Terminator}

theorem Seals.mono (h : Seals g f i t) (hb : f.builder.Le g'.builder) : Seals g g' i t := by
  obtain ⟨blk, hblk, hsealed⟩ := h
  exact ⟨blk, hblk, hb.sealed hsealed rfl⟩

theorem Seals.back (h : Seals g₁ f i t) (hkept : g₁.builder.block? i = g.builder.block? i) :
    Seals g f i t := by
  obtain ⟨blk, hblk, hsealed⟩ := h
  exact ⟨blk, hkept ▸ hblk, hsealed⟩

theorem seals_close {h : g.Closes i t} : Seals g (g.close i t h) i t := by
  obtain ⟨blk, hblk, _⟩ := h.opened
  exact ⟨blk, hblk, Builder.block?_closed_self hblk⟩

theorem Starts.opened (h : g.Starts) : g.Open g.cur := ⟨_, h, rfl⟩

end Draft

namespace Scene

variable {V : Type} {s : Scene ctx V} {env : Locals V} {calls : List (Call V)}

theorem step_br (h : Draft.Seals g f g.cur (.br g'.cur)) (hc : s.Covers f) (hstart : g'.Starts)
    (prev : Option BlockId) :
    s.step (g.spot prev env calls) = .to (g'.spot (some g.cur) env calls) := by
  obtain ⟨blk, hblk, hsealed⟩ := h
  rw [step_end hc hblk hsealed, ← enter_eq rfl hstart prev]
  rfl

theorem leads_br (h : Draft.Seals g f g.cur (.br g'.cur)) (hc : s.Covers f) (hstart : g'.Starts) :
    s.Leads g g' env env calls calls :=
  ⟨fun prev => ⟨1, some g.cur, .single (step_br h hc hstart prev)⟩, fun _ _ => rfl⟩

theorem leads_condBr {v : Value} {x : Datum V} {k k' : BlockId}
    (h : Draft.Seals g f g.cur (.condBr v k k')) (hc : s.Covers f) (hx : s.Holds env v x)
    (hstart : g'.Starts) (hcur : g'.cur = if s.interp.holds x.value then k else k') :
    s.Leads g g' env env calls calls := by
  obtain ⟨blk, hblk, hsealed⟩ := h
  refine ⟨fun prev => ⟨1, some g.cur, .single ?_⟩, fun _ _ => rfl⟩
  have hread : s.read (g.spot prev env calls).locals v = some x.value := hx.read
  rw [step_end hc hblk hsealed, ← enter_eq rfl hstart prev]
  simp only [Machine.leave, hread, hcur]

theorem returns_none (h : Draft.Seals g f g.cur (.ret none)) (hc : s.Covers f)
    (prev : Option BlockId) : s.Returns (g.spot prev env calls) none calls := by
  obtain ⟨blk, hblk, hsealed⟩ := h
  exact ⟨0, _, .refl, step_end hc hblk hsealed prev env calls⟩

theorem returns_some {v : Value} {x : Datum V} (h : Draft.Seals g f g.cur (.ret (some v)))
    (hc : s.Covers f) (hx : s.Holds env v x) (prev : Option BlockId) :
    s.Returns (g.spot prev env calls) (some x.value) calls := by
  obtain ⟨blk, hblk, hsealed⟩ := h
  have hread : s.read (g.spot prev env calls).locals v = some x.value := hx.read
  refine ⟨0, _, .refl, ?_⟩
  rw [step_end hc hblk hsealed]
  simp only [Machine.leave, hread]
  rfl

end Scene

namespace Scene

variable {V : Type} (s : Scene ctx V)

/-- The run from where the first draft stands ends like the outcome. If control falls through, it is
then where the second draft stands. -/
def Reaches (fuel : Nat) (g g' : Draft ctx) (env : Locals V) (calls : List (Call V)) :
    Outcome V → List (Call V) → Prop
  | .normal, calls' => g'.Open g'.cur ∧ ∃ env', s.Leads g g' env env' calls calls'
  | .returned x, calls' => ∀ prev, s.Returns (g.spot prev env calls) x calls'
  | .timeout, _ => ∀ prev, ∃ n c, fuel ≤ n ∧ s.Steps n (g.spot prev env calls) c

/-- The evaluation has an outcome, and the run ends like it. -/
def Runs (fuel : Nat) (g g' : Draft ctx) (env : Locals V) (calls : List (Call V))
    (act : Eval V (Outcome V)) : Prop :=
  ∃ o calls', act.run calls = some (o, calls') ∧ s.Reaches fuel g g' env calls o calls'

variable {s} {env env₁ env₂ : Locals V} {calls calls₁ calls₂ : List (Call V)} {fuel : Nat}
  {o : Outcome V} {act act' : Eval V (Outcome V)}

theorem Reaches.after (h₂ : s.Reaches fuel g₁ g' env₁ calls₁ o calls₂)
    (h₁ : s.Leads g g₁ env env₁ calls calls₁) (hb : g.builder.Le g₁.builder) :
    s.Reaches fuel g g' env calls o calls₂ := by
  cases o with
  | normal =>
    obtain ⟨hopen, env₂, hlead⟩ := h₂
    exact ⟨hopen, env₂, h₁.trans hlead hb⟩
  | returned x =>
    intro prev
    obtain ⟨n, prev₁, hn⟩ := h₁.steps prev
    exact (h₂ prev₁).of_steps hn
  | timeout =>
    intro prev
    obtain ⟨n, prev₁, hn⟩ := h₁.steps prev
    obtain ⟨k, c, hk, hsteps⟩ := h₂ prev₁
    exact ⟨n + k, c, Nat.le_add_left_of_le hk, hn.trans hsteps⟩

theorem Reaches.onward (h : s.Reaches fuel g g₁ env calls o calls₁)
    (hopen : g₁.Open g₁.cur → g'.Open g'.cur)
    (hlead : g₁.Open g₁.cur → ∀ env calls, s.Leads g₁ g' env env calls calls)
    (hb : g.builder.Le g₁.builder) : s.Reaches fuel g g' env calls o calls₁ := by
  cases o with
  | normal =>
    obtain ⟨hopen₁, env₁, h₁⟩ := h
    exact ⟨hopen hopen₁, env₁, h₁.trans (hlead hopen₁ env₁ calls₁) hb⟩
  | returned x => exact h
  | timeout => exact h

theorem Runs.after (h₂ : s.Runs fuel g₁ g' env₁ calls₁ act)
    (h₁ : s.Leads g g₁ env env₁ calls calls₁) (hb : g.builder.Le g₁.builder)
    (hact : act'.run calls = act.run calls₁) : s.Runs fuel g g' env calls act' := by
  obtain ⟨o, calls', hrun, hreaches⟩ := h₂
  exact ⟨o, calls', hact.trans hrun, hreaches.after h₁ hb⟩

theorem run_andThen {first second : Eval V (Outcome V)}
    (h : first.run calls = some (o, calls₁)) :
    (andThen first second).run calls =
      match o with
      | .normal => second.run calls₁
      | .returned x => some (.returned x, calls₁)
      | .timeout => some (.timeout, calls₁) := by
  unfold andThen
  cases o <;> simp [h]

/-- One after the other: what comes second matters only if control falls through the first. -/
theorem Runs.andThen {first second : Eval V (Outcome V)} (h : s.Runs fuel g g₁ env calls first)
    (hb : g.builder.Le g₁.builder)
    (h' : ∀ env₁ calls₁, g₁.Open g₁.cur → s.Leads g g₁ env env₁ calls calls₁ →
      s.Runs fuel g₁ g' env₁ calls₁ second) :
    s.Runs fuel g g' env calls (Midend.andThen first second) := by
  obtain ⟨o, calls₁, hrun, hreaches⟩ := h
  cases o with
  | normal =>
    obtain ⟨hopen, env₁, hlead⟩ := hreaches
    exact (h' env₁ calls₁ hopen hlead).after hlead hb (run_andThen hrun)
  | returned x => exact ⟨.returned x, calls₁, run_andThen hrun, hreaches⟩
  | timeout => exact ⟨.timeout, calls₁, run_andThen hrun, hreaches⟩

end Scene

/-! ## Statements -/

/-- If nothing was reported, the code from one draft to the other does what the statement does. -/
def Performs (g g' : Draft ctx)
    (act : ∀ {V : Type}, Scene ctx V → Nat → Eval V (Outcome V)) : Prop :=
  g'.errors = g.errors → g.Open g.cur → ∀ ⦃V : Type⦄ (s : Scene ctx V), s.Covers g' →
    ∀ fuel env calls, s.Fits env → s.Runs fuel g g' env calls (act s fuel)

namespace Performs

variable {act act₁ act₂ : ∀ {V : Type}, Scene ctx V → Nat → Eval V (Outcome V)}

theorem of_errors (h : g'.errors ≠ g.errors) : Performs g g' act := fun he => absurd he h

theorem still (hb : g'.builder = g.builder)
    (hact : ∀ {V : Type} (s : Scene ctx V) fuel calls,
      (act s fuel).run calls = some (.normal, calls)) : Performs g g' act := by
  intro _ hopen V s _ fuel env calls _
  have hopen' : g'.Open g'.cur := by
    show g'.builder.Open g'.builder.cursor
    rw [hb]
    exact hopen
  exact ⟨.normal, calls, hact s fuel calls, hopen', env, .still hb⟩

theorem andThen (h₁ : Performs g g₁ act₁) (hs₁ : g.Le g₁) (h₂ : Performs g₁ g' act₂)
    (hs₂ : g₁.Le g') :
    Performs g g' fun s fuel => Midend.andThen (act₁ s fuel) (act₂ s fuel) := by
  intro herr hopen V s hc fuel env calls hfits
  have hc₁ : s.Covers g₁ := hc.of_draft_le hs₂
  refine (h₁ (hs₁.errors_left hs₂ herr) hopen s hc₁ fuel env calls hfits).andThen hs₁.builder ?_
  intro env₁ calls₁ hopen₁ hlead
  exact h₂ (hs₁.errors_right hs₂ herr) hopen₁ s hc fuel env₁ calls₁
    (hlead.fits (hc₁.of_draft_le hs₁) hfits)

theorem onward (h : Performs g g₁ act) (hs : g.Le g₁) (hs' : g₁.Le g')
    (hseals : g₁.Open g₁.cur → Draft.Seals g₁ g' g₁.cur (.br g'.cur)) (hstart : g'.Starts) :
    Performs g g' act := by
  intro herr hopen V s hc fuel env calls hfits
  obtain ⟨o, calls', hrun, hreaches⟩ :=
    h (hs.errors_left hs' herr) hopen s (hc.of_draft_le hs') fuel env calls hfits
  refine ⟨o, calls', hrun, hreaches.onward (fun _ => hstart.opened) (fun hopen₁ env calls => ?_)
    hs.builder⟩
  exact Scene.leads_br (hseals hopen₁) hc hstart

end Performs

/-- The code from one draft to the other is that of a statement: it does what the statement does,
and control falls through it exactly if `p` holds. -/
structure Renders (g g' : Draft ctx)
    (act : ∀ {V : Type}, Scene ctx V → Nat → Eval V (Outcome V)) (p : Prop) : Prop where
  performs : Performs g g' act
  falls : g'.errors = g.errors → Draft.Falls g g' p

namespace Renders

variable {act act₁ act₂ : ∀ {V : Type}, Scene ctx V → Nat → Eval V (Outcome V)} {p q : Prop}

theorem of_errors (h : g'.errors ≠ g.errors) : Renders g g' act p :=
  ⟨.of_errors h, fun he => absurd he h⟩

theorem andThen (h₁ : Renders g g₁ act₁ p) (hs₁ : g.Le g₁) (h₂ : Renders g₁ g' act₂ q)
    (hs₂ : g₁.Le g') :
    Renders g g' (fun s fuel => Midend.andThen (act₁ s fuel) (act₂ s fuel)) (p ∧ q) where
  performs := h₁.performs.andThen hs₁ h₂.performs hs₂
  falls he := (h₁.falls (hs₁.errors_left hs₂ he)).trans (h₂.falls (hs₁.errors_right hs₂ he))

end Renders

/-- The block begins where some draft stands, and from there control does what the statement does,
and goes on at `f`. -/
def Arm (g f : Draft ctx) (k : BlockId)
    (act : ∀ {V : Type}, Scene ctx V → Nat → Eval V (Outcome V)) : Prop :=
  ∃ a : Draft ctx, a.cur = k ∧ a.Starts ∧ g.Le a ∧ a.Le f ∧ Performs a f act

variable {act act' : ∀ {V : Type}, Scene ctx V → Nat → Eval V (Outcome V)} {k k' : BlockId}

theorem Arm.of_le (h : Arm g₁ f k act) (hg : g.Le g₁) : Arm g f k act := by
  obtain ⟨a, hcur, hstart, hle, hrest⟩ := h
  exact ⟨a, hcur, hstart, hg.trans hle, hrest⟩

theorem Arm.nothing (hstart : f.Starts) (hg : g.Le f) :
    Arm g f f.cur fun _ _ => return .normal :=
  ⟨f, rfl, hstart, hg, .refl f, .still rfl fun _ _ _ => rfl⟩

/-- Control comes to an arm when the code before it has run. -/
theorem Arm.runs (h : Arm g f k act) (herr : f.errors = g.errors) {V : Type} {s : Scene ctx V}
    (hc : s.Covers f) {fuel : Nat} {env env₁ : Locals V} {calls calls₁ : List (Call V)}
    (hfits : s.Fits env)
    (hlead : ∀ a : Draft ctx, a.cur = k → a.Starts → s.Leads g a env env₁ calls calls₁)
    {m : Eval V (Outcome V)} (hm : m.run calls = (act s fuel).run calls₁) :
    s.Runs fuel g f env calls m := by
  obtain ⟨a, hcur, hstart, hle, hle', hperforms⟩ := h
  have hfits₁ := (hlead a hcur hstart).fits (hc.of_draft_le (hle.trans hle')) hfits
  have hruns := hperforms (hle.errors_right hle' herr) hstart.opened s hc fuel env₁ calls₁ hfits₁
  exact hruns.after (hlead a hcur hstart) hle.builder hm

theorem Arm.performs (h : Arm g f k act) (hseals : Draft.Seals g f g.cur (.br k)) :
    Performs g f act := by
  intro herr _ V s hc fuel env calls hfits
  have hlead : ∀ a : Draft ctx, a.cur = k → a.Starts → s.Leads g a env env calls calls := by
    rintro a rfl hstart
    exact Scene.leads_br hseals hc hstart
  exact h.runs herr hc hfits hlead rfl

theorem Arm.branch {v : Value} (h : Arm g f k act) (h' : Arm g f k' act')
    (hseals : Draft.Seals g f g.cur (.condBr v k k')) (herr : f.errors = g.errors) {V : Type}
    {s : Scene ctx V} (hc : s.Covers f) {fuel : Nat} {env : Locals V} {calls : List (Call V)}
    (hfits : s.Fits env) {x : Datum V} (hx : s.Holds env v x) :
    s.Runs fuel g f env calls (if s.interp.holds x.value then act s fuel else act' s fuel) := by
  have hlead : ∀ a : Draft ctx, a.cur = (if s.interp.holds x.value then k else k') →
      a.Starts → s.Leads g a env env calls calls :=
    fun a hcur hstart => Scene.leads_condBr hseals hc hx hstart hcur
  cases hholds : s.interp.holds x.value with
  | true => exact h.runs herr hc hfits (fun a hcur => hlead a (by simp [hholds, hcur])) rfl
  | false => exact h'.runs herr hc hfits (fun a hcur => hlead a (by simp [hholds, hcur])) rfl

end Midend
