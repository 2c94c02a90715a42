import Midend.Proofs.Branch
import Midend.Proofs.Rounds

/-!
# Midend.Proofs.Loop

Loops. The blocks of a loop are made first and filled one after the other: the start, the condition,
the body and what is done after each round. Where the end of a round is open, control goes back to
the condition; that is the only jump to a block that was filled before.
-/

namespace Midend

open Ir

variable {ctx : FnContext} {g g' g₁ g₂ f a b : Draft ctx} {v : Value}

namespace Scene

variable {V : Type} {s : Scene ctx V} {env env₁ env₂ : Locals V}
  {calls calls₁ calls₂ calls₃ : List (Call V)} {n fuel : Nat} {o : Outcome V}

theorem Reaches.less (h : s.Reaches fuel g g' env calls o calls₁) (hn : n ≤ fuel) :
    s.Reaches n g g' env calls o calls₁ := by
  cases o with
  | normal => exact h
  | returned x => exact h
  | timeout =>
    intro prev
    obtain ⟨k, c, hk, hsteps⟩ := h prev
    exact ⟨k, c, Nat.le_trans hn hk, hsteps⟩

theorem Reaches.around (h₁ : s.Leads g b env env₁ calls calls₁)
    (hback : ∀ prev, s.step (b.spot prev env₁ calls₁) = .to (g.spot (some b.cur) env₁ calls₁))
    (h₂ : s.Reaches n g g' env₁ calls₁ o calls₂) :
    s.Reaches (n + 1) g g' env calls o calls₂ := by
  have hsteps : ∀ prev, ∃ k, s.Steps (k + 1) (g.spot prev env calls)
      (g.spot (some b.cur) env₁ calls₁) := by
    intro prev
    obtain ⟨k, prev₁, hk⟩ := h₁.steps prev
    exact ⟨k, hk.trans (.single (hback prev₁))⟩
  cases o with
  | normal =>
    obtain ⟨hopen, env₂, hlead⟩ := h₂
    have haround : s.Leads g g env env₁ calls calls₁ := by
      refine ⟨fun prev => ?_, h₁.kept⟩
      obtain ⟨k, hk⟩ := hsteps prev
      exact ⟨_, _, hk⟩
    exact ⟨hopen, env₂, haround.trans hlead (.refl _)⟩
  | returned x =>
    intro prev
    obtain ⟨k, hk⟩ := hsteps prev
    exact (h₂ _).of_steps hk
  | timeout =>
    intro prev
    obtain ⟨k, hk⟩ := hsteps prev
    obtain ⟨j, c, hj, hrest⟩ := h₂ (some b.cur)
    exact ⟨k + 1 + j, c, by omega, hk.trans hrest⟩

variable {cond : Eval V Bool} {round : Eval V (Outcome V)}

/-- By induction on the rounds that may be made. Each of them takes a step at least, so that a loop
which goes on keeps the machine busy. -/
theorem runs_rounds (hc : s.Covers g) (hle : g.Le a)
    (hcond : ∀ env calls, s.Fits env → ∃ holds calls₁ env₁,
      cond.run calls = some (holds, calls₁) ∧
        s.Leads g (if holds then a else f) env env₁ calls calls₁)
    (hround : ∀ env calls, s.Fits env → s.Runs fuel a b env calls round) (hc' : s.Covers a)
    (hback : b.Open b.cur → ∀ prev env calls,
      s.step (b.spot prev env calls) = .to (g.spot (some b.cur) env calls))
    (hopen : f.Open f.cur) (n : Nat) (hn : n ≤ fuel) (env : Locals V) (calls : List (Call V))
    (hfits : s.Fits env) : s.Runs n g f env calls (rounds cond round n) := by
  induction n generalizing env calls with
  | zero => exact ⟨.timeout, calls, rfl, fun prev => ⟨0, _, Nat.le_refl _, .refl⟩⟩
  | succ n ih =>
    obtain ⟨holds, calls₁, env₁, hrun, hlead⟩ := hcond env calls hfits
    cases holds with
    | false => exact ⟨.normal, calls₁, by simp [rounds, hrun], hopen, env₁, hlead⟩
    | true =>
      have hfits₁ := hlead.fits hc hfits
      obtain ⟨o, calls₂, hrun₂, hreaches⟩ := hround env₁ calls₁ hfits₁
      have hstart : (rounds cond round (n + 1)).run calls =
          (andThen round (rounds cond round n)).run calls₁ := by
        simp [rounds, hrun]
      cases o with
      | normal =>
        obtain ⟨hopen₂, env₂, hlead₂⟩ := hreaches
        obtain ⟨o, calls₃, hrun₃, hreaches₃⟩ :=
          ih (Nat.le_of_succ_le hn) env₂ calls₂ (hlead₂.fits hc' hfits₁)
        refine ⟨o, calls₃, ?_, .around (hlead.trans hlead₂ hle.builder)
          (fun prev => hback hopen₂ prev env₂ calls₂) hreaches₃⟩
        rw [hstart, run_andThen hrun₂]
        exact hrun₃
      | returned x =>
        refine ⟨.returned x, calls₂, ?_, hreaches.after hlead hle.builder⟩
        rw [hstart, run_andThen hrun₂]
      | timeout =>
        refine ⟨.timeout, calls₂, ?_, (hreaches.after hlead hle.builder).less hn⟩
        rw [hstart, run_andThen hrun₂]

end Scene

/-- A part of a loop: a blank block is entered and filled, and control goes on at another block
where it falls through. -/
theorem part_spec {α β : Type} {m : Lower α} {t : α → Terminator} {rest : α → Lower β}
    {P : α → Draft ctx → Prop} {R : β → Draft ctx → Prop}
    {blanks others : List BlockId} {k : BlockId} (h : Draft.Opens g a [] blanks)
    (hk : blanks.Perm (k :: others)) (hlt : k.index < a.size) (hm : Does m (a.moveTo k hlt) P)
    (hcloses : ∀ x b, (a.moveTo k hlt).Step b → P x b → (∀ j ∈ others, b.Blank j) →
      b.Open b.cur → b.Closes b.cur (t x))
    (hrest : ∀ x b b', (a.moveTo k hlt).Step b → P x b → b.Leaves b' (t x) →
      Draft.Opens g b' [] others → Spec (rest x) b' R fun _ _ => True) :
    Spec (do
      Lower.build (Build.switchTo k)
      let x ← m
      let _ ← Lower.build (Build.terminateIfOpen (t x))
      rest x) a R fun _ _ => True := by
  have hentered := h.enter hk hlt
  have hstart : (a.moveTo k hlt).IsEnd (some k) :=
    .of_open (h.blank k (hk.mem_iff.mpr (by simp))).starts.opened
  refine Spec.next (a.run_switchTo hlt) (Spec.bind hm ?_ fun _ _ _ => trivial)
  rintro x b ⟨hstep, hp⟩
  obtain ⟨last, hend⟩ := b.exists_isEnd
  have hblank := (hentered.step hstart hstep hend).blank
  obtain ⟨_, b', hleaves, hrun⟩ := b.run_terminateIfOpen_leaves (hcloses x b hstep hp hblank)
  refine Spec.next hrun (hrest x b b' hstep hp hleaves ?_)
  exact hentered.step hstart (hstep.trans hleaves.toStep) (.of_sealed hleaves.sealed)

def loopCondition (ctx : FnContext) : Option Expr → Lower (Option Value)
  | some cond => Lower.condition ctx cond
  | none => return none

def Tested (g g' : Draft ctx) (cond : Option Expr) : Option Value → Prop
  | some v => g'.Sees v ∧ g'.types.IsBool v.type ∧
      ∃ e, cond = some e ∧ Realizes g g' v fun s => e.eval s.world s.names
  | none => g'.errors = g.errors → cond = none ∧ g' = g

theorem loopCondition_evals (cond : Option Expr) (hopen : g.Open g.cur) :
    Evals (loopCondition ctx cond) g fun exit g' => Tested g g' cond exit := by
  cases cond with
  | none => exact .pure hopen fun _ => ⟨rfl, rfl⟩
  | some e =>
    refine (condition_evals e g hopen).mono fun exit g' _ h => ?_
    cases exit with
    | none => exact fun herr => absurd herr h
    | some v => exact ⟨h.1, h.2.1, e, rfl, h.2.2⟩

def leaveLoop (body follow : BlockId) : Option Value → Terminator
  | some v => .condBr v body follow
  | none => .br body

theorem leaveLoop_ne {body follow : BlockId} (exit : Option Value) :
    leaveLoop body follow exit ≠ .unreachable := by
  cases exit <;> simp [leaveLoop]

theorem Tested.ways {cond : Option Expr} {exit : Option Value} (h : Tested g g' cond exit)
    (herr : g'.errors = g.errors) (body follow j : BlockId) :
    j ∈ (leaveLoop body follow exit).successors ↔
      j = body ∨ (cond.isSome = true ∧ j = follow) := by
  cases exit with
  | none =>
    obtain ⟨rfl, _⟩ := h herr
    simp [leaveLoop, Terminator.successors]
  | some v =>
    obtain ⟨_, _, e, rfl, _⟩ := h
    simp [leaveLoop, Terminator.successors]

theorem closes_leaveLoop {cond : Option Expr} {exit : Option Value} {body follow : BlockId}
    (h : Tested g g' cond exit) (hopen : g'.Open g'.cur) (hbody : g'.Target body)
    (hfollow : g'.Target follow) : g'.Closes g'.cur (leaveLoop body follow exit) := by
  cases exit with
  | none => exact .br hopen hbody
  | some v =>
    exact .condBr hopen h.2.1 h.1.typed h.1.reach (hbody.accepts _) (hfollow.accepts _)

theorem Tested.leads {cond : Option Expr} {exit : Option Value} (h : Tested g g' cond exit)
    (hs : g.Le g') (hle : g'.Le f) (herr : f.errors = g.errors)
    (hseals : Draft.Seals g' f g'.cur (leaveLoop a.cur f.cur exit)) (ha : a.Starts) (hf : f.Starts)
    {V : Type} {s : Scene ctx V} (hc : s.Covers f) (env : Locals V) (calls : List (Call V))
    (hfits : s.Fits env) : ∃ holds calls₁ env₁,
      (conditionHolds s.world s.names cond).run calls = some (holds, calls₁) ∧
        s.Leads g (if holds then a else f) env env₁ calls calls₁ := by
  cases exit with
  | none =>
    obtain ⟨rfl, rfl⟩ := h (hs.errors_left hle herr)
    exact ⟨true, calls, env, rfl, Scene.leads_br hseals hc ha⟩
  | some v =>
    obtain ⟨_, _, e, rfl, hrealizes⟩ := h
    obtain ⟨x, calls₁, hx, env₁, hlead, hholds⟩ :=
      hrealizes s (hc.of_draft_le hle) env calls hfits
    refine ⟨s.interp.holds x.value, calls₁, env₁, by simp [conditionHolds, hx], ?_⟩
    refine hlead.trans ?_ hs.builder
    cases hb : s.interp.holds x.value with
    | true => exact Scene.leads_condBr hseals hc hholds ha (by simp [hb])
    | false => exact Scene.leads_condBr hseals hc hholds hf (by simp [hb])

def loop (init : Lower Unit) (cond : Lower (Option Value)) (body post : Lower Unit) :
    Lower Unit := do
  let initBlock ← Lower.build Build.createBlock
  let condBlock ← Lower.build Build.createBlock
  let bodyBlock ← Lower.build Build.createBlock
  let postBlock ← Lower.build Build.createBlock
  let follow ← Lower.build Build.createBlock
  let _ ← Lower.build Build.ensureOpen
  Lower.build (Build.terminate (.br initBlock))
  Lower.build (Build.switchTo initBlock)
  init
  let _ ← Lower.build (Build.terminateIfOpen (.br condBlock))
  Lower.build (Build.switchTo condBlock)
  let exit ← cond
  let _ ← Lower.build (Build.terminateIfOpen (leaveLoop bodyBlock follow exit))
  Lower.build (Build.switchTo bodyBlock)
  body
  let _ ← Lower.build (Build.terminateIfOpen (.br postBlock))
  Lower.build (Build.switchTo postBlock)
  post
  let _ ← Lower.build (Build.terminateIfOpen (.br condBlock))
  Lower.build (Build.switchTo follow)

theorem Draft.Prepared.jump {β : Type} {rest : Lower β} {R : β → Draft ctx → Prop}
    {last : Option BlockId} {blanks : List BlockId} {i : BlockId}
    (h : Draft.Prepared g a last blanks) (hi : i ∈ blanks)
    (hrest : ∀ e a', a.Reopens e →
      (∀ m, Draft.Wires m e a' fun x j => x = e.cur ∧ j = i) → Draft.Opens g a' [] blanks →
        (g.Open g.cur → Draft.Seals g a' g.cur (.br i)) → Spec rest a' R fun _ _ => True) :
    Spec (do
      let _ ← Lower.build Build.ensureOpen
      Lower.build (Build.terminate (.br i))
      rest) a R fun _ _ => True := by
  obtain ⟨a₁, hreopens, hrun⟩ := a.run_ensureOpen_reopens
  have hopens : Draft.Opens g a (last.toList ++ []) blanks := by
    rw [List.append_nil]
    exact h.toOpens
  have hopens₁ := hopens.step h.isEnd hreopens.toStep (.of_open hreopens.opened)
  have hcloses : a₁.Closes a₁.cur (.br i) := .br hreopens.opened (hopens₁.blank i hi).toTarget
  refine Spec.next hrun (Spec.next (a₁.run_terminate hcloses) ?_)
  refine hrest a₁ _ hreopens (fun m => ?_) (Draft.Opens.close hopens₁) fun hopen => ?_
  · exact (Draft.Wires.close (by simp)).congr fun x j _ => by simp [Terminator.successors]
  obtain rfl := hreopens.same (h.open_cur_iff.mpr hopen)
  have hsame : a₁.builder.block? a₁.cur = g.builder.block? a₁.cur := by
    rw [h.cur]
    exact h.same
  rw [← h.cur]
  exact (Draft.seals_close (h := hcloses)).back hsame

/-! ## What a loop does -/

/-- Code from the first draft to the second, which is left with `t` where it falls through. The
third draft stands at the block where the next code begins. -/
structure Part (a b a' : Draft ctx) (t : Terminator) : Prop where
  le : a.Le b
  onward : b.Le a'
  starts : a'.Starts
  seals : b.Open b.cur → Draft.Seals b a' b.cur t
  wires : t ≠ .unreachable → ∀ m, Draft.Wires m b a' fun i j =>
    (b.Open b.cur ∧ i = b.cur) ∧ j ∈ t.successors

namespace Part

variable {a' b' : Draft ctx} {t : Terminator} {p : Prop}

theorem of_leaves {j : BlockId} (hstep : a.Step b) (h : b.Leaves b' t) (hj : b'.Blank j) :
    Part a b (b'.moveTo j hj.lt) t where
  le := hstep.toLe
  onward := h.toLe.trans (Draft.Since.moveTo b'.cur).toLe
  starts := hj.starts
  seals := h.seals
  wires ht m := (h.wires ht m).trans_noEdge .moveTo

theorem toLe (h : Part a b a' t) : a.Le a' := h.le.trans h.onward

theorem performs {act : ∀ {V : Type}, Scene ctx V → Nat → Eval V (Outcome V)}
    (h : Part a b a' (.br a'.cur)) (hperforms : Performs a b act) : Performs a a' act :=
  hperforms.onward h.le h.onward h.seals h.starts

theorem leg {m : Nat} (h : Part a b a' t) (hfalls : Draft.Falls a b p) (ha : a.Starts)
    (hsize : m ≤ a.size) (ht : t ≠ .unreachable) (hbound : ∀ j ∈ t.successors, j.index < m) :
    Draft.Leg m a b a' p t.successors where
  falls := hfalls
  opened := ha.opened
  size := hsize
  leaves := h.wires ht
  bound := hbound

end Part

variable {actInit actBody actPost : ∀ {V : Type}, Scene ctx V → Nat → Eval V (Outcome V)}
  {init body post : Lower Unit} {pInit pBody pPost : Prop}

/-- From where the condition begins, the rounds are made. -/
theorem performs_rounds {c₁ a p₁ : Draft ctx} {cond : Option Expr} {exit : Option Value}
    (htested : Tested g c₁ cond exit) (hcond : Part g c₁ a (leaveLoop a.cur f.cur exit))
    (hap : a.Le p₁) (hpf : p₁.Le f) (hseals : p₁.Open p₁.cur → Draft.Seals p₁ f p₁.cur (.br g.cur))
    (hround : Performs a p₁ actBody) (hcondOpen : c₁.Open c₁.cur) (hg : g.Starts) (hf : f.Starts) :
    Performs g f fun s fuel =>
      rounds (conditionHolds s.world s.names cond) (actBody s fuel) fuel := by
  intro herr _ V s hc fuel env calls hfits
  have haf : a.Le f := hap.trans hpf
  have hleave := (hcond.seals hcondOpen).mono haf.builder
  refine Scene.runs_rounds (b := p₁) (hc.of_draft_le (hcond.toLe.trans haf)) hcond.toLe ?_ ?_
    (hc.of_draft_le haf) ?_ hf.opened fuel (Nat.le_refl _) env calls hfits
  · exact htested.leads hcond.le (hcond.onward.trans haf) herr hleave hcond.starts hf hc
  · intro env calls hfits
    have hsame := hap.errors_left hpf (hcond.toLe.errors_right haf herr)
    exact hround hsame hcond.starts.opened s (hc.of_draft_le hpf) fuel env calls hfits
  · intro hopen prev env calls
    exact Scene.step_br (hseals hopen) hc hg prev

/-- The parts of a loop: the start, the condition, the body and what is done after each round, each
from the first to the second of its drafts. The loop is done at `f`. -/
structure Laid (i₀ i₁ c₀ c₁ b₀ b₁ p₀ p₁ f : Draft ctx) (exit : Option Value) : Prop where
  starts : i₀.Starts
  init : Part i₀ i₁ c₀ (.br c₀.cur)
  cond : Part c₀ c₁ b₀ (leaveLoop b₀.cur f.cur exit)
  condOpen : c₁.Open c₁.cur
  body : Part b₀ b₁ p₀ (.br p₀.cur)
  post : Part p₀ p₁ f (.br c₀.cur)

namespace Laid

variable {i₀ i₁ c₀ c₁ b₀ b₁ p₀ p₁ f : Draft ctx} {exit : Option Value} {cond : Option Expr}

theorem round (h : Laid i₀ i₁ c₀ c₁ b₀ b₁ p₀ p₁ f exit) : b₀.Le f := h.body.toLe.trans h.post.toLe

theorem toLe (h : Laid i₀ i₁ c₀ c₁ b₀ b₁ p₀ p₁ f exit) : i₀.Le f :=
  h.init.toLe.trans (h.cond.toLe.trans h.round)

theorem performs (h : Laid i₀ i₁ c₀ c₁ b₀ b₁ p₀ p₁ f exit) (htested : Tested c₀ c₁ cond exit)
    (hinit : Performs i₀ i₁ actInit) (hbody : Performs b₀ b₁ actBody)
    (hpost : Performs p₀ p₁ actPost) : Performs i₀ f fun s fuel =>
      andThen (actInit s fuel) (rounds (conditionHolds s.world s.names cond)
        (andThen (actBody s fuel) (actPost s fuel)) fuel) := by
  have hround := (h.body.performs hbody).andThen h.body.toLe hpost h.post.le
  have hrounds := performs_rounds htested h.cond (h.body.toLe.trans h.post.le) h.post.onward
    h.post.seals hround h.condOpen h.init.starts h.post.starts
  exact (h.init.performs hinit).andThen h.init.toLe hrounds (h.cond.toLe.trans h.round)

theorem falls {e : Draft ctx} {last : Option BlockId}
    (h : Laid i₀ i₁ c₀ c₁ b₀ b₁ p₀ p₁ f exit) (hg : g.Le i₀) (herr : f.errors = g.errors)
    (hmade : Draft.Prepared g a last [f.cur, p₀.cur, b₀.cur, c₀.cur, i₀.cur])
    (hreopens : a.Reopens e) (henter : ∀ m, Draft.Wires m e i₀ fun x j => x = e.cur ∧ j = i₀.cur)
    (htested : Tested c₀ c₁ cond exit) (hcond : Draft.Falls c₀ c₁ True)
    (hinit : Renders i₀ i₁ actInit pInit) (hbody : Renders b₀ b₁ actBody pBody)
    (hpost : Renders p₀ p₁ actPost pPost) : Draft.Falls g f (pInit ∧ cond.isSome = true) := by
  have hlt : ∀ j ∈ [f.cur, p₀.cur, b₀.cur, c₀.cur, i₀.cur], j.index < a.size :=
    fun j hj => (hmade.blank j hj).lt
  have hgc : g.Le c₀ := hg.trans h.init.toLe
  have hgb : g.Le b₀ := hgc.trans h.cond.toLe
  have hinitFalls := hinit.falls (hg.errors_between h.init.le
    (h.init.onward.trans (h.cond.toLe.trans h.round)) herr)
  have hbodyFalls := hbody.falls (hgb.errors_between h.body.le
    (h.body.onward.trans h.post.toLe) herr)
  have hpostFalls := hpost.falls
    ((hgb.trans h.body.toLe).errors_between h.post.le h.post.onward herr)
  have hways := htested.ways (hgc.errors_between h.cond.le (h.cond.onward.trans h.round) herr)
    b₀.cur f.cur
  have hbound : ∀ j ∈ (leaveLoop b₀.cur f.cur exit).successors, j.index < a.size := by
    intro j hj
    rcases (hways j).mp hj with rfl | ⟨_, rfl⟩ <;> exact hlt _ (by simp)
  have hsizeInit : a.size ≤ i₀.size := Nat.le_trans hreopens.size (henter 0).size
  have hsizeCond := Nat.le_trans hsizeInit h.init.toLe.size
  have hsizeBody := Nat.le_trans hsizeCond h.cond.toLe.size
  have hsizePost := Nat.le_trans hsizeBody h.body.toLe.size
  have hbr : ∀ k ∈ [f.cur, p₀.cur, b₀.cur, c₀.cur, i₀.cur],
      ∀ j ∈ (Terminator.br k).successors, j.index < a.size := by
    intro k hk j hj
    obtain rfl : j = k := by simpa [Terminator.successors] using hj
    exact hlt j hk
  exact Draft.falls_loop (hmade.wires _) hmade.live_iff hreopens.falls hreopens.opened henter
    (h.init.leg hinitFalls h.starts hsizeInit (by simp) (hbr _ (by simp)))
    (h.cond.leg hcond h.init.starts hsizeCond (leaveLoop_ne exit) hbound)
    (h.body.leg hbodyFalls h.cond.starts hsizeBody (by simp) (hbr _ (by simp)))
    (h.post.leg hpostFalls h.body.starts hsizePost (by simp) (hbr _ (by simp)))
    h.condOpen h.post.starts.opened rfl rfl rfl rfl (List.nodup_append.mp hmade.nodup).2.1
    (fun j hj => ⟨hmade.new j hj, hlt j hj⟩) hways

end Laid

theorem loop_does (cond : Option Expr) (hinit : Sound ctx init actInit pInit)
    (hbody : Sound ctx body actBody pBody) (hpost : Sound ctx post actPost pPost)
    (g : Draft ctx) :
    Does (loop init (loopCondition ctx cond) body post) g fun _ f => Renders g f (fun s fuel =>
      andThen (actInit s fuel) (rounds (conditionHolds s.world s.names cond)
        (andThen (actBody s fuel) (actPost s fuel)) fuel)) (pInit ∧ cond.isSome = true) := by
  obtain ⟨last, hend⟩ := g.exists_isEnd
  have hprepared : Draft.Prepared g g last [] :=
    ⟨.start hend, hend, rfl, rfl, fun _ => .refl g, by simp⟩
  rw [loop]
  refine Spec.next (Draft.run_createTarget _) ?_
  refine Spec.next (Draft.run_createTarget _) ?_
  refine Spec.next (Draft.run_createTarget _) ?_
  refine Spec.next (Draft.run_createTarget _) ?_
  refine Spec.next (Draft.run_createTarget _) ?_
  have hmade := hprepared.addTarget.addTarget.addTarget.addTarget.addTarget
  refine hmade.jump (by simp) ?_
  generalize g.next = i, g.addTarget.next = c, g.addTarget.addTarget.next = b,
    g.addTarget.addTarget.addTarget.next = p, g.addTarget.addTarget.addTarget.addTarget.next = k,
    g.addTarget.addTarget.addTarget.addTarget.addTarget = a₀ at hmade ⊢
  intro e a hreopens henter hopens hseals
  have hinitBlank := hopens.blank i (by simp)
  refine part_spec hopens (List.perm_append_singleton i [k, p, b, c]) hinitBlank.lt (hinit _) ?_ ?_
  · intro _ a₁ _ _ hblank hopen
    exact .br hopen (hblank c (by simp)).toTarget
  intro _ i₁ i₂ hstep₁ hinit₁ hleaves₁ hopens₁
  have hcond := hopens₁.blank c (by simp)
  refine part_spec hopens₁ (List.perm_append_singleton c [k, p, b]) hcond.lt
    (.of_evals (loopCondition_evals cond hcond.starts.opened)) ?_ ?_
  · rintro exit c₁ _ ⟨_, htested⟩ hblank hopen
    exact closes_leaveLoop htested hopen (hblank b (by simp)).toTarget (hblank k (by simp)).toTarget
  rintro exit c₁ c₂ - ⟨hstep₂, htested⟩ hleaves₂ hopens₂
  have hbodyBlank := hopens₂.blank b (by simp)
  refine part_spec hopens₂ (List.perm_append_singleton b [k, p]) hbodyBlank.lt (hbody _) ?_ ?_
  · intro _ b₁ _ _ hblank hopen
    exact .br hopen (hblank p (by simp)).toTarget
  intro _ b₁ b₂ hstep₃ hbody₃ hleaves₃ hopens₃
  have hpostBlank := hopens₃.blank p (by simp)
  refine part_spec hopens₃ (List.perm_append_singleton p [k]) hpostBlank.lt (hpost _) ?_ ?_
  · intro _ p₁ hstep₄ _ _ hopen
    have hic : i₂.Le c₂ :=
      (Draft.Since.moveTo i₂.cur).toLe.trans (hstep₂.toLe.trans hleaves₂.toLe)
    have hcb : c₂.Le b₂ := (Draft.Since.moveTo c₂.cur).toLe.trans (hstep₃.toLe.trans hleaves₃.toLe)
    have hbp : b₂.Le p₁ := (Draft.Since.moveTo b₂.cur).toLe.trans hstep₄.toLe
    exact .br hopen (hcond.toTarget.of_le (hic.trans (hcb.trans hbp)))
  intro _ p₁ p₂ hstep₄ hpost₄ hleaves₄ hopens₄
  have hfollow := hopens₄.blank k (by simp)
  have hentered := hopens₄.enter (.refl _) hfollow.lt
  refine Spec.of_run (p₂.run_switchTo hfollow.lt)
    ⟨hentered.toStep (.of_open hfollow.starts.opened), ?_⟩
  have hlaid : Laid (a.moveTo i hinitBlank.lt) i₁ (i₂.moveTo c hcond.lt) c₁
      (c₂.moveTo b hbodyBlank.lt) b₁ (b₂.moveTo p hpostBlank.lt) p₁ (p₂.moveTo k hfollow.lt) exit :=
    ⟨hinitBlank.starts, .of_leaves hstep₁ hleaves₁ hcond,
      .of_leaves hstep₂.toStep hleaves₂ hbodyBlank, hstep₂.opened,
      .of_leaves hstep₃ hleaves₃ hpostBlank, .of_leaves hstep₄ hleaves₄ hfollow⟩
  have hmove : a.Le (a.moveTo i hinitBlank.lt) := (Draft.Since.moveTo a.cur).toLe
  have hga := hopens.toLe.trans hmove
  refine ⟨fun herr hopen => ?_, fun herr => ?_⟩
  · have harm : Arm g (p₂.moveTo k hfollow.lt) i _ :=
      ⟨_, rfl, hlaid.starts, hga, hlaid.toLe,
        hlaid.performs htested hinit₁.performs hbody₃.performs hpost₄.performs⟩
    exact harm.performs ((hseals hopen).mono (hmove.trans hlaid.toLe).builder) herr hopen
  · exact hlaid.falls hga herr hmade hreopens (fun m => (henter m).trans_noEdge .moveTo) htested
      hstep₂.falls hinit₁ hbody₃ hpost₄

end Midend
