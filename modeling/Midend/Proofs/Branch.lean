import Midend.Proofs.Opens
import Midend.Proofs.Expr

/-!
# Midend.Proofs.Branch

Branches of an `if`. The block of the condition waits while the branches are lowered, and gets its
terminator last, when both are there.
-/

namespace Midend

open Ir

variable {ctx : FnContext} {g g' g₁ g₂ f : Draft ctx} {v : Value}

/-- However the draft stands, the lowering of the statement gives code that does it, and control
falls through that code exactly if `p` holds. -/
def Sound (ctx : FnContext) (m : Lower Unit)
    (act : ∀ {V : Type}, Scene ctx V → Nat → Eval V (Outcome V)) (p : Prop) : Prop :=
  ∀ g : Draft ctx, Does m g fun _ g' => Renders g g' act p

theorem Sound.congr {m : Lower Unit} {p q : Prop}
    {act : ∀ {V : Type}, Scene ctx V → Nat → Eval V (Outcome V)}
    (h : Sound ctx m act p) (hpq : p ↔ q) : Sound ctx m act q :=
  propext hpq ▸ h

namespace Draft

def intoNew (g : Draft ctx) : Draft ctx :=
  g.addTarget.moveTo g.next g.blank_addTarget.lt

theorem starts_intoNew (g : Draft ctx) : g.intoNew.Starts := g.blank_addTarget.starts

theorem since_intoNew (c : BlockId) (g : Draft ctx) : Since c g g.intoNew :=
  (since_addTarget c g).trans (Since.moveTo c) (.inl rfl)

theorem waiting_intoNew {i : BlockId} : g.intoNew.Waiting i ↔ g.Open i := by
  show g.addTarget.Open i ∧ i ≠ g.next ↔ _
  rw [open_addTarget]
  have hne : g.Open i → i ≠ g.next := by
    rintro hopen rfl
    exact g.not_open_next hopen
  tauto

theorem wires_intoNew {m : Nat} (g : Draft ctx) : Wires m g g.intoNew noEdge :=
  Wires.addBlock.trans_noEdge .moveTo

theorem size_intoNew (g : Draft ctx) : g.intoNew.size = g.size + 1 := Builder.size_withBlock _

theorem le_size_intoNew (g : Draft ctx) : g.size ≤ g.intoNew.size := by simp [size_intoNew]

/-- What was there stays as it is while code is made in a new block. -/
theorem since_of_intoNew (c : BlockId) (h : Since g.intoNew.cur g.intoNew g') : Since c g g' :=
  (since_intoNew c g).trans h (.inr (Nat.le_refl _))

end Draft

theorem Sound.inNew {m : Lower Unit} {act : ∀ {V : Type}, Scene ctx V → Nat → Eval V (Outcome V)}
    {p : Prop} (h : Sound ctx m act p) {β : Type} {rest : BlockId → Option BlockId → Lower β}
    {R : β → Draft ctx → Prop} {E : Fault → Draft ctx → Prop} (he : ∀ e g₁, E e g₁)
    (hrest : ∀ a last, g.intoNew.Step a → Renders g.intoNew a act p → a.IsEnd last →
      Spec (rest g.next last) a R E) :
    Spec (do
      let k ← Lower.build Build.createBlock
      Lower.build (Build.switchTo k)
      m
      let last ← Lower.openEnd
      rest k last) g R E := by
  refine Spec.next g.run_createTarget ?_
  refine Spec.next (g.addTarget.run_switchTo g.blank_addTarget.lt) ?_
  refine Spec.bind (h g.intoNew) ?_ fun e g₁ _ => he e g₁
  rintro _ a ⟨hstep, hrenders⟩
  obtain ⟨last, hend, hrun⟩ := a.run_openEnd_isEnd
  exact Spec.next hrun (hrest a last hstep hrenders hend)

/-- The branches are joined, and the block of the condition is sealed. -/
structure Finished (g g' f : Draft ctx) (t : Terminator) (ends : List BlockId) : Prop where
  step : g.Step f
  le : g'.Le f
  starts : f.Starts
  cur : f.cur = g'.next
  cond : Draft.Seals g f g.cur t
  joined : ∀ i ∈ ends, Draft.Seals g' f i (.br f.cur)
  wires : ∀ m, Draft.Wires m g' f fun i j =>
    (i ∈ ends ∧ j = f.cur) ∨ (i = g.cur ∧ j ∈ t.successors)

theorem run_finish {k : BlockId} {lasts : List (Option BlockId)} (hopen : g.Open g.cur)
    (hv : g.Sees v) (hbool : g.types.IsBool v.type)
    (h : Draft.Opens g.intoNew g' (Draft.endsOf lasts) []) (hk : k = g'.next ∨ g'.Target k) :
    ∃ f, runOn (do
        Lower.joinAt g'.next lasts
        let _ ← Lower.build (Build.terminateBlock g.cur (.condBr v g.next k))
        Lower.build (Build.switchTo g'.next)) g'.addTarget.toFnState = (.ok (), f.toFnState) ∧
      Finished g g' f (.condBr v g.next k) (Draft.endsOf lasts) := by
  have hblank := g'.blank_addTarget
  obtain ⟨f₁, hjoin, hopens, hjoined⟩ := Draft.run_joinAt lasts h.addTarget hblank.toTarget
  have hs' : g'.Le g'.addTarget := (Draft.since_addTarget g.cur g').toLe
  have hs : Draft.Since g.next g f₁ := Draft.since_of_intoNew g.next hopens.toSince
  have hfollow : f₁.Blank g'.next := hopens.blank g'.next (by simp)
  have hopen₁ : ∀ i, f₁.Open i ↔ g.Open i ∨ i = g'.next := by
    intro i
    rw [hopens.opened, Draft.waiting_intoNew]
    simp
  have hthen : f₁.Target g.next := g.blank_addTarget.toTarget.of_le
    ((Draft.Since.moveTo g.next).trans hopens.toSince (.inl rfl)).toLe
  have hother : f₁.Target k := by
    rcases hk with rfl | hk
    · exact hfollow.toTarget
    · exact hk.of_le (hs'.trans hjoined.toLe)
  have hcloses : f₁.Closes g.cur (.condBr v g.next k) :=
    .condBr ((hopen₁ g.cur).mpr (.inl hopen)) (hbool.le hs.types)
      (hv.typed.mono hs.types hs.builder)
      (fun id hid => hs.inSight g.inRange (hv.reach id hid)) (hthen.accepts _)
      (hother.accepts _)
  have hclose : Draft.Since g.cur f₁ (f₁.close g.cur _ hcloses) := .close
  have hall : Draft.Since g.cur g (f₁.close g.cur _ hcloses) :=
    (hs.weaken (Nat.le_refl _)).trans hclose (.inl rfl)
  have hsize : g.size ≤ g'.next.index :=
    (Draft.since_of_intoNew g.cur h.toSince).size
  have hold : ∀ i, g.Open i → i ≠ g'.next := by
    rintro i hi rfl
    exact absurd hi.lt_size (Nat.not_lt.mpr hsize)
  have hblank₂ := hfollow.since hclose (hold g.cur hopen).symm
  refine ⟨(f₁.close g.cur _ hcloses).moveTo g'.next hblank₂.lt, ?_, ?_, ?_, hblank₂.starts, rfl,
    ?_, fun i hi => ?_, fun m => ?_⟩
  · rw [runOn_bind_ok hjoin, runOn_bind_ok (f₁.run_terminateBlock hcloses)]
    exact Draft.run_switchTo _ hblank₂.lt
  · refine ⟨hall.trans (.moveTo g.cur) (.inl rfl), fun i => ?_, .inr hsize⟩
    rw [Draft.waiting_moveTo, Draft.open_close, hopen₁]
    have hne := hold i
    show _ ↔ g.Open i ∧ i ≠ g.cur
    tauto
  · exact (hs'.trans hjoined.toLe).trans (hclose.toLe.trans (Draft.Since.moveTo g.cur).toLe)
  · exact (Draft.seals_close (h := hcloses)).back (hs.kept g.cur g.inRange g.cur_ne_next)
  · have hseals := hjoined.seals_back hi (h.mem_open (by simpa using hi))
    exact hseals.mono (hclose.trans (.moveTo g.cur) (.inl rfl)).builder
  · exact (Draft.Wires.addBlock.noEdge_trans (hjoined.wires m)).trans
      ((Draft.Wires.close (by simp)).trans_noEdge .moveTo)

/-! ## The code of an if -/

/-- What follows the condition of an if. -/
def branch (cond : Value) (m : Lower Unit)
    (other : Lower (Option (BlockId × Option BlockId))) : Lower Unit := do
  let condEnd ← Lower.build Build.ensureOpen
  let thenBlock ← Lower.build Build.createBlock
  Lower.build (Build.switchTo thenBlock)
  m
  let thenEnd ← Lower.openEnd
  let other ← other
  let follow ← Lower.build Build.createBlock
  match other with
  | none => do
    Lower.joinAt follow [thenEnd]
    Lower.build (Build.terminateBlock condEnd (.condBr cond thenBlock follow))
  | some (elseBlock, elseEnd) => do
    Lower.joinAt follow [thenEnd, elseEnd]
    Lower.build (Build.terminateBlock condEnd (.condBr cond thenBlock elseBlock))
  Lower.build (Build.switchTo follow)

def otherBranch (m : Lower Unit) : Lower (Option (BlockId × Option BlockId)) := do
  let elseBlock ← Lower.build Build.createBlock
  Lower.build (Build.switchTo elseBlock)
  m
  let elseEnd ← Lower.openEnd
  return some (elseBlock, elseEnd)

/-- Once the condition is known, one of the two is done. -/
structure Chooses (g f : Draft ctx) (v : Value)
    (act act' : ∀ {V : Type}, Scene ctx V → Nat → Eval V (Outcome V)) (p : Prop) : Prop where
  runs : f.errors = g.errors → ∀ ⦃V : Type⦄ (s : Scene ctx V), s.Covers f →
    ∀ fuel env calls, s.Fits env → ∀ x, s.Holds env v x →
      s.Runs fuel g f env calls (if s.interp.holds x.value then act s fuel else act' s fuel)
  falls : f.errors = g.errors → Draft.Falls g f p

variable {act act' : ∀ {V : Type}, Scene ctx V → Nat → Eval V (Outcome V)} {m m' : Lower Unit}
  {p q : Prop}

theorem Finished.arm {a : Draft ctx} {t : Terminator} {ends : List BlockId}
    (hf : Finished g₁ g' f t ends) (hstep : g.intoNew.Step a)
    (hperforms : Performs g.intoNew a act) (hle : a.Le g') (hmem : a.Open a.cur → a.cur ∈ ends)
    (hkept : a.Open a.cur → g'.builder.block? a.cur = a.builder.block? a.cur) :
    Arm g f g.next act := by
  refine ⟨g.intoNew, rfl, g.starts_intoNew, (Draft.since_intoNew g.cur g).toLe,
    hstep.toLe.trans (hle.trans hf.le), ?_⟩
  exact hperforms.onward hstep.toLe (hle.trans hf.le)
    (fun hopen => (hf.joined a.cur (hmem hopen)).back (hkept hopen)) hf.starts

section Falls

variable {h a : Draft ctx} {t : Terminator} {ends : List BlockId} {b : Builder}

theorem Finished.passes (hf : Finished g g' f t ends) (hgh : g.size ≤ h.size)
    (hp : Draft.Falls h.intoNew a p) (hw : Draft.Wires a.size a g' Draft.noEdge)
    (hnext : h.next ∈ t.successors)
    (hsucc : ∀ j ∈ t.successors, j.index < h.intoNew.size ∨ a.size ≤ j.index)
    (hb : Draft.Keeps g f b) : Draft.Passes b g.cur a p := by
  have hsize : h.size < a.size := by
    have hle : h.intoNew.size ≤ a.size := hp.size
    rw [h.size_intoNew] at hle
    exact hle
  have hfollow : a.size ≤ f.cur.index := by
    rw [hf.cur]
    exact hw.size
  have hall := hw.noEdge_trans (hf.wires a.size)
  have hedge : ∀ i, b.Edge i h.next ↔ i = g.cur := by
    intro i
    have hne : h.next ≠ f.cur := by
      intro heq
      rw [← heq] at hfollow
      exact absurd hsize (Nat.not_lt.mpr hfollow)
    have hfrom := h.wires_intoNew.noEdge_trans
      ((hp.less (Nat.le_of_eq h.size_intoNew.symm)).noEdge_trans (hall.less hsize))
    rw [hb i h.next hgh (Nat.lt_of_lt_of_le hsize hall.size),
      hfrom.edge_new h.next (Nat.le_refl _) (Nat.lt_succ_self _)]
    simp [hne, hnext]
  have hkeeps : Draft.Keeps h.intoNew a b := by
    refine hb.part (Nat.le_trans hgh h.le_size_intoNew) hall fun i j hij => ?_
    rcases hij with ⟨_, rfl⟩ | ⟨_, hj⟩
    · exact .inr hfollow
    · exact hsucc j hj
  exact (hp.passes hkeeps h.starts_intoNew.opened).jump (g.pos_of_new hgh) hedge

theorem Finished.edge_follow (hf : Finished g g' f t ends) (hsize : g.size ≤ g'.size)
    (hb : Draft.Keeps g f b) (i : BlockId) :
    b.Edge i f.cur ↔ i ∈ ends ∨ (i = g.cur ∧ f.cur ∈ t.successors) := by
  have hcur : f.cur.index = g'.size := by rw [hf.cur]; rfl
  rw [hb i f.cur (hcur ▸ hsize) f.inRange,
    (hf.wires (f.cur.index + 1)).edge_new f.cur (Nat.le_of_eq hcur.symm) (Nat.lt_succ_self _)]
  simp

theorem Finished.falls (hf : Finished g g' f t ends) (hopen : g.Open g.cur)
    (hw : Draft.Wires g.size g g' Draft.noEdge) (hsucc : ∀ j ∈ t.successors, g.size ≤ j.index)
    (hback : ∀ b, Draft.Keeps g f b → ∀ i n, i ∈ ends ∨ (i = g.cur ∧ f.cur ∈ t.successors) →
      b.ReachedIn n i → p ∧ b.ReachedIn n g.cur)
    (honward : ∀ b, Draft.Keeps g f b → p → ∀ n, b.ReachedIn n g.cur →
      ∃ i k, (i ∈ ends ∨ (i = g.cur ∧ f.cur ∈ t.successors)) ∧ b.ReachedIn k i) :
    Draft.Falls g f p := by
  have hcur : g.size ≤ f.cur.index := by
    rw [hf.cur]
    exact hw.size
  refine .of_passes ((hw.noEdge_trans (hf.wires g.size)).congr fun i j hj => ?_) hopen
    fun b hb => ?_
  · constructor
    · rintro (⟨_, rfl⟩ | ⟨_, hmem⟩)
      · exact absurd hj (Nat.not_lt.mpr hcur)
      · exact absurd hj (Nat.not_lt.mpr (hsucc j hmem))
    · exact fun hno => hno.elim
  · exact .join hf.starts.opened (g.pos_of_new hcur) (hf.edge_follow hw.size hb) (hback b hb)
      (honward b hb)

theorem wires_of_intoNew (hp : Draft.Falls g.intoNew a p) : Draft.Wires g.size g a Draft.noEdge :=
  g.wires_intoNew.noEdge_trans (hp.less g.le_size_intoNew)

theorem mem_successors_condBr {k k' j : BlockId} :
    j ∈ (Terminator.condBr v k k').successors ↔ j = k ∨ j = k' := by
  simp [Terminator.successors]

theorem Finished.falls_one (hf : Finished g a f (.condBr v g.next a.next) ends)
    (hopen : g.Open g.cur) (hp : Draft.Falls g.intoNew a p)
    (hends : ∀ i ∈ ends, a.Open a.cur ∧ i = a.cur) : Draft.Falls g f True := by
  have hw := wires_of_intoNew hp
  refine hf.falls hopen hw (fun j hj => ?_) (fun b hb i n hi hn => ⟨trivial, ?_⟩)
    fun b _ _ n hn => ⟨g.cur, n, .inr ⟨rfl, mem_successors_condBr.mpr (.inr hf.cur)⟩, hn⟩
  · rcases mem_successors_condBr.mp hj with rfl | rfl
    · exact Nat.le_refl _
    · exact hw.size
  · rcases hi with hi | ⟨rfl, _⟩
    · obtain ⟨hopen, rfl⟩ := hends i hi
      have hpasses := hf.passes (Nat.le_refl _) hp (.refl a) (mem_successors_condBr.mpr (.inl rfl))
        (fun j hj => ?_) hb
      · exact (hpasses.back n ⟨hopen, hn⟩).2
      · rcases mem_successors_condBr.mp hj with rfl | rfl
        · exact .inl g.blank_addTarget.lt
        · exact .inr (Nat.le_refl _)
    · exact hn

theorem Finished.falls_two {a' : Draft ctx}
    (hf : Finished g a' f (.condBr v g.next a.next) ends) (hopen : g.Open g.cur)
    (hp : Draft.Falls g.intoNew a p) (hq : Draft.Falls a.intoNew a' q)
    (hends : ∀ i, i ∈ ends ↔ (a.Open a.cur ∧ i = a.cur) ∨ (a'.Open a'.cur ∧ i = a'.cur)) :
    Draft.Falls g f (p ∨ q) := by
  have hw := wires_of_intoNew hp
  have hw' := wires_of_intoNew hq
  have hlt : a.next.index < a.intoNew.size := a.blank_addTarget.lt
  have hpasses : ∀ b, Draft.Keeps g f b → Draft.Passes b g.cur a p := by
    refine fun b hb => hf.passes (Nat.le_refl _) hp hw' (mem_successors_condBr.mpr (.inl rfl))
      (fun j hj => ?_) hb
    rcases mem_successors_condBr.mp hj with rfl | rfl
    · exact .inl g.blank_addTarget.lt
    · exact .inr (Nat.le_refl _)
  have hpasses' : ∀ b, Draft.Keeps g f b → Draft.Passes b g.cur a' q := by
    refine fun b hb => hf.passes hw.size hq (.refl a') (mem_successors_condBr.mpr (.inr rfl))
      (fun j hj => ?_) hb
    rcases mem_successors_condBr.mp hj with rfl | rfl
    · exact .inl (Nat.lt_of_le_of_lt hw.size hlt)
    · exact .inl hlt
  have hnew : f.cur ∉ (Terminator.condBr v g.next a.next).successors := by
    have hge : a.intoNew.size ≤ f.cur.index := hf.cur ▸ hq.size
    intro hmem
    rcases mem_successors_condBr.mp hmem with heq | heq
    · rw [heq] at hge
      exact absurd (Nat.lt_of_lt_of_le hlt hge) (Nat.not_lt.mpr hw.size)
    · rw [heq] at hge
      exact absurd hlt (Nat.not_lt.mpr hge)
  refine hf.falls hopen (hw.noEdge_trans (hw'.less hw.size)) (fun j hj => ?_)
    (fun b hb i n hi hn => ?_) fun b hb hpq n hn => ?_
  · rcases mem_successors_condBr.mp hj with rfl | rfl
    · exact Nat.le_refl _
    · exact hw.size
  · rcases hi with hi | ⟨_, hi⟩
    · rcases (hends i).mp hi with ⟨hopen, rfl⟩ | ⟨hopen, rfl⟩
      · exact ((hpasses b hb).back n ⟨hopen, hn⟩).imp_left .inl
      · exact ((hpasses' b hb).back n ⟨hopen, hn⟩).imp_left .inr
    · exact absurd hi hnew
  · rcases hpq with hp | hq
    · obtain ⟨k, hopen, hk⟩ := (hpasses b hb).onward hp n hn
      exact ⟨a.cur, k, .inl ((hends _).mpr (.inl ⟨hopen, rfl⟩)), hk⟩
    · obtain ⟨k, hopen, hk⟩ := (hpasses' b hb).onward hq n hn
      exact ⟨a'.cur, k, .inl ((hends _).mpr (.inr ⟨hopen, rfl⟩)), hk⟩

end Falls

theorem opens_branch {a : Draft ctx} {last : Option BlockId} (hstep : g.intoNew.Step a)
    (hend : a.IsEnd last) : Draft.Opens g.intoNew a (Draft.endsOf [last]) [] :=
  (Draft.Opens.start (.of_open g.starts_intoNew.opened)).step
    (.of_open g.starts_intoNew.opened) hstep hend

theorem branch_none_does (hopen : g.Open g.cur) (hv : g.Sees v) (hbool : g.types.IsBool v.type)
    (hm : Sound ctx m act p) :
    Does (branch v m (return none)) g fun _ f =>
      Chooses g f v act (fun _ _ => return .normal) True := by
  rw [branch]
  refine Spec.next (g.run_ensureOpen hopen) ?_
  refine hm.inNew (fun _ _ => trivial) fun a last hstep hrenders hend => ?_
  rw [pure_bind]
  refine Spec.next a.run_createTarget ?_
  obtain ⟨f, hrun, hf⟩ :=
    run_finish hopen hv hbool (opens_branch hstep hend) (.inl rfl)
  have hle : a.Le f := hf.le
  have hga : g.Le a := (Draft.since_intoNew g.cur g).toLe.trans hstep.toLe
  refine Spec.of_run hrun ⟨hf.step, fun herr V s hc fuel env calls hfits x hx => ?_, fun herr => ?_⟩
  · have harm : Arm g f g.next act :=
      hf.arm hstep hrenders.performs (.refl a) (fun hopen => by simpa using hend.cur_mem hopen)
        fun _ => rfl
    have harm' : Arm g f f.cur fun _ _ => return .normal := .nothing hf.starts hf.step.toLe
    rw [hf.cur] at harm'
    exact harm.branch harm' hf.cond herr hc hfits hx
  · have hfalls := hrenders.falls
      ((Draft.since_intoNew g.cur g).toLe.errors_between hstep.toLe hle herr)
    exact hf.falls_one hopen hfalls fun i hi => hend.mem_iff.mp (by simpa using hi)

theorem branch_some_does (hopen : g.Open g.cur) (hv : g.Sees v) (hbool : g.types.IsBool v.type)
    (hm : Sound ctx m act p) (hm' : Sound ctx m' act' q) :
    Does (branch v m (otherBranch m')) g fun _ f => Chooses g f v act act' (p ∨ q) := by
  rw [branch]
  refine Spec.next (g.run_ensureOpen hopen) ?_
  refine hm.inNew (fun _ _ => trivial) fun a last hstep hrenders hend => ?_
  rw [otherBranch]
  simp only [bind_assoc, pure_bind]
  refine hm'.inNew (fun _ _ => trivial) fun a' last' hstep' hrenders' hend' => ?_
  refine Spec.next a'.run_createTarget ?_
  have hopens : Draft.Opens g.intoNew a' (Draft.endsOf [last, last']) [] := by
    have hentered := (opens_branch hstep hend).addTarget.enter (.refl _) a.blank_addTarget.lt
    have hstart := Draft.IsEnd.of_open a.starts_intoNew.opened
    refine (hentered.step hstart hstep' hend').perm ?_ (.refl _)
    simpa using List.perm_append_comm
  have hle : a.Le a' := (Draft.since_intoNew a.cur a).toLe.trans hstep'.toLe
  have htarget : a'.Target a.next :=
    a.blank_addTarget.toTarget.of_le ((Draft.Since.moveTo a.cur).toLe.trans hstep'.toLe)
  obtain ⟨f, hrun, hf⟩ := run_finish hopen hv hbool hopens (.inr htarget)
  have hga : g.Le a := (Draft.since_intoNew g.cur g).toLe.trans hstep.toLe
  refine Spec.of_run hrun ⟨hf.step, fun herr V s hc fuel env calls hfits x hx => ?_, fun herr => ?_⟩
  · have harm : Arm g f g.next act :=
      hf.arm hstep hrenders.performs hle (fun hopen => by simp [hend.cur_mem hopen]) fun _ =>
        (Draft.since_of_intoNew a.next hstep'.toSince).kept a.cur a.inRange a.cur_ne_next
    have harm' : Arm a f a.next act' :=
      hf.arm hstep' hrenders'.performs (.refl a') (fun hopen => by simp [hend'.cur_mem hopen])
        fun _ => rfl
    exact harm.branch (harm'.of_le hga) hf.cond herr hc hfits hx
  · have hfalls := hrenders.falls
      ((Draft.since_intoNew g.cur g).toLe.errors_between hstep.toLe (hle.trans hf.le) herr)
    have hfalls' := hrenders'.falls
      ((hga.trans (Draft.since_intoNew a.cur a).toLe).errors_between hstep'.toLe hf.le herr)
    refine hf.falls_two hopen hfalls hfalls' fun i => ?_
    rw [← hend.mem_iff, ← hend'.mem_iff]
    simp

/-- A condition, and what is done if it holds or does not. -/
theorem ifElse_does (cond : Expr) {k : Value → Lower Unit}
    (hk : ∀ (g : Draft ctx) v, g.Open g.cur → g.Sees v → g.types.IsBool v.type →
      Does (k v) g fun _ f => Chooses g f v act act' p) :
    Does (do
      let _ ← Lower.build Build.ensureOpen
      match ← Lower.condition ctx cond with
      | none => return ()
      | some v => k v) g fun _ g' => Renders g g' (fun s fuel => do
        let x ← cond.eval s.world s.names
        if s.interp.holds x.value then act s fuel else act' s fuel) p := by
  refine Does.ensureOpen fun g₁ hreopens => ?_
  refine (Does.of_evals (condition_evals cond g₁ hreopens.opened)).bind ?_
  rintro r g₂ - ⟨hstep, hr⟩
  cases r with
  | none => exact .pure (.of_errors hr)
  | some v =>
    obtain ⟨hsees, hbool, hrealizes⟩ := hr
    refine (hk g₂ v hstep.opened hsees hbool).mono fun _ f hstep₂ hchooses => ?_
    refine ⟨fun herr _ V s hc fuel env calls hfits => ?_, fun herr => ?_⟩
    rotate_left
    · have hfalls := hchooses.falls (hstep.toLe.errors_right hstep₂.toLe herr)
      exact (hstep.falls.trans hfalls).congr (and_iff_right trivial)
    have hc₂ : s.Covers g₂ := hc.of_since hstep₂.toSince
    obtain ⟨x, calls₁, hx, env₁, hlead, hholds⟩ := hrealizes s hc₂ env calls hfits
    have hfits₁ := hlead.fits (hc₂.of_since hstep.toSince) hfits
    have herr₂ := hstep.toLe.errors_right hstep₂.toLe herr
    refine (hchooses.runs herr₂ s hc fuel env₁ calls₁ hfits₁ x hholds).after hlead hstep.builder ?_
    simp [hx]

end Midend
