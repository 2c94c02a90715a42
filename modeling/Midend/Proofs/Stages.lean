import Midend.Proofs.FrameExpr
import Midend.Proofs.Site
import Midend.Proofs.Loop

/-!
# Midend.Proofs.Stages

The stages of an `if` and of a loop: between one part and the next the state is known, as it is
after the last. Nothing is assumed about the state at the beginning except that the cursor is on a
block, so the stages are there for code of any shape, and after errors.
-/

namespace Midend

open Ir

namespace FnState

variable {σ τ υ : FnState}

def onNew (σ : FnState) : FnState := σ.on (σ.builder.withBlock.moved ⟨σ.builder.size⟩)

def reopened (σ : FnState) : FnState := σ.on σ.builder.opened

/-- The block under the cursor is left, if it is open, and another one is entered. -/
def enter (σ : FnState) (t : Terminator) (k : BlockId) : FnState :=
  σ.on ((σ.builder.left t).moved k)

@[simp] theorem types_enter (σ : FnState) (t : Terminator) (k : BlockId) :
    (σ.enter t k).types = σ.types := rfl

theorem onBlock_onNew (σ : FnState) : σ.onNew.OnBlock := by
  show σ.builder.size < σ.builder.withBlock.size
  rw [Builder.size_withBlock]
  exact Nat.lt_succ_self _

theorem onBlock_reopened (hc : σ.OnBlock) : σ.reopened.OnBlock := (Builder.open_opened hc).lt_size

theorem stays_reopened (hc : σ.OnBlock) : σ.Stays [] σ.reopened :=
  ⟨TypeStore.le_refl _, .opened hc⟩

end FnState

namespace Lower

variable {α β : Type} {σ τ υ : FnState}

theorem runOn_openEnd (hc : σ.OnBlock) : runOn openEnd σ = (.ok σ.builder.openEnd, σ) := by
  have hask : ∀ o, σ.builder.cursorIsOpen = .ok o →
      runOn (build (liftM σ.builder.cursorIsOpen)) σ = (.ok o, σ) := fun o ho =>
    runOn_build_ok (Build.run_cursorIsOpen ho)
  rw [openEnd, runOn_bind_ok (runOn_get σ)]
  by_cases hopen : σ.builder.Open σ.builder.cursor
  · rw [runOn_bind_ok (hask true (Builder.isOpen_of_open hopen)), Builder.openEnd_of_open hopen]
    rfl
  · rw [runOn_bind_ok (hask false (Builder.isOpen_of_sealed hc hopen)),
      Builder.openEnd_of_sealed hc hopen]
    rfl

theorem runOn_terminateIfOpen (hc : σ.OnBlock) (t : Terminator) :
    ∃ o, runOn (build (Build.terminateIfOpen t)) σ = (.ok o, σ.on (σ.builder.left t)) := by
  by_cases hopen : σ.builder.Open σ.builder.cursor
  · exact ⟨true, by
      rw [Builder.left_of_open hopen]
      exact runOn_build_ok (Build.run_terminateIfOpen_of_open hopen t)⟩
  · exact ⟨false, by
      rw [Builder.left_of_sealed hc hopen]
      exact runOn_build_ok (Build.run_terminateIfOpen_of_sealed hc hopen t)⟩

theorem runOn_joinAt (k : BlockId) (lasts : List (Option BlockId)) {σ : FnState}
    (hnodup : (Draft.endsOf lasts).Nodup) (hopen : ∀ i ∈ Draft.endsOf lasts, σ.builder.Open i) :
    runOn (joinAt k lasts) σ = (.ok (), σ.on (σ.builder.joined k (Draft.endsOf lasts))) := by
  induction lasts generalizing σ with
  | nil => rfl
  | cons last rest ih =>
    cases last with
    | none => exact ih hnodup hopen
    | some last =>
      rw [Draft.endsOf_cons, Option.toList_some, List.singleton_append] at hnodup hopen ⊢
      obtain ⟨hlast, hnodup⟩ := List.nodup_cons.mp hnodup
      rw [joinAt, runOn_bind_ok (runOn_terminateBlock (hopen last List.mem_cons_self) (.br k)),
        ih hnodup]
      · rfl
      · intro i hi
        refine Builder.open_closed.mpr ⟨?_, hopen i (List.mem_cons_of_mem _ hi)⟩
        rintro rfl
        exact hlast hi

/-- The step is confined to the region of the cursor; the builder is not what makes it fail. -/
def Staying (exits : List BlockId) (m : Lower α) : Prop :=
  ∀ σ : FnState, σ.OnBlock → Ends m σ (fun _ τ => σ.Stays exits τ) fun _ => True

theorem Flowing.staying {m : Lower α} (hm : Flowing m) : Staying [] m := fun σ hc =>
  (hm σ hc).mono (fun _ _ h => h.toStays) fun _ _ => trivial

namespace Staying

variable {exits : List BlockId}

theorem pure (a : α) : Staying exits (Pure.pure a : Lower α) := fun _ hc => Ends.pure (.refl _ hc)

theorem bind {m : Lower α} {f : α → Lower β} (hm : Staying exits m)
    (hf : ∀ a, Staying exits (f a)) : Staying exits (m >>= f) := fun σ hc =>
  (hm σ hc).bind (fun a τ _ h => (hf a τ h.onBlock).mono (fun _ _ h' => h.trans h') fun _ h => h)
    fun _ h => h

theorem weaken {m : Lower α} (hm : Staying exits m) {exits' : List BlockId}
    (hsub : ∀ j ∈ exits, j ∈ exits') : Staying exits' m := fun σ hc =>
  (hm σ hc).mono (fun _ _ h => h.weaken hsub) fun _ h => h

theorem abort (u : Unsupported) : Staying exits (MonadExcept.throw (Fault.abort u) : Lower α) :=
  (Flowing.abort u).staying.weaken (by simp)

theorem report (e : LowerError) : Staying exits (Lower.report e) := fun σ hc =>
  .of_ok (runOn_report e σ) ⟨TypeStore.le_refl _, .refl hc⟩

theorem terminateIfOpen {t : Terminator} (ht : t.successors = []) :
    Staying exits (Lower.build (Build.terminateIfOpen t)) := by
  intro σ hc
  obtain ⟨o, hrun⟩ := runOn_terminateIfOpen hc t
  refine .of_ok hrun ⟨TypeStore.le_refl _, ?_⟩
  by_cases hopen : σ.builder.Open σ.builder.cursor
  · rw [Builder.left_of_open hopen]
    exact .closed hopen (by simp [ht])
  · rw [Builder.left_of_sealed hc hopen]
    exact .refl hc

end Staying

/-! ## The stages of an if and of a loop -/

def elseCode : Option (Lower Unit) → Lower (Option (BlockId × Option BlockId))
  | none => return none
  | some m => otherBranch m

/-- Where control goes on if the condition does not hold: at the other branch, or at what follows.
-/
def elseTarget (σ₁ : FnState) (follow : BlockId) : Option (Lower Unit) → BlockId
  | none => follow
  | some _ => ⟨σ₁.builder.size⟩

def elseEnd (σ₂ : FnState) : Option (Lower Unit) → List (Option BlockId)
  | none => []
  | some _ => [σ₂.builder.openEnd]

/-- The condition ended at the cursor of `σ`, the first branch in `σ₁`, and the other in `σ₂`. -/
structure Branched (m : Lower Unit) (other : Option (Lower Unit)) (σ σ₁ σ₂ : FnState) : Prop where
  first : runOn m σ.onNew = (.ok (), σ₁)
  stays : σ.onNew.Stays [] σ₁
  none : other = none → σ₂ = σ₁
  second : ∀ m' ∈ other, runOn m' σ₁.onNew = (.ok (), σ₂) ∧ σ₁.onNew.Stays [] σ₂

def branchEnds (other : Option (Lower Unit)) (σ₁ σ₂ : FnState) : List BlockId :=
  Draft.endsOf (σ₁.builder.openEnd :: elseEnd σ₂ other)

def branchTerm (v : Value) (other : Option (Lower Unit)) (σ σ₁ σ₂ : FnState) : Terminator :=
  .condBr v ⟨σ.builder.size⟩ (elseTarget σ₁ ⟨σ₂.builder.size⟩ other)

def afterBranches (v : Value) (other : Option (Lower Unit)) (σ σ₁ σ₂ : FnState) : FnState :=
  σ₂.on (((σ₂.builder.withBlock.joined ⟨σ₂.builder.size⟩ (branchEnds other σ₁ σ₂)).closed
    σ.builder.cursor (branchTerm v other σ σ₁ σ₂)).moved ⟨σ₂.builder.size⟩)

section Branch

variable {m : Lower Unit} {other : Option (Lower Unit)} {σ₁ σ₂ : FnState} {v : Value}

theorem Branched.types_first (h : Branched m other σ σ₁ σ₂) : σ₁.types ≤ σ₂.types := by
  cases other with
  | none =>
    obtain rfl := h.none rfl
    exact TypeStore.le_refl _
  | some m' => exact (h.second m' rfl).2.types

theorem Branched.site (h : Branched m other σ σ₁ σ₂) (hopen : σ.builder.Open σ.builder.cursor) :
    Builder.Site [] σ.builder σ₂.builder (branchEnds other σ₁ σ₂ ++ [σ.builder.cursor]) := by
  have hstart : Builder.Site [] σ.builder σ.builder [σ.builder.cursor] := by
    have h := Builder.Site.start [] hopen.lt_size
    rwa [Builder.openEnd_of_open hopen] at h
  have hfirst := hstart.withBlock.part h.stays.code (by simp)
  cases other with
  | none =>
    obtain rfl := h.none rfl
    simpa [branchEnds, elseEnd] using hfirst
  | some m' =>
    refine (hfirst.withBlock.part (h.second m' rfl).2.code (by simp)).perm ?_
    simp only [branchEnds, Draft.endsOf_cons, Draft.endsOf_nil, elseEnd, List.append_nil,
      List.append_assoc]
    exact List.perm_append_comm_assoc _ _ _

theorem Branched.site_follow (h : Branched m other σ σ₁ σ₂)
    (hopen : σ.builder.Open σ.builder.cursor) :
    Builder.Site [] σ.builder σ₂.builder.withBlock
      (branchEnds other σ₁ σ₂ ++ [σ.builder.cursor, ⟨σ₂.builder.size⟩]) := by
  have hperm := (List.perm_append_singleton (⟨σ₂.builder.size⟩ : BlockId)
    (branchEnds other σ₁ σ₂ ++ [σ.builder.cursor])).symm
  rw [List.append_assoc] at hperm
  exact (h.site hopen).withBlock.perm hperm

theorem finish_ends (h : Branched m other σ σ₁ σ₂) (hopen : σ.builder.Open σ.builder.cursor)
    {Q : Unit → FnState → Prop} {E : FnState → Prop} (hq : Q () (afterBranches v other σ σ₁ σ₂)) :
    Ends (do
      let follow ← Lower.build Build.createBlock
      Lower.joinAt follow (σ₁.builder.openEnd :: elseEnd σ₂ other)
      Lower.build (Build.terminateBlock σ.builder.cursor
        (.condBr v ⟨σ.builder.size⟩ (elseTarget σ₁ follow other)))
      Lower.build (Build.switchTo follow)) σ₂ Q E := by
  have hsite := h.site_follow hopen
  obtain ⟨hnodup, -, hne⟩ := List.nodup_append.mp hsite.nodup
  refine .next (runOn_createBlock σ₂) (.next (runOn_joinAt _ _ hnodup fun i hi =>
    hsite.opened i (List.mem_append_left _ hi)) ?_)
  refine .next (runOn_terminateBlock ?_ _) (.of_ok (runOn_switchTo _ _) hq)
  refine Builder.open_joined.mpr ⟨fun hmem => ?_, hsite.opened _ (by simp)⟩
  exact hne _ hmem σ.builder.cursor (by simp) rfl

theorem branch_ends (hm : Staying [] m) (ho : ∀ m' ∈ other, Staying [] m')
    (hopen : σ.builder.Open σ.builder.cursor) (v : Value) :
    Ends (branch v m (elseCode other)) σ (fun _ τ => ∃ σ₁ σ₂, Branched m other σ σ₁ σ₂ ∧
      τ = afterBranches v other σ σ₁ σ₂) fun _ => True := by
  have hreopen : runOn (Lower.build Build.ensureOpen) σ = (.ok σ.builder.cursor, σ) := by
    rw [runOn_ensureOpen hopen.lt_size, Builder.opened_of_open hopen]
    rfl
  rw [branch]
  refine .next hreopen (.next (runOn_createBlock σ) (.next (runOn_switchTo _ _) ?_))
  refine (hm σ.onNew σ.onBlock_onNew).bind (fun _ σ₁ hfirst h₁ => ?_) fun _ h => h
  refine .next (runOn_openEnd h₁.onBlock) ?_
  cases other with
  | none =>
    have hbranched : Branched m none σ σ₁ σ₁ := ⟨hfirst, h₁, fun _ => rfl, by simp⟩
    exact .next (runOn_pure _ _) (finish_ends hbranched hopen ⟨σ₁, σ₁, hbranched, rfl⟩)
  | some m' =>
    have hother : Ends (otherBranch m') σ₁ (fun r σ₂ =>
        r = some (⟨σ₁.builder.size⟩, σ₂.builder.openEnd) ∧
          runOn m' σ₁.onNew = (.ok (), σ₂) ∧ σ₁.onNew.Stays [] σ₂) fun _ => True := by
      refine .next (runOn_createBlock σ₁) (.next (runOn_switchTo _ _) ?_)
      refine (ho m' rfl σ₁.onNew σ₁.onBlock_onNew).bind (fun _ σ₂ hsecond h₂ => ?_) fun _ h => h
      exact .next (runOn_openEnd h₂.onBlock) (.pure ⟨rfl, hsecond, h₂⟩)
    refine hother.bind ?_ fun _ h => h
    rintro _ σ₂ - ⟨rfl, hsecond⟩
    have hbranched : Branched m (some m') σ σ₁ σ₂ :=
      ⟨hfirst, h₁, by simp, by rintro _ ⟨rfl⟩; exact hsecond⟩
    exact finish_ends hbranched hopen ⟨σ₁, σ₂, hbranched, rfl⟩

theorem Branched.stays_after (h : Branched m other σ σ₁ σ₂)
    (hopen : σ.builder.Open σ.builder.cursor) : σ.Stays [] (afterBranches v other σ σ₁ σ₂) := by
  have hsite := h.site_follow hopen
  have hlt : σ₂.builder.size < σ₂.builder.withBlock.size := by
    rw [Builder.size_withBlock]
    exact Nat.lt_succ_self _
  have hfollow : σ.builder.size ≤ σ₂.builder.size := (h.site hopen).size
  refine ⟨TypeStore.le_trans h.stays.types h.types_first,
    ((hsite.joined (.inl ⟨hfollow, hlt⟩)).closed fun j hj => .inl ?_).done⟩
  rw [Builder.size_joined]
  have hfirst : σ.builder.size < σ₁.builder.size :=
    Nat.lt_of_lt_of_le σ.onBlock_onNew h.stays.code.size
  rcases List.mem_pair.mp hj with rfl | rfl
  · refine ⟨Nat.le_refl _, Nat.lt_of_le_of_lt hfollow hlt⟩
  · cases other with
    | none => exact ⟨hfollow, hlt⟩
    | some m' =>
      refine ⟨Nat.le_of_lt hfirst, Nat.lt_trans ?_ hlt⟩
      exact Nat.lt_of_lt_of_le σ₁.onBlock_onNew (h.second m' rfl).2.code.size

end Branch

/-- One of the blocks of a loop that begins in `σ`. -/
def loopBlock (σ : FnState) (k : Nat) : BlockId := ⟨σ.builder.size + k⟩

def loopStart (σ : FnState) : FnState :=
  (σ.on (σ.builder.withBlocks 5)).reopened.enter (.br (loopBlock σ 0)) (loopBlock σ 0)

theorem types_loopStart (σ : FnState) : (loopStart σ).types = σ.types :=
  FnState.types_enter _ _ _

/-- The parts of a loop one after the other. Each ends where the next one begins: the start in `σ₁`,
the condition in `σ₂`, the body in `σ₃`, and what is done after each round in `σ₄`. -/
structure Looped (init : Lower Unit) (cond : Lower (Option Value)) (body post : Lower Unit)
    (exit : Option Value) (σ σ₁ σ₂ σ₃ σ₄ : FnState) : Prop where
  init : runOn init (loopStart σ) = (.ok (), σ₁)
  init_stays : (loopStart σ).Stays [] σ₁
  cond : runOn cond (σ₁.enter (.br (loopBlock σ 1)) (loopBlock σ 1)) = (.ok exit, σ₂)
  cond_stays : (σ₁.enter (.br (loopBlock σ 1)) (loopBlock σ 1)).Stays [] σ₂
  body : runOn body (σ₂.enter (leaveLoop (loopBlock σ 2) (loopBlock σ 4) exit) (loopBlock σ 2)) =
    (.ok (), σ₃)
  body_stays : (σ₂.enter (leaveLoop (loopBlock σ 2) (loopBlock σ 4) exit)
    (loopBlock σ 2)).Stays [] σ₃
  post : runOn post (σ₃.enter (.br (loopBlock σ 3)) (loopBlock σ 3)) = (.ok (), σ₄)
  post_stays : (σ₃.enter (.br (loopBlock σ 3)) (loopBlock σ 3)).Stays [] σ₄

namespace Looped

variable {init : Lower Unit} {cond : Lower (Option Value)} {body post : Lower Unit}
  {exit : Option Value} {σ σ₁ σ₂ σ₃ σ₄ : FnState}

theorem types_cond (h : Looped init cond body post exit σ σ₁ σ₂ σ₃ σ₄) : σ₁.types ≤ σ₂.types := by
  simpa only [FnState.types_enter] using h.cond_stays.types

theorem types_body (h : Looped init cond body post exit σ σ₁ σ₂ σ₃ σ₄) : σ₂.types ≤ σ₃.types := by
  simpa only [FnState.types_enter] using h.body_stays.types

theorem types_post (h : Looped init cond body post exit σ σ₁ σ₂ σ₃ σ₄) : σ₃.types ≤ σ₄.types := by
  simpa only [FnState.types_enter] using h.post_stays.types

theorem types (h : Looped init cond body post exit σ σ₁ σ₂ σ₃ σ₄) : σ.types ≤ σ₄.types := by
  have hinit := h.init_stays.types
  rw [types_loopStart] at hinit
  exact TypeStore.le_trans hinit
    (TypeStore.le_trans h.types_cond (TypeStore.le_trans h.types_body h.types_post))

end Looped

def afterLoop (σ σ₄ : FnState) : FnState := σ₄.enter (.br (loopBlock σ 1)) (loopBlock σ 4)

section Loop

variable {init body post : Lower Unit} {cond : Lower (Option Value)} {exit : Option Value}
  {σ₁ σ₂ σ₃ σ₄ : FnState}

theorem loopBlocks_le {b : Builder} {live : List BlockId} (h : Builder.Site [] σ.builder b live)
    (hlast : loopBlock σ 4 ∈ live) : σ.builder.size + 5 ≤ b.size := (h.opened _ hlast).lt_size

theorem loopBlock_new {b : Builder} {live : List BlockId} (h : Builder.Site [] σ.builder b live)
    (hlast : loopBlock σ 4 ∈ live) {j : BlockId} (hj : ∃ n < 5, j = loopBlock σ n) :
    σ.builder.size ≤ j.index ∧ j.index < b.size := by
  obtain ⟨n, hn, rfl⟩ := hj
  exact ⟨Nat.le_add_right _ _,
    Nat.lt_of_lt_of_le (Nat.add_lt_add_left hn _) (loopBlocks_le h hlast)⟩

theorem onBlock_blocks (hc : σ.OnBlock) (n : Nat) : (σ.on (σ.builder.withBlocks n)).OnBlock := by
  show (σ.builder.withBlocks n).cursor.index < (σ.builder.withBlocks n).size
  rw [Builder.cursor_withBlocks, Builder.size_withBlocks]
  exact Nat.lt_add_right n hc

theorem open_opened_blocks (hc : σ.OnBlock) (n : Nat) :
    (σ.builder.withBlocks n).opened.Open (σ.builder.withBlocks n).opened.cursor :=
  Builder.open_opened (onBlock_blocks hc n)

theorem site_loopStart (hc : σ.OnBlock) : Builder.Site [] σ.builder (loopStart σ).builder
    [loopBlock σ 0, loopBlock σ 1, loopBlock σ 2, loopBlock σ 3, loopBlock σ 4] := by
  have hblocks : σ.builder.newBlocks 5 =
      [loopBlock σ 0, loopBlock σ 1, loopBlock σ 2, loopBlock σ 3, loopBlock σ 4] := rfl
  have hcur := onBlock_blocks hc 5
  have hopen := open_opened_blocks hc 5
  have hmade := ((Builder.Site.start [] hc).withBlocks 5).perm List.perm_append_comm
  rw [← Builder.openEnd_withBlocks hc 5, hblocks] at hmade
  have hreopened := hmade.reopened hcur
  have hclosed := hreopened.closed (t := .br (loopBlock σ 0)) fun j hj =>
    .inl (loopBlock_new hreopened (by simp) ⟨0, by decide, List.mem_singleton.mp hj⟩)
  rw [← Builder.left_of_open hopen] at hclosed
  exact hclosed.moved _

theorem onBlock_of_site {b : Builder} {live : List BlockId}
    (h : Builder.Site [] b τ.builder (τ.builder.cursor :: live)) : τ.OnBlock :=
  (h.opened _ List.mem_cons_self).lt_size

/-- A part of a loop is lowered, and left for the next one. -/
theorem site_next {live : List BlockId} {t : Terminator} {k : BlockId}
    (h : Builder.Site [] σ.builder τ.builder (τ.builder.cursor :: k :: live))
    (hlast : loopBlock σ 4 ∈ k :: live) (hm : τ.Stays [] υ)
    (ht : ∀ j ∈ t.successors, ∃ n < 5, j = loopBlock σ n) :
    Builder.Site [] σ.builder (υ.enter t k).builder (k :: live) := by
  have hpart := h.onward hm.code (by simp)
  exact (hpart.left hm.onBlock fun j hj =>
    .inl (loopBlock_new hpart (List.mem_append_right _ hlast) (ht j hj))).moved k

theorem successors_leaveLoop (exit : Option Value) :
    ∀ j ∈ (leaveLoop (loopBlock σ 2) (loopBlock σ 4) exit).successors,
      ∃ n < 5, j = loopBlock σ n := by
  intro j hj
  cases exit with
  | none => exact ⟨2, by decide, List.mem_singleton.mp hj⟩
  | some v =>
    rcases List.mem_pair.mp hj with rfl | rfl
    · exact ⟨2, by decide, rfl⟩
    · exact ⟨4, by decide, rfl⟩

theorem successors_br (n : Nat) (hn : n < 5) :
    ∀ j ∈ (Terminator.br (loopBlock σ n)).successors, ∃ n < 5, j = loopBlock σ n :=
  fun _ hj => ⟨n, hn, List.mem_singleton.mp hj⟩

theorem part_ends {m : Lower α} {f : α → Lower β} {Q : β → FnState → Prop} {k : BlockId}
    {t : α → Terminator} {live : List BlockId} (hm : Staying [] m)
    (h : Builder.Site [] σ.builder τ.builder (τ.builder.cursor :: k :: live))
    (hlast : loopBlock σ 4 ∈ k :: live)
    (ht : ∀ a, ∀ j ∈ (t a).successors, ∃ n < 5, j = loopBlock σ n)
    (hrest : ∀ a υ, runOn m τ = (.ok a, υ) → τ.Stays [] υ →
      Builder.Site [] σ.builder (υ.enter (t a) k).builder (k :: live) →
        Ends (f a) (υ.enter (t a) k) Q fun _ => True) :
    Ends (do
      let a ← m
      let _ ← Lower.build (Build.terminateIfOpen (t a))
      Lower.build (Build.switchTo k)
      f a) τ Q fun _ => True := by
  refine (hm τ (onBlock_of_site h)).bind (fun a υ hrun hstays => ?_) fun _ h => h
  obtain ⟨_, hleave⟩ := runOn_terminateIfOpen hstays.onBlock (t a)
  exact .next hleave (.next (runOn_switchTo _ _)
    (hrest a υ hrun hstays (site_next h hlast hstays (ht a))))

/-- Control goes on at the start of the loop, once its blocks are made. -/
theorem loopStart_runs (hc : σ.OnBlock) : ∃ i τ υ,
    runOn (Lower.build Build.ensureOpen) (σ.on (σ.builder.withBlocks 5)) = (.ok i, τ) ∧
      runOn (Lower.build (Build.terminate (.br (loopBlock σ 0)))) τ = (.ok (), υ) ∧
        runOn (Lower.build (Build.switchTo (loopBlock σ 0))) υ = (.ok (), loopStart σ) := by
  have hopen : (σ.on (σ.builder.withBlocks 5)).reopened.builder.Open
      (σ.on (σ.builder.withBlocks 5)).reopened.builder.cursor := open_opened_blocks hc 5
  have hleaves := runOn_terminate hopen (.br (loopBlock σ 0))
  refine ⟨_, _, _, runOn_ensureOpen (onBlock_blocks hc 5), hleaves, ?_⟩
  rw [runOn_switchTo, loopStart, FnState.enter, FnState.on_builder, FnState.on_on,
    Builder.left_of_open hopen]

theorem loop_ends (hi : Staying [] init) (hcond : Staying [] cond) (hb : Staying [] body)
    (hp : Staying [] post) (hc : σ.OnBlock) :
    Ends (loop init cond body post) σ (fun _ τ => σ.Stays [] τ ∧ ∃ exit σ₁ σ₂ σ₃ σ₄,
      Looped init cond body post exit σ σ₁ σ₂ σ₃ σ₄ ∧ τ = afterLoop σ σ₄) fun _ => True := by
  obtain ⟨first, σ₀, σ₀', hopens, hleaves, henters⟩ := loopStart_runs hc
  rw [loop]
  refine .next (runOn_createBlock σ) (.next (runOn_createBlock _) (.next (runOn_createBlock _)
    (.next (runOn_createBlock _) (.next (runOn_createBlock _) ?_))))
  simp only [FnState.on_builder, FnState.on_on, Builder.size_withBlock]
  refine .next hopens (.next hleaves (.next henters ?_))
  refine part_ends hi (site_loopStart hc) (by simp) (fun _ => successors_br 1 (by decide))
    fun _ σ₁ hinit h₁ hsite₁ => ?_
  refine part_ends hcond hsite₁ (by simp) successors_leaveLoop fun exit σ₂ hcond h₂ hsite₂ => ?_
  refine part_ends hb hsite₂ (by simp) (fun _ => successors_br 3 (by decide))
    fun _ σ₃ hbody h₃ hsite₃ => ?_
  have hlast := part_ends (f := fun _ => pure ()) hp hsite₃ (List.mem_singleton_self _)
    (fun _ => successors_br 1 (by decide))
    (Q := fun _ τ => σ.Stays [] τ ∧ ∃ exit σ₁ σ₂ σ₃ σ₄,
      Looped init cond body post exit σ σ₁ σ₂ σ₃ σ₄ ∧ τ = afterLoop σ σ₄)
    fun _ σ₄ hpost h₄ hsite₄ => by
      have hlooped : Looped init cond body post exit σ σ₁ σ₂ σ₃ σ₄ :=
        ⟨hinit, h₁, hcond, h₂, hbody, h₃, hpost, h₄⟩
      exact .pure ⟨⟨hlooped.types, hsite₄.done⟩, exit, σ₁, σ₂, σ₃, σ₄, hlooped, rfl⟩
  exact hlast

end Loop

end Lower

end Midend
