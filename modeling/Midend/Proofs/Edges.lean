import Midend.Proofs.Occurrence

/-!
# Midend.Proofs.Edges

The edges of an `if` and of a loop in the finished function, whatever is nested in them
(`Pass.lower_edges`): every predecessor of their blocks is named.
-/

namespace Midend

open Ir

namespace Ir.Builder

variable {b b' : Builder} {exits : List BlockId} {i j k : BlockId} {t : Terminator}

theorem Bounded.not_edge (h : b.Bounded) (hj : b.size ≤ j.index) : ¬ b.Edge i j := fun hedge =>
  absurd (h i j hedge) (Nat.not_lt.mpr hj)

theorem Confined.bounded (h : Confined exits b b') (hx : ∀ j ∈ exits, j.index < b.size)
    (hb : b.Bounded) : b'.Bounded := by
  intro i j hedge
  rcases h.edges i j hedge with hold | ⟨-, hlt⟩ | hexit
  · exact Nat.lt_of_lt_of_le (hb i j hold) h.size
  · exact hlt
  · exact Nat.lt_of_lt_of_le (hx j hexit) h.size

theorem Confined.edge_iff_of_lt (h : Confined [] b b') (hj : j.index < b.size) :
    b'.Edge i j ↔ b.Edge i j := h.edge_iff hj (by simp)

theorem edge_opened : b.opened.Edge i j ↔ b.Edge i j := by
  rw [opened]
  split
  · exact Iff.rfl
  · exact edge_withBlock

theorem ends_left (hopen : b.Open b.cursor) : (b.left t).Ends b.cursor t := by
  rw [left_of_open hopen]
  exact (ends_closed hopen).mpr (.inr rfl)

theorem Le.ends (h : b.Le b') (he : b.Ends i t) : b'.Ends i t := by
  obtain ⟨blk, hblk, ht⟩ := he
  exact ⟨blk, h.sealed hblk ht, ht⟩

end Ir.Builder

namespace Lower

variable {σ σ₁ σ₂ τ : FnState} {i j k : BlockId} {t : Terminator}

theorem edge_onNew : σ.onNew.builder.Edge i j ↔ σ.builder.Edge i j :=
  Builder.edge_withBlock

theorem edge_enter (hc : σ.OnBlock) : (σ.enter t k).builder.Edge i j ↔
    σ.builder.Edge i j ∨ ((i = σ.builder.cursor ∧ σ.builder.Open i) ∧ j ∈ t.successors) := by
  rw [← Builder.mem_openEnd hc]
  exact Builder.edge_left hc

theorem edge_ofNew (h : σ.onNew.Stays [] τ) (hj : j.index ≤ σ.builder.size) :
    τ.builder.Edge i j ↔ σ.builder.Edge i j := by
  have hlt : j.index < σ.onNew.builder.size := Nat.lt_of_le_of_lt hj σ.onBlock_onNew
  rw [h.code.edge_iff_of_lt hlt, edge_onNew]

theorem bounded_ofNew (h : σ.onNew.Stays [] τ) (hb : σ.builder.Bounded) : τ.builder.Bounded :=
  h.code.bounded (by simp)
    (((Builder.Region.refl [] σ.builder).withBlock.moved _).further.bounded hb)

section Branch

variable {m : Lower Unit} {other : Option (Lower Unit)} {v : Value}

theorem edge_afterBranches (h : Branched m other σ σ₁ σ₂)
    (hopen : σ.builder.Open σ.builder.cursor) :
    (afterBranches v other σ σ₁ σ₂).builder.Edge i j ↔ σ₂.builder.Edge i j ∨
      (i ∈ branchEnds other σ₁ σ₂ ∧ j = ⟨σ₂.builder.size⟩) ∨
        (i = σ.builder.cursor ∧ j ∈ (branchTerm v other σ σ₁ σ₂).successors) := by
  have hsite := h.site_follow hopen
  obtain ⟨hnodup, -, hne⟩ := List.nodup_append.mp hsite.nodup
  have hcond : (σ₂.builder.withBlock.joined ⟨σ₂.builder.size⟩ (branchEnds other σ₁ σ₂)).Open
      σ.builder.cursor :=
    Builder.open_joined.mpr ⟨fun hmem => hne _ hmem σ.builder.cursor (by simp) rfl,
      hsite.opened _ (by simp)⟩
  show ((σ₂.builder.withBlock.joined _ _).closed _ _).Edge i j ↔ _
  rw [Builder.edge_closed hcond, Builder.edge_joined hnodup fun i hi =>
    hsite.opened i (List.mem_append_left _ hi), Builder.edge_withBlock, or_assoc]

theorem ends_afterBranches (h : Branched m other σ σ₁ σ₂)
    (hopen : σ.builder.Open σ.builder.cursor) :
    (afterBranches v other σ σ₁ σ₂).builder.Ends σ.builder.cursor (branchTerm v other σ σ₁ σ₂) := by
  have hsite := h.site_follow hopen
  obtain ⟨-, -, hne⟩ := List.nodup_append.mp hsite.nodup
  exact (Builder.ends_closed (Builder.open_joined.mpr
    ⟨fun hmem => hne _ hmem σ.builder.cursor (by simp) rfl,
      hsite.opened _ (by simp)⟩)).mpr (.inr rfl)

theorem mem_branchEnds (h : Branched m other σ σ₁ σ₂) :
    i ∈ branchEnds other σ₁ σ₂ ↔ (i = σ₁.builder.cursor ∧ σ₁.builder.Open i) ∨
      (other.isSome ∧ i = σ₂.builder.cursor ∧ σ₂.builder.Open i) := by
  rw [branchEnds, Draft.endsOf_cons, List.mem_append, Builder.mem_openEnd h.stays.onBlock]
  cases other with
  | none => simp [elseEnd]
  | some m' =>
    simp [elseEnd, Builder.mem_openEnd (h.second m' rfl).2.onBlock]

theorem branch_sizes (h : Branched m other σ σ₁ σ₂) :
    σ.builder.size < σ₁.builder.size ∧ σ₁.builder.size ≤ σ₂.builder.size ∧
      (other.isSome → σ₁.builder.size < σ₂.builder.size) := by
  refine ⟨Nat.lt_of_lt_of_le σ.onBlock_onNew h.stays.code.size, ?_⟩
  cases other with
  | none => exact ⟨Nat.le_of_eq (h.none rfl ▸ rfl), by simp⟩
  | some m' =>
    have hlt := Nat.lt_of_lt_of_le σ₁.onBlock_onNew (h.second m' rfl).2.code.size
    exact ⟨Nat.le_of_lt hlt, fun _ => hlt⟩

theorem not_edge_branches (h : Branched m other σ σ₁ σ₂) (hb : σ.builder.Bounded) (i : BlockId) :
    ¬ σ₂.builder.Edge i ⟨σ.builder.size⟩ ∧ ¬ σ₂.builder.Edge i ⟨σ₁.builder.size⟩ ∧
      ¬ σ₂.builder.Edge i ⟨σ₂.builder.size⟩ := by
  have hb₁ := bounded_ofNew h.stays hb
  have hsize := (branch_sizes h).1
  have hbody : ¬ σ₁.builder.Edge i ⟨σ.builder.size⟩ := fun hedge =>
    hb.not_edge (Nat.le_refl _) ((edge_ofNew h.stays (Nat.le_refl _)).mp hedge)
  have hother : ¬ σ₁.builder.Edge i ⟨σ₁.builder.size⟩ := hb₁.not_edge (Nat.le_refl _)
  cases other with
  | none =>
    obtain rfl := h.none rfl
    exact ⟨hbody, hother, hother⟩
  | some m' =>
    have hstays := (h.second m' rfl).2
    refine ⟨fun hedge => hbody ?_, fun hedge => hother ?_,
      (bounded_ofNew hstays hb₁).not_edge (Nat.le_refl _)⟩
    · exact (edge_ofNew hstays (Nat.le_of_lt hsize)).mp hedge
    · exact (edge_ofNew hstays (Nat.le_refl _)).mp hedge

end Branch

section Loop

variable {init body post : Lower Unit} {cond : Lower (Option Value)} {exit : Option Value}
  {σ₃ σ₄ : FnState}

theorem mem_loopStart (hc : σ.OnBlock) : i = (σ.builder.withBlocks 5).opened.cursor ↔
    (σ.builder.Open σ.builder.cursor ∧ i = σ.builder.cursor) ∨
      (¬ σ.builder.Open σ.builder.cursor ∧ i = ⟨σ.builder.size + 5⟩) := by
  have hcur : (σ.builder.withBlocks 5).cursor.index < (σ.builder.withBlocks 5).size :=
    onBlock_blocks hc 5
  by_cases hopen : σ.builder.Open σ.builder.cursor
  · have hopen' : (σ.builder.withBlocks 5).Open (σ.builder.withBlocks 5).cursor := by
      rw [Builder.cursor_withBlocks]
      exact Builder.open_withBlocks hopen
    rw [Builder.opened_of_open hopen', Builder.cursor_withBlocks]
    simp [hopen]
  · have hsealed : ¬ (σ.builder.withBlocks 5).Open (σ.builder.withBlocks 5).cursor := by
      intro hopen'
      have hend := Builder.openEnd_of_open hopen'
      rw [Builder.openEnd_withBlocks hc, Builder.openEnd_of_sealed hc hopen] at hend
      cases hend
    have hnew : (σ.builder.withBlocks 5).opened.cursor = ⟨σ.builder.size + 5⟩ := by
      rw [← Builder.size_withBlocks, Builder.opened_of_sealed hcur hsealed]
      rfl
    simp [hopen, hnew]

theorem edge_loopStart (hc : σ.OnBlock) : (loopStart σ).builder.Edge i j ↔
    σ.builder.Edge i j ∨ (i = (σ.builder.withBlocks 5).opened.cursor ∧ j = loopBlock σ 0) := by
  have hcur := onBlock_blocks hc 5
  rw [loopStart, edge_enter (FnState.onBlock_reopened hcur)]
  show (σ.builder.withBlocks 5).opened.Edge i j ∨ _ ↔ _
  rw [Builder.edge_opened, Builder.edge_withBlocks]
  have hopen := open_opened_blocks hc 5
  refine or_congr_right (and_congr ⟨And.left, ?_⟩ List.mem_singleton)
  rintro rfl
  exact ⟨rfl, hopen⟩

theorem edge_part (h : σ.Stays [] τ) (hj : j.index < σ.builder.size) :
    (τ.enter t k).builder.Edge i j ↔
      σ.builder.Edge i j ∨ ((i = τ.builder.cursor ∧ τ.builder.Open i) ∧ j ∈ t.successors) := by
  rw [edge_enter h.onBlock, h.code.edge_iff_of_lt hj]

theorem lt_size_enter (h : j.index < σ.builder.size) : j.index < (σ.enter t k).builder.size :=
  Nat.lt_of_lt_of_eq h Builder.size_left.symm

theorem loopBlock_lt (h : Looped init cond body post exit σ σ₁ σ₂ σ₃ σ₄) (hc : σ.OnBlock) {n : Nat}
    (hn : n < 5) : (loopBlock σ n).index < (loopStart σ).builder.size ∧
      (loopBlock σ n).index < σ₁.builder.size ∧ (loopBlock σ n).index < σ₂.builder.size ∧
        (loopBlock σ n).index < σ₃.builder.size ∧ (loopBlock σ n).index < σ₄.builder.size := by
  have hstart : (loopBlock σ n).index < (loopStart σ).builder.size :=
    Nat.lt_of_lt_of_le (Nat.add_lt_add_left hn _) (loopBlocks_le (site_loopStart hc) (by simp))
  have hlt₁ := Nat.lt_of_lt_of_le hstart h.init_stays.code.size
  have hlt₂ := Nat.lt_of_lt_of_le (lt_size_enter hlt₁) h.cond_stays.code.size
  have hlt₃ := Nat.lt_of_lt_of_le (lt_size_enter hlt₂) h.body_stays.code.size
  exact ⟨hstart, hlt₁, hlt₂, hlt₃, Nat.lt_of_lt_of_le (lt_size_enter hlt₃) h.post_stays.code.size⟩

theorem edge_afterLoop (h : Looped init cond body post exit σ σ₁ σ₂ σ₃ σ₄) (hc : σ.OnBlock)
    (hb : σ.builder.Bounded) {n : Nat} (hn : n < 5) :
    (afterLoop σ σ₄).builder.Edge i (loopBlock σ n) ↔
      (i = (σ.builder.withBlocks 5).opened.cursor ∧ n = 0) ∨
      ((i = σ₁.builder.cursor ∧ σ₁.builder.Open i) ∧ n = 1) ∨
      ((i = σ₂.builder.cursor ∧ σ₂.builder.Open i) ∧
        loopBlock σ n ∈ (leaveLoop (loopBlock σ 2) (loopBlock σ 4) exit).successors) ∨
      ((i = σ₃.builder.cursor ∧ σ₃.builder.Open i) ∧ n = 3) ∨
      ((i = σ₄.builder.cursor ∧ σ₄.builder.Open i) ∧ n = 1) := by
  obtain ⟨hstart, hlt₁, hlt₂, hlt₃, -⟩ := loopBlock_lt h hc hn
  have hold : ¬ σ.builder.Edge i (loopBlock σ n) := hb.not_edge (Nat.le_add_right _ _)
  have hbr : ∀ m, loopBlock σ n ∈ (Terminator.br (loopBlock σ m)).successors ↔ n = m := by
    intro m
    simp [Terminator.successors, loopBlock]
  have hzero : loopBlock σ n = loopBlock σ 0 ↔ n = 0 := by simp [loopBlock]
  rw [afterLoop, edge_part h.post_stays (lt_size_enter hlt₃),
    edge_part h.body_stays (lt_size_enter hlt₂), edge_part h.cond_stays (lt_size_enter hlt₁),
    edge_part h.init_stays hstart, edge_loopStart hc, hbr, hbr, hzero]
  simp only [hold, false_or, or_assoc]

end Loop

end Lower

/-! ## In the finished function -/

namespace Pass

open Stmt Lower

/-- The edges of an `if` in the function. Its condition was lowered to `v` and ended in `σ`; the
first branch ended in `σ₁`, the other one, if there is one, in `σ₂`, and after the statement there
is `τ`. -/
structure IfEdges (fctx : FnContext) (v : Value) (body : Stmt) (other : Option Stmt) (f : Function)
    (σ σ₁ σ₂ τ : FnState) : Prop where
  body : runOn (body.lower fctx) σ.onNew = (.ok (), σ₁)
  noOther : other = none → σ₂ = σ₁
  otherwise : ∀ s ∈ other, runOn (s.lower fctx) σ₁.onNew = (.ok (), σ₂)
  follow : τ.builder.cursor = ⟨σ₂.builder.size⟩
  /-- The condition branches to the first branch, and to the other one or what follows. -/
  cond : f.Ends σ.builder.cursor (.condBr v ⟨σ.builder.size⟩
    (if other.isSome then ⟨σ₁.builder.size⟩ else ⟨σ₂.builder.size⟩))
  bodyEdges : ∀ i, f.Edge i ⟨σ.builder.size⟩ ↔ i = σ.builder.cursor
  otherEdges : other.isSome → ∀ i, f.Edge i ⟨σ₁.builder.size⟩ ↔ i = σ.builder.cursor
  /-- What follows is entered from the ends of the branches that are open, and from the condition if
  there is no other branch. -/
  followEdges : ∀ i, f.Edge i ⟨σ₂.builder.size⟩ ↔
    (i = σ₁.builder.cursor ∧ σ₁.builder.Open i) ∨
      (other.isSome ∧ i = σ₂.builder.cursor ∧ σ₂.builder.Open i) ∨
        (other = none ∧ i = σ.builder.cursor)

/-- The edges of a loop in the function. The loop begins in `σ`; its start ended in `σ₁`, its
condition in `σ₂`, its body in `σ₃`, what is done after each round in `σ₄`, and after the statement
there is `τ`. Its blocks are `loopBlock σ 0` to `loopBlock σ 4`. -/
structure LoopEdges (fctx : FnContext) (init : Option Stmt) (cond : Option Expr)
    (post : Option Stmt) (body : Stmt) (f : Function) (exit : Option Value)
    (σ σ₁ σ₂ σ₃ σ₄ τ : FnState) : Prop where
  init : runOn (lowerOption fctx init) (loopStart σ) = (.ok (), σ₁)
  noCond : cond = none → exit = none
  cond : ∀ e ∈ cond, runOn (condition fctx e) (σ₁.enter (.br (loopBlock σ 1)) (loopBlock σ 1)) =
    (.ok exit, σ₂)
  body : runOn (body.lower fctx) (loopBodyStart σ exit σ₂) = (.ok (), σ₃)
  post : runOn (lowerOption fctx post) (σ₃.enter (.br (loopBlock σ 3)) (loopBlock σ 3)) =
    (.ok (), σ₄)
  follow : τ.builder.cursor = loopBlock σ 4
  /-- The start is entered from where control was, or from a new block if that was sealed. -/
  initEdges : ∀ i, f.Edge i (loopBlock σ 0) ↔
    (σ.builder.Open σ.builder.cursor ∧ i = σ.builder.cursor) ∨
      (¬ σ.builder.Open σ.builder.cursor ∧ i = ⟨σ.builder.size + 5⟩)
  condEdges : ∀ i, f.Edge i (loopBlock σ 1) ↔
    (i = σ₁.builder.cursor ∧ σ₁.builder.Open i) ∨ (i = σ₄.builder.cursor ∧ σ₄.builder.Open i)
  bodyEdges : ∀ i, f.Edge i (loopBlock σ 2) ↔ i = σ₂.builder.cursor
  postEdges : ∀ i, f.Edge i (loopBlock σ 3) ↔ i = σ₃.builder.cursor ∧ σ₃.builder.Open i
  /-- The loop is left by its condition only, if there is one that was lowered without an error. -/
  followEdges : ∀ i, f.Edge i (loopBlock σ 4) ↔ exit.isSome ∧ i = σ₂.builder.cursor
  ends : f.Ends σ₂.builder.cursor (leaveLoop (loopBlock σ 2) (loopBlock σ 4) exit)

variable {ctx : Context} {decl : FuncDecl} {span : Span} {s s' : Session} {f : Function}
  {fctx : FnContext} {m : Mark} {init post other : Option Stmt} {cond : Expr} {test : Option Expr}
  {body : Stmt} {v : Value} {σ τ υ : FnState}

theorem Placed.ifEdges (h : Placed fctx (.ifElse m init cond body other) f σ υ)
    (hd : Decides fctx init cond σ v τ) :
    ∃ σ₁ σ₂, IfEdges fctx v body other f τ σ₁ σ₂ υ := by
  obtain ⟨hstays, hopen⟩ := hd.flows h.onBlock
  obtain ⟨σ₁, σ₂, hbranched, rfl⟩ := ifElse_stages h.onBlock h.run hd
  obtain ⟨hsize₁, hsize₂, hlt₂⟩ := branch_sizes hbranched
  have hnone := not_edge_branches hbranched (hstays.code.bounded (by simp) h.bounded)
  have hsize := hstays.code.size
  have hlast : (afterBranches v (elseBranch fctx other) τ σ₁ σ₂).builder.size =
      σ₂.builder.size + 1 := by
    show ((σ₂.builder.withBlock.joined _ _).closed _ _).size = _
    rw [Builder.size_closed, Builder.size_joined, Builder.size_withBlock]
  have hedge : ∀ i j, τ.builder.size ≤ j.index → j.index ≤ σ₂.builder.size →
      (f.Edge i j ↔ σ₂.builder.Edge i j ∨
        (i ∈ branchEnds (elseBranch fctx other) σ₁ σ₂ ∧ j = ⟨σ₂.builder.size⟩) ∨
        (i = τ.builder.cursor ∧ j ∈ (branchTerm v (elseBranch fctx other) τ σ₁ σ₂).successors)) :=
    fun i j hlo hhi => (h.edges i j (Nat.le_trans hsize hlo) (by omega)).trans
      (edge_afterBranches hbranched hopen)
  have hterm : branchTerm v (elseBranch fctx other) τ σ₁ σ₂ = .condBr v ⟨τ.builder.size⟩
      (if other.isSome then ⟨σ₁.builder.size⟩ else ⟨σ₂.builder.size⟩) := by
    cases other <;> rfl
  have hisSome : (elseBranch fctx other).isSome = other.isSome := by cases other <;> rfl
  refine ⟨σ₁, σ₂, ⟨hbranched.first, ?_, ?_, rfl, ?_, fun i => ?_, fun hsome i => ?_, fun i => ?_⟩⟩
  · rintro rfl
    exact hbranched.none rfl
  · rintro s rfl
    exact (hbranched.second _ rfl).1
  · rw [← hterm]
    exact h.ends _ _ (ends_afterBranches hbranched hopen)
  · rw [hedge i ⟨τ.builder.size⟩ (Nat.le_refl _) (by simp only; omega), hterm]
    have hne : τ.builder.size ≠ σ₂.builder.size := by omega
    simp [(hnone i).1, hne, Terminator.successors]
  · have hne : σ₁.builder.size ≠ σ₂.builder.size := Nat.ne_of_lt (hlt₂ (hisSome.trans hsome))
    rw [hedge i ⟨σ₁.builder.size⟩ (Nat.le_of_lt hsize₁) hsize₂, hterm]
    simp [(hnone i).2.1, hne, hsome, Terminator.successors]
  · have hne : σ₂.builder.size ≠ τ.builder.size := by omega
    rw [hedge i ⟨σ₂.builder.size⟩ (by simp only; omega) (Nat.le_refl _), hterm,
      mem_branchEnds hbranched, hisSome]
    cases other with
    | none => simp [(hnone i).2.2, Terminator.successors]
    | some s =>
      have hne' : σ₂.builder.size ≠ σ₁.builder.size := Nat.ne_of_gt (hlt₂ rfl)
      simp [(hnone i).2.2, hne, hne', Terminator.successors]

theorem Placed.loopEdges (h : Placed fctx (.loop m init test post body) f σ υ) :
    ∃ exit σ₁ σ₂ σ₃ σ₄, LoopEdges fctx init test post body f exit σ σ₁ σ₂ σ₃ σ₄ υ := by
  obtain ⟨exit, σ₁, σ₂, σ₃, σ₄, hl, rfl⟩ := loop_stages h.onBlock h.run
  have hcond := site_next (site_loopStart h.onBlock) (by simp) hl.init_stays
    (successors_br 1 (by decide))
  have hopen : σ₂.builder.Open σ₂.builder.cursor := by
    have hflows : (σ₁.enter (.br (loopBlock σ 1)) (loopBlock σ 1)).Flows σ₂ :=
      loopCondition_flows fctx test _ (onBlock_of_site hcond) _ σ₂ hl.cond
    exact hflows.opened (hcond.opened _ List.mem_cons_self)
  have hcondEnd : ∀ i, (i = σ₂.builder.cursor ∧ σ₂.builder.Open i) ↔ i = σ₂.builder.cursor :=
    fun i => ⟨And.left, fun hi => ⟨hi, hi ▸ hopen⟩⟩
  have hexit : ∀ n, loopBlock σ n ∈ (leaveLoop (loopBlock σ 2) (loopBlock σ 4) exit).successors ↔
      n = 2 ∨ (exit.isSome ∧ n = 4) := by
    intro n
    cases exit <;> simp [leaveLoop, Terminator.successors, loopBlock]
  have hedge : ∀ n < 5, ∀ i, f.Edge i (loopBlock σ n) ↔
      (i = (σ.builder.withBlocks 5).opened.cursor ∧ n = 0) ∨
      ((i = σ₁.builder.cursor ∧ σ₁.builder.Open i) ∧ n = 1) ∨
      (i = σ₂.builder.cursor ∧ (n = 2 ∨ (exit.isSome ∧ n = 4))) ∨
      ((i = σ₃.builder.cursor ∧ σ₃.builder.Open i) ∧ n = 3) ∨
      ((i = σ₄.builder.cursor ∧ σ₄.builder.Open i) ∧ n = 1) := by
    intro n hn i
    have hlast := (loopBlock_lt hl h.onBlock hn).2.2.2.2
    rw [h.edges i (loopBlock σ n) (Nat.le_add_right _ _) (lt_size_enter hlast),
      edge_afterLoop hl h.onBlock h.bounded hn, hexit, hcondEnd]
  refine ⟨exit, σ₁, σ₂, σ₃, σ₄, ⟨hl.init, ?_, ?_, hl.body, hl.post, rfl, fun i => ?_, fun i => ?_,
    fun i => ?_, fun i => ?_, fun i => ?_, h.ends _ _ ?_⟩⟩
  · rintro rfl
    exact (Except.ok.inj (Prod.mk.inj hl.cond).1).symm
  · rintro e rfl
    exact hl.cond
  · rw [hedge 0 (by decide), ← mem_loopStart h.onBlock]
    simp
  · rw [hedge 1 (by decide)]
    simp
  · rw [hedge 2 (by decide)]
    simp
  · rw [hedge 3 (by decide)]
    simp
  · rw [hedge 4 (by decide)]
    simp [and_comm]
  · exact (apart_loopPost hl (Nat.le_refl _) (Nat.zero_le _)).le.ends
      (hl.body_stays.code.le.ends (Builder.ends_left hopen))

/-- In a finished function, wherever the statement stands in it and whatever is within it: the edges
of an `if` whose condition was lowered without an error, and of a loop. -/
theorem lower_edges (hrun : runOn (Pass.function ctx decl span) s = (.ok (some f), s')) :
    (∀ fctx m init cond body other rest σ,
      Visits ctx decl s fctx (.ifElse m init cond body other :: rest) σ →
        ∀ v τ, Decides fctx init cond σ v τ → ∃ σ₁ σ₂ υ,
          runOn (Stmt.lower fctx (.ifElse m init cond body other)) σ = (.ok (), υ) ∧
            IfEdges fctx v body other f τ σ₁ σ₂ υ) ∧
    ∀ fctx m init cond post body rest σ,
      Visits ctx decl s fctx (.loop m init cond post body :: rest) σ →
        ∃ exit σ₁ σ₂ σ₃ σ₄ υ,
          runOn (Stmt.lower fctx (.loop m init cond post body)) σ = (.ok (), υ) ∧
            LoopEdges fctx init cond post body f exit σ σ₁ σ₂ σ₃ σ₄ υ := by
  refine ⟨fun fctx m init cond body other rest σ hvisits v τ hd => ?_,
    fun fctx m init cond post body rest σ hvisits => ?_⟩
  · obtain ⟨υ, hplaced⟩ := hvisits.placed hrun
    obtain ⟨σ₁, σ₂, hedges⟩ := hplaced.ifEdges hd
    exact ⟨σ₁, σ₂, υ, hplaced.run, hedges⟩
  · obtain ⟨υ, hplaced⟩ := hvisits.placed hrun
    obtain ⟨exit, σ₁, σ₂, σ₃, σ₄, hedges⟩ := hplaced.loopEdges
    exact ⟨exit, σ₁, σ₂, σ₃, σ₄, υ, hplaced.run, hedges⟩

def flagContext : Context :=
  ⟨⟨64, true⟩, .ofList [(default, .basic .bool)], [], [("f", ⟨[⟨0⟩], ⟨0⟩⟩)]⟩

def flagSession : Session := ⟨(TypeStore.intern (.int 1) .empty).2, []⟩

def flagStart : FnState :=
  (runOn (Lower.build (Lower.addParams [] [(some "a", ⟨0⟩)]))
    ⟨flagSession.types, [], Builder.start "f" ⟨0⟩⟩).2

def flagDecl (body : Stmt) : FuncDecl :=
  let bool : TypeExpr := .ident .empty "bool"
  ⟨"f", [.mk ["a"] bool .empty], [.mk [] bool .empty], some body⟩

def flag : Expr := .ident default "a"

def flagScope : FnContext := ⟨flagContext, [("a", .ofLocal ⟨0⟩ ⟨0⟩)]⟩

theorem flag_visits {inner : List Stmt} (h : Stmt.Visits flagScope [body] flagStart inner τ) :
    Visits flagContext (flagDecl body) flagSession flagScope inner τ := by
  have hparams : runOn (Lower.build (Lower.addParams [] [(some "a", ⟨0⟩)]))
      ⟨flagSession.types, [], Builder.start "f" ⟨0⟩⟩ = (.ok flagScope.scope, flagStart) :=
    runOn_of_toOption (by decide +kernel)
  exact ⟨body, flagStart, rfl, ⟨⟨[⟨0⟩], ⟨0⟩⟩, flagScope.scope, rfl, rfl, hparams⟩, h⟩

theorem exists_function (h : (runOn (Pass.function ctx decl span) s).1.toOption.any Option.isSome =
    true) : ∃ f s', runOn (Pass.function ctx decl span) s = (.ok (some f), s') := by
  obtain ⟨r, s', hrun⟩ := exists_runOn (Pass.function ctx decl span) s
  rw [hrun] at h ⊢
  rcases r with e | _ | f
  · cases h
  · cases h
  · exact ⟨f, s', rfl⟩

/-- A loop without a condition, left by a return if the parameter holds. -/
def endless : Stmt :=
  .loop default none none none (.ifElse default none flag (.ret default [flag]) none)

/-- Block 5 follows the loop and block 7 the `if`: nothing leads to the former, and the latter is
entered from the condition in block 3 only. -/
theorem lower_edges_endless :
    ∃ f s', runOn (Pass.function flagContext (flagDecl endless) .empty) flagSession =
      (.ok (some f), s') ∧ (∀ i, ¬ f.Edge i ⟨5⟩) ∧ ∀ i, f.Edge i ⟨7⟩ ↔ i = ⟨3⟩ := by
  let start := loopBodyStart flagStart none
    ((loopStart flagStart).enter (.br (loopBlock flagStart 1)) (loopBlock flagStart 1))
  have hcond : runOn (condition flagScope flag) start.reopened =
      (.ok (some (.ofLocal ⟨0⟩ ⟨0⟩)), (runOn (condition flagScope flag) start.reopened).2) :=
    runOn_of_toOption (by decide +kernel)
  have hfound : (runOn (Pass.function flagContext (flagDecl endless) .empty)
      flagSession).1.toOption.any Option.isSome = true := by decide +kernel
  obtain ⟨f, s', hrun⟩ := exists_function hfound
  obtain ⟨hif, hloop⟩ := lower_edges hrun
  have hbegins : Begins flagScope none none flagStart none _ := ⟨loopStart flagStart, rfl, rfl⟩
  obtain ⟨exit, σ₁, σ₂, σ₃, σ₄, υ, -, hleft⟩ := hloop flagScope default none none none
    (.ifElse default none flag (.ret default [flag]) none) [] flagStart (flag_visits .here)
  obtain ⟨τ₁, τ₂, υ', -, hbranched⟩ := hif flagScope default none flag (.ret default [flag]) none []
    start (flag_visits (.child (.loopBody hbegins) .here)) _ _ ⟨start, rfl, hcond⟩
  obtain rfl := hleft.noCond rfl
  obtain rfl := hbranched.noOther rfl
  have hloopFollow : loopBlock flagStart 4 = ⟨5⟩ := by decide +kernel
  have hcondEnd : (runOn (condition flagScope flag) start.reopened).2.builder.cursor = ⟨3⟩ := by
    decide +kernel
  have hreturns : runOn (Stmt.lower flagScope (.ret default [flag]))
      (runOn (condition flagScope flag) start.reopened).2.onNew = (.ok (), τ₂) := hbranched.body
  have hreturned : (runOn (Stmt.lower flagScope (.ret default [flag]))
      (runOn (condition flagScope flag) start.reopened).2.onNew).2.builder.size = 7 ∧
    (runOn (Stmt.lower flagScope (.ret default [flag]))
      (runOn (condition flagScope flag) start.reopened).2.onNew).2.builder.cursorIsOpen.toOption =
        some false := by decide +kernel
  rw [hreturns] at hreturned
  have hsealed : ¬ τ₂.builder.Open τ₂.builder.cursor := by
    intro hopen
    have htrue : τ₂.builder.cursorIsOpen = .ok true := Builder.isOpen_of_open hopen
    rw [htrue] at hreturned
    cases hreturned.2
  refine ⟨f, s', hrun, fun i hedge => ?_, fun i => ?_⟩
  · rw [← hloopFollow] at hedge
    exact absurd ((hleft.followEdges i).mp hedge).1 (by simp)
  · have hedges := hbranched.followEdges i
    rw [hreturned.1, hcondEnd] at hedges
    rw [hedges]
    refine ⟨?_, fun hi => .inr (.inr ⟨rfl, hi⟩)⟩
    rintro (⟨rfl, hopen⟩ | ⟨hnone, -⟩ | ⟨-, hi⟩)
    · exact absurd hopen hsealed
    · cases hnone
    · exact hi

end Pass

end Midend
