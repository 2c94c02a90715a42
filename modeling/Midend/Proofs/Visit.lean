import Midend.Proofs.FrameStmt

/-!
# Midend.Proofs.Visit

The statements that lowering comes to, each with the state in which it does: those of the body and
those within others (`Visits`). Where lowering of the body ends well, so does lowering of what is
within, and from then on types are only added and nothing branches anew to the blocks that were
made for it (`Visits.completes`).
-/

namespace Midend

open Ir

namespace Ir.Builder

variable {b b' b₁ b₂ : Builder} {exits live : List BlockId} {i j k : BlockId} {t : Terminator}
  {lo hi lo' hi' : Nat}

/-- Code was added, and what is branched to anew was made meanwhile. -/
structure Further (b b' : Builder) : Prop where
  le : b.Le b'
  edges : ∀ i j, b'.Edge i j → b.Edge i j ∨ (b.size ≤ j.index ∧ j.index < b'.size)

/-- What is branched to is there. -/
def Bounded (b : Builder) : Prop := ∀ i j, b.Edge i j → j.index < b.size

theorem Region.further (h : Region [] b b' live) : b.Further b' :=
  ⟨h.le, fun i j hedge => by simpa using h.edges i j hedge⟩

namespace Further

theorem refl (b : Builder) : b.Further b := ⟨.refl b, fun _ _ h => .inl h⟩

theorem trans (h : b.Further b₁) (h' : b₁.Further b₂) : b.Further b₂ where
  le := h.le.trans h'.le
  edges i j hedge := by
    have hsize := h.le.size
    have hsize' := h'.le.size
    rcases h'.edges i j hedge with hold | hnew
    · exact (h.edges i j hold).imp_right fun hj => ⟨hj.1, Nat.lt_of_lt_of_le hj.2 hsize'⟩
    · exact .inr ⟨Nat.le_trans hsize hnew.1, hnew.2⟩

theorem bounded (h : b.Further b') (hb : b.Bounded) : b'.Bounded := fun i j hedge =>
  (h.edges i j hedge).elim (fun hold => Nat.lt_of_lt_of_le (hb i j hold) h.le.size) And.right

end Further

/-- Code was added, and nothing branches anew to the blocks from `lo` up to `hi`. -/
structure Apart (lo hi : Nat) (b b' : Builder) : Prop where
  le : b.Le b'
  edges : ∀ i j, lo ≤ j.index → j.index < hi → b'.Edge i j → b.Edge i j

namespace Apart

theorem edge_iff (h : Apart lo hi b b') (hlo : lo ≤ j.index) (hhi : j.index < hi) :
    b'.Edge i j ↔ b.Edge i j := ⟨h.edges i j hlo hhi, h.le.edge⟩

theorem refl (lo hi : Nat) (b : Builder) : Apart lo hi b b := ⟨.refl b, fun _ _ _ _ h => h⟩

theorem trans (h : Apart lo hi b b₁) (h' : Apart lo hi b₁ b₂) : Apart lo hi b b₂ :=
  ⟨h.le.trans h'.le, fun i j hlo hhi hedge => h.edges i j hlo hhi (h'.edges i j hlo hhi hedge)⟩

theorem mono (h : Apart lo hi b b') (hlo : lo ≤ lo') (hhi : hi' ≤ hi) : Apart lo' hi' b b' :=
  ⟨h.le, fun i j hj hj' => h.edges i j (Nat.le_trans hlo hj) (Nat.lt_of_lt_of_le hj' hhi)⟩

theorem confined (h : Confined [] b b') (hhi : hi ≤ b.size) : Apart lo hi b b' :=
  ⟨h.le, fun _ _ _ hj hedge => (h.edge_iff (Nat.lt_of_lt_of_le hj hhi) (by simp)).mp hedge⟩

theorem moved (i : BlockId) : Apart lo hi b (b.moved i) := ⟨.moved b i, fun _ _ _ _ h => h⟩

theorem withBlock : Apart lo hi b b.withBlock :=
  ⟨.withBlock b, fun _ _ _ _ h => edge_withBlock.mp h⟩

theorem closed (hopen : b.Open k) (ht : ∀ j ∈ t.successors, j.index < lo ∨ hi ≤ j.index) :
    Apart lo hi b (b.closed k t) where
  le := .closed hopen t
  edges i j hlo hhi hedge := by
    rcases (edge_closed hopen).mp hedge with hold | ⟨_, hj⟩
    · exact hold
    · rcases ht j hj with hlt | hge
      · exact absurd hlo (Nat.not_le.mpr hlt)
      · exact absurd hhi (Nat.not_lt.mpr hge)

theorem left (hc : b.cursor.index < b.size)
    (ht : ∀ j ∈ t.successors, j.index < lo ∨ hi ≤ j.index) : Apart lo hi b (b.left t) := by
  by_cases hopen : b.Open b.cursor
  · rw [left_of_open hopen]
    exact .closed hopen ht
  · rw [left_of_sealed hc hopen]
    exact .refl lo hi b

theorem joined {ends : List BlockId} (hnodup : ends.Nodup) (hopen : ∀ i ∈ ends, b.Open i)
    (hk : k.index < lo ∨ hi ≤ k.index) : Apart lo hi b (b.joined k ends) := by
  induction ends generalizing b with
  | nil => exact .refl lo hi b
  | cons i ends ih =>
    obtain ⟨hi, hnodup⟩ := List.nodup_cons.mp hnodup
    refine (closed (hopen i List.mem_cons_self) fun j hj => ?_).trans (ih hnodup fun n hn => ?_)
    · exact List.mem_singleton.mp hj ▸ hk
    · exact open_closed.mpr ⟨fun heq => hi (heq ▸ hn), hopen n (List.mem_cons_of_mem _ hn)⟩

end Apart

end Ir.Builder

namespace Stmt

open Lower

variable {ctx : FnContext} {s : Stmt} {inner outer : List Stmt} {σ τ υ : FnState}

/-- The condition of an `if` was lowered to `v`, which has one bit. -/
def Decides (ctx : FnContext) (init : Option Stmt) (cond : Expr) (σ : FnState) (v : Value)
    (τ : FnState) : Prop :=
  ∃ σ₁, runOn (lowerOption ctx init) σ = (.ok (), σ₁) ∧
    runOn (condition ctx cond) σ₁.reopened = (.ok (some v), τ)

/-- The tag of a switch was lowered without an error, if it has one. -/
def Tags (ctx : FnContext) (init : Option Stmt) (tag : Option Expr) (σ : FnState)
    (v : Option Value) (τ : FnState) : Prop :=
  ∃ σ₁, runOn (lowerOption ctx init) σ = (.ok (), σ₁) ∧
    runOn (switchTag ctx tag) σ₁.reopened = (.ok (some v), τ)

/-- The start and the condition of a loop were lowered. -/
def Begins (ctx : FnContext) (init : Option Stmt) (cond : Option Expr) (σ : FnState)
    (exit : Option Value) (τ : FnState) : Prop :=
  ∃ σ₁, runOn (lowerOption ctx init) (loopStart σ) = (.ok (), σ₁) ∧
    runOn (loopCondition ctx cond) (σ₁.enter (.br (loopBlock σ 1)) (loopBlock σ 1)) = (.ok exit, τ)

/-- At the body of a loop, where the condition has ended. -/
def loopBodyStart (σ : FnState) (exit : Option Value) (σ₂ : FnState) : FnState :=
  σ₂.enter (leaveLoop (loopBlock σ 2) (loopBlock σ 4) exit) (loopBlock σ 2)

/-- Lowering of the statement from `σ` comes to the statements within it in the state `τ`. -/
inductive Child (ctx : FnContext) : Stmt → FnState → List Stmt → FnState → Prop where
  | block {m : Mark} {body : List Stmt} {σ : FnState} : Child ctx (.block m body) σ body σ
  | ifInit {m : Mark} {init : Stmt} {cond : Expr} {body : Stmt} {other : Option Stmt}
      {σ : FnState} : Child ctx (.ifElse m (some init) cond body other) σ [init] σ
  | ifThen {m : Mark} {init : Option Stmt} {cond : Expr} {body : Stmt} {other : Option Stmt}
      {v : Value} {σ σ₁ : FnState} :
      Decides ctx init cond σ v σ₁ → Child ctx (.ifElse m init cond body other) σ [body] σ₁.onNew
  | ifOther {m : Mark} {init : Option Stmt} {cond : Expr} {body other : Stmt} {v : Value}
      {σ σ₁ σ₂ : FnState} :
      Decides ctx init cond σ v σ₁ → runOn (body.lower ctx) σ₁.onNew = (.ok (), σ₂) →
      Child ctx (.ifElse m init cond body (some other)) σ [other] σ₂.onNew
  | loopInit {m : Mark} {init : Stmt} {cond : Option Expr} {post : Option Stmt} {body : Stmt}
      {σ : FnState} : Child ctx (.loop m (some init) cond post body) σ [init] (loopStart σ)
  | loopBody {m : Mark} {init : Option Stmt} {cond : Option Expr} {post : Option Stmt}
      {body : Stmt} {exit : Option Value} {σ σ₂ : FnState} :
      Begins ctx init cond σ exit σ₂ →
      Child ctx (.loop m init cond post body) σ [body] (loopBodyStart σ exit σ₂)
  | loopPost {m : Mark} {init : Option Stmt} {cond : Option Expr} {post body : Stmt}
      {exit : Option Value} {σ σ₂ σ₃ : FnState} :
      Begins ctx init cond σ exit σ₂ →
      runOn (body.lower ctx) (loopBodyStart σ exit σ₂) = (.ok (), σ₃) →
      Child ctx (.loop m init cond (some post) body) σ [post]
        (σ₃.enter (.br (loopBlock σ 3)) (loopBlock σ 3))
  | switchInit {m : Mark} {init : Stmt} {tag : Option Expr} {clauses : List Clause}
      {σ : FnState} : Child ctx (.switch m (some init) tag clauses) σ [init] σ
  | clause {m : Mark} {init : Option Stmt} {tag : Option Expr} {before after : List Clause}
      {clause : Clause} {v : Option Value} {lasts : List (Option BlockId)}
      {σ σ₁ σ₂ σ₃ : FnState} :
      Tags ctx init tag σ v σ₁ →
      runOn (testClauses ctx v (entered (before ++ clause :: after) σ₁))
        (selectStart (before ++ clause :: after) σ₁) = (.ok (), σ₂) →
      runOn (lowerClauses ctx before (σ₁.builder.newBlocks before.length)) σ₂ = (.ok lasts, σ₃) →
      Child ctx (.switch m init tag (before ++ clause :: after)) σ clause.body
        (σ₃.on (σ₃.builder.moved ⟨σ₁.builder.size + before.length⟩))

/-- Lowering of the first statements from `σ` comes to the second ones in the state `τ`. -/
inductive Visits (ctx : FnContext) : List Stmt → FnState → List Stmt → FnState → Prop where
  | here {ss : List Stmt} {σ : FnState} : Visits ctx ss σ ss σ
  | rest {s : Stmt} {outer inner : List Stmt} {σ τ υ : FnState} :
      runOn (s.lower ctx) σ = (.ok (), τ) → Visits ctx outer τ inner υ →
      Visits ctx (s :: outer) σ inner υ
  | child {s : Stmt} {ss outer inner : List Stmt} {σ τ υ : FnState} :
      Child ctx s σ ss τ → Visits ctx ss τ inner υ → Visits ctx (s :: outer) σ inner υ

/-! ## Before what is within -/

/-- Types and code were added, and the cursor is on a block. -/
structure Adds (σ τ : FnState) : Prop where
  types : σ.types ≤ τ.types
  code : σ.builder.Further τ.builder
  onBlock : τ.OnBlock

namespace Adds

theorem refl (hc : σ.OnBlock) : Adds σ σ := ⟨TypeStore.le_refl _, .refl _, hc⟩

theorem trans (h : Adds σ τ) (h' : Adds τ υ) : Adds σ υ :=
  ⟨TypeStore.le_trans h.types h'.types, h.code.trans h'.code, h'.onBlock⟩

theorem of_stays (h : σ.Stays [] τ) : Adds σ τ := ⟨h.types, h.code.toRegion.further, h.onBlock⟩

theorem of_site {live : List BlockId} (htypes : σ.types ≤ τ.types)
    (h : Builder.Site [] σ.builder τ.builder (τ.builder.cursor :: live)) : Adds σ τ :=
  ⟨htypes, h.toRegion.further, onBlock_of_site h⟩

theorem onNew (h : Adds σ τ) : Adds σ τ.onNew :=
  h.trans ⟨TypeStore.le_refl _, ((Builder.Region.refl [] τ.builder).withBlock.moved _).further,
    τ.onBlock_onNew⟩

end Adds

section Runs

variable {init : Option Stmt}

theorem runOn_lowerAll_singleton (h : runOn (s.lower ctx) σ = (.ok (), τ)) :
    runOn (lowerAll ctx [s]) σ = (.ok (), τ) := by
  rw [lowerAll, runOn_bind_ok h]
  rfl

theorem stays_of_lower (hc : σ.OnBlock) (h : runOn (s.lower ctx) σ = (.ok (), τ)) :
    σ.Stays [] τ := lower_staying ctx s σ hc _ τ h

theorem stays_of_lowerAll (hc : σ.OnBlock) (h : runOn (lowerAll ctx inner) σ = (.ok (), τ)) :
    σ.Stays [] τ := lowerAll_staying ctx inner σ hc _ τ h

theorem stays_of_lowerOption (hc : σ.OnBlock) (h : runOn (lowerOption ctx init) σ = (.ok (), τ)) :
    σ.Stays [] τ := lowerOption_staying ctx init σ hc _ τ h

theorem Decides.flows {cond : Expr} {v : Value} (h : Decides ctx init cond σ v τ)
    (hc : σ.OnBlock) : σ.Stays [] τ ∧ τ.builder.Open τ.builder.cursor := by
  obtain ⟨σ₁, hinit, hcond⟩ := h
  have hstays := stays_of_lowerOption hc hinit
  have hflows : σ₁.reopened.Flows τ :=
    condition_flows ctx cond _ (FnState.onBlock_reopened hstays.onBlock) _ τ hcond
  exact ⟨(hstays.trans (FnState.stays_reopened hstays.onBlock)).trans hflows.toStays,
    hflows.opened (Builder.open_opened hstays.onBlock)⟩

theorem Tags.flows {tag : Option Expr} {v : Option Value} (h : Tags ctx init tag σ v τ)
    (hc : σ.OnBlock) : σ.Stays [] τ ∧ τ.builder.Open τ.builder.cursor := by
  obtain ⟨σ₁, hinit, htag⟩ := h
  have hstays := stays_of_lowerOption hc hinit
  have hflows : σ₁.reopened.Flows τ :=
    switchTag_flows ctx tag _ (FnState.onBlock_reopened hstays.onBlock) _ τ htag
  exact ⟨(hstays.trans (FnState.stays_reopened hstays.onBlock)).trans hflows.toStays,
    hflows.opened (Builder.open_opened hstays.onBlock)⟩

theorem Begins.site {cond : Option Expr} {exit : Option Value} (h : Begins ctx init cond σ exit τ)
    (hc : σ.OnBlock) : σ.types ≤ τ.types ∧ Builder.Site [] σ.builder
      (loopBodyStart σ exit τ).builder [loopBlock σ 2, loopBlock σ 3, loopBlock σ 4] := by
  obtain ⟨σ₁, hinit, hcond⟩ := h
  have hstart := site_loopStart hc
  have h₁ := stays_of_lowerOption (onBlock_of_site hstart) hinit
  have hsite₁ := site_next hstart (by simp) h₁ (successors_br 1 (by decide))
  have hflows : (σ₁.enter (.br (loopBlock σ 1)) (loopBlock σ 1)).Flows τ :=
    loopCondition_flows ctx cond _ (onBlock_of_site hsite₁) _ τ hcond
  exact ⟨TypeStore.le_trans h₁.types hflows.types,
    site_next hsite₁ (by simp) hflows.toStays (successors_leaveLoop exit)⟩

theorem Begins.eq_of_looped {cond : Option Expr} {exit exit' : Option Value}
    {body post : Lower Unit} {σ₁ σ₂ σ₃ σ₄ : FnState} (h : Begins ctx init cond σ exit τ)
    (hl : Looped (lowerOption ctx init) (loopCondition ctx cond) body post exit' σ σ₁ σ₂ σ₃ σ₄) :
    exit = exit' ∧ τ = σ₂ := by
  obtain ⟨σ₁', hinit, hcond⟩ := h
  obtain ⟨-, rfl⟩ := Prod.mk.inj (hinit.symm.trans hl.init)
  obtain ⟨hexit, rfl⟩ := Prod.mk.inj (hcond.symm.trans hl.cond)
  exact ⟨Except.ok.inj hexit, rfl⟩

end Runs

theorem Child.adds (h : Child ctx s σ inner τ) (hc : σ.OnBlock) : Adds σ τ := by
  cases h with
  | block | ifInit | switchInit => exact .refl hc
  | ifThen hdecides => exact (Adds.of_stays (hdecides.flows hc).1).onNew
  | ifOther hdecides hthen =>
    have hdecided := Adds.of_stays (hdecides.flows hc).1
    exact (hdecided.onNew.trans (.of_stays (stays_of_lower hdecided.onNew.onBlock hthen))).onNew
  | loopInit => exact .of_site (TypeStore.le_refl _) (site_loopStart hc)
  | loopBody hbegins =>
    obtain ⟨htypes, hsite⟩ := hbegins.site hc
    exact .of_site htypes hsite
  | loopPost hbegins hbody =>
    obtain ⟨htypes, hsite⟩ := hbegins.site hc
    have hstays := stays_of_lower (onBlock_of_site hsite) hbody
    exact .of_site (TypeStore.le_trans htypes hstays.types)
      (site_next hsite (by simp) hstays (successors_br 3 (by decide)))
  | @clause _ _ _ before after clause v lasts _ σ₁ σ₂ _ htags hasked hfirsts =>
    obtain ⟨hstays, hopen⟩ := htags.flows hc
    have hasked_stays := testClauses_staying v (before ++ clause :: after) σ₁ _
      (onBlock_blocks hopen.lt_size _) _ σ₂ hasked
    have hsite := site_asked hopen hasked_stays
    obtain ⟨rest, -, hsplit⟩ := σ₁.builder.exists_newBlocks_split before.length after.length
    rw [List.length_append, List.length_cons, hsplit, List.append_assoc, List.cons_append] at hsite
    obtain ⟨hfilled, hsite⟩ := lowerClauses_ends before _ (Builder.length_newBlocks _)
      (fun c _ => lowerAll_staying ctx c.body) hsite _ _ hfirsts
    have hentry := (hsite.perm List.perm_middle).moved ⟨σ₁.builder.size + before.length⟩
    exact (Adds.of_stays hstays).trans
      (.of_site (TypeStore.le_trans hasked_stays.types hfilled.types) hentry)

theorem Visits.adds (h : Visits ctx outer σ inner τ) (hc : σ.OnBlock) : Adds σ τ := by
  induction h with
  | here => exact .refl hc
  | rest hrun _ ih =>
    have hadds := Adds.of_stays (stays_of_lower hc hrun)
    exact hadds.trans (ih hadds.onBlock)
  | child hchild _ ih =>
    have hadds := hchild.adds hc
    exact hadds.trans (ih hadds.onBlock)

section Stages

variable {m : Mark} {init post other : Option Stmt} {cond : Expr} {test tag : Option Expr}
  {body : Stmt} {clauses : List Clause} {v : Value} {w : Option Value}

theorem elseBranch_staying (ctx : FnContext) (other : Option Stmt) :
    ∀ m ∈ elseBranch ctx other, Staying [] m := by
  rintro m hm
  obtain ⟨s, -, rfl⟩ := Option.map_eq_some_iff.mp hm
  exact lower_staying ctx s

theorem ifElse_init (hc : σ.OnBlock)
    (h : runOn (lower ctx (.ifElse m init cond body other)) σ = (.ok (), υ)) :
    ∃ τ, runOn (lowerOption ctx init) σ = (.ok (), τ) ∧ τ.Stays [] υ := by
  rw [lower_ifElse] at h
  obtain ⟨_, τ, hinit, hrest⟩ := runOn_bind_eq_ok h
  exact ⟨τ, hinit, branch_staying (lower_staying ctx body) (elseBranch_staying ctx other) ctx cond τ
    (stays_of_lowerOption hc hinit).onBlock _ υ hrest⟩

theorem ifElse_stages (hc : σ.OnBlock)
    (h : runOn (lower ctx (.ifElse m init cond body other)) σ = (.ok (), υ))
    (hd : Decides ctx init cond σ v τ) :
    ∃ σ₁ σ₂, Branched (body.lower ctx) (elseBranch ctx other) τ σ₁ σ₂ ∧
      υ = afterBranches v (elseBranch ctx other) τ σ₁ σ₂ := by
  have hopen := (hd.flows hc).2
  obtain ⟨σ₁, hinit, hcond⟩ := hd
  have hblock := (stays_of_lowerOption hc hinit).onBlock
  rw [lower_ifElse, runOn_bind_ok hinit, runOn_bind_ok (runOn_ensureOpen hblock)] at h
  have hcond' : runOn (condition ctx cond) (σ₁.on σ₁.builder.opened) = (.ok (some v), τ) := hcond
  rw [runOn_bind_ok hcond'] at h
  exact branch_ends (lower_staying ctx body) (elseBranch_staying ctx other) hopen v _ υ h

theorem loop_stages (hc : σ.OnBlock)
    (h : runOn (lower ctx (.loop m init test post body)) σ = (.ok (), υ)) :
    ∃ exit σ₁ σ₂ σ₃ σ₄, Looped (lowerOption ctx init) (loopCondition ctx test) (body.lower ctx)
      (lowerOption ctx post) exit σ σ₁ σ₂ σ₃ σ₄ ∧ υ = afterLoop σ σ₄ := by
  rw [lower_loop] at h
  exact (loop_ends (lowerOption_staying ctx init) (loopCondition_flows ctx test).staying
    (lower_staying ctx body) (lowerOption_staying ctx post) hc _ υ h).2

theorem switch_init (hc : σ.OnBlock)
    (h : runOn (lower ctx (.switch m init tag clauses)) σ = (.ok (), υ)) :
    ∃ τ, runOn (lowerOption ctx init) σ = (.ok (), τ) ∧ τ.Stays [] υ := by
  rw [lower_switch] at h
  obtain ⟨_, τ, hinit, hrest⟩ := runOn_bind_eq_ok h
  exact ⟨τ, hinit, select_staying tag clauses (lowerClauses_staying ctx clauses) τ
    (stays_of_lowerOption hc hinit).onBlock _ υ hrest⟩

theorem switch_stages (hc : σ.OnBlock)
    (h : runOn (lower ctx (.switch m init tag clauses)) σ = (.ok (), υ))
    (ht : Tags ctx init tag σ w τ) :
    ∃ lasts σ₁ σ₂, Selected ctx w clauses lasts τ σ₁ σ₂ ∧ υ = afterSelect lasts σ₁ σ₂ := by
  have hopen := (ht.flows hc).2
  obtain ⟨σ₁, hinit, htag⟩ := ht
  have hblock := (stays_of_lowerOption hc hinit).onBlock
  rw [lower_switch, runOn_bind_ok hinit, runOn_bind_ok (runOn_ensureOpen hblock)] at h
  have htag' : runOn (switchTag ctx tag) (σ₁.on σ₁.builder.opened) = (.ok (some w), τ) := htag
  rw [runOn_bind_ok htag'] at h
  exact (select_ends w clauses (lowerClauses_staying ctx clauses) hopen _ υ h).2

end Stages

/-! ## After what is within -/

section After

variable {lo hi : Nat} {m : Lower Unit} {other : Option (Lower Unit)} {v : Value}
  {σ₁ σ₂ : FnState} {t : Terminator} {k : BlockId}

theorem apart_onNew (σ : FnState) : Builder.Apart lo hi σ.builder σ.onNew.builder :=
  Builder.Apart.withBlock.trans (.moved _)

theorem apart_enter (hc : σ.OnBlock) (ht : ∀ j ∈ t.successors, j.index < lo ∨ hi ≤ j.index) :
    Builder.Apart lo hi σ.builder (σ.enter t k).builder :=
  (Builder.Apart.left hc ht).trans (.moved _)

theorem apart_branches (h : Branched m other σ σ₁ σ₂) (hopen : σ.builder.Open σ.builder.cursor)
    (hhi : hi ≤ σ₂.builder.size)
    (ht : ∀ j ∈ (branchTerm v other σ σ₁ σ₂).successors, j.index < lo ∨ hi ≤ j.index) :
    Builder.Apart lo hi σ₂.builder (afterBranches v other σ σ₁ σ₂).builder := by
  have hsite := h.site_follow hopen
  have hopen' : ∀ i ∈ branchEnds other σ₁ σ₂, σ₂.builder.withBlock.Open i := fun i hi =>
    hsite.opened i (List.mem_append_left _ hi)
  obtain ⟨hnodup, -, hne⟩ := List.nodup_append.mp hsite.nodup
  refine Builder.Apart.withBlock.trans ((Builder.Apart.joined hnodup hopen' (.inr hhi)).trans
    ((Builder.Apart.closed (Builder.open_joined.mpr ⟨fun hmem => ?_, hsite.opened _ (by simp)⟩)
      ht).trans (.moved _)))
  exact hne _ hmem σ.builder.cursor (by simp) rfl

theorem apart_other (h : Branched m other σ σ₁ σ₂) (hhi : hi ≤ σ₁.builder.size) :
    Builder.Apart lo hi σ₁.builder σ₂.builder ∧ σ₁.builder.size ≤ σ₂.builder.size := by
  cases other with
  | none =>
    obtain rfl := h.none rfl
    exact ⟨.refl _ _ _, Nat.le_refl _⟩
  | some m' =>
    have hcode := (h.second m' rfl).2.code
    have hnew : σ₁.builder.size < σ₁.onNew.builder.size := σ₁.onBlock_onNew
    exact ⟨(apart_onNew σ₁).trans (.confined hcode (Nat.le_trans hhi (Nat.le_of_lt hnew))),
      Nat.le_of_lt (Nat.lt_of_lt_of_le hnew hcode.size)⟩

theorem branchTerm_targets (h : Branched m other σ σ₁ σ₂) :
    ∀ j ∈ (branchTerm v other σ σ₁ σ₂).successors,
      j.index < σ.onNew.builder.size ∨ σ₁.builder.size ≤ j.index := by
  intro j hj
  rcases List.mem_pair.mp hj with rfl | rfl
  · exact .inl σ.onBlock_onNew
  · cases other with
    | none =>
      obtain rfl := h.none rfl
      exact .inr (Nat.le_refl _)
    | some m' => exact .inr (Nat.le_refl _)

theorem apart_part {σ τ υ : FnState} (hlo : σ.builder.size + 5 ≤ lo) (hhi : hi ≤ τ.builder.size)
    (hc : τ.OnBlock) (ht : ∀ j ∈ t.successors, ∃ n < 5, j = loopBlock σ n)
    (hm : (τ.enter t k).Stays [] υ) :
    Builder.Apart lo hi τ.builder υ.builder ∧ hi ≤ υ.builder.size := by
  have hsize : hi ≤ (τ.enter t k).builder.size := by
    show hi ≤ (τ.builder.left t).size
    rwa [Builder.size_left]
  refine ⟨(apart_enter hc fun j hj => .inl ?_).trans (.confined hm.code hsize),
    Nat.le_trans hsize hm.code.size⟩
  obtain ⟨n, hn, rfl⟩ := ht j hj
  exact Nat.lt_of_lt_of_le (Nat.add_lt_add_left hn _) hlo

section Loop

variable {init body post : Lower Unit} {cond : Lower (Option Value)} {exit : Option Value}
  {σ₃ σ₄ : FnState}

theorem apart_loopEnd (h : Looped init cond body post exit σ σ₁ σ₂ σ₃ σ₄)
    (hlo : σ.builder.size + 5 ≤ lo) :
    Builder.Apart lo hi σ₄.builder (afterLoop σ σ₄).builder :=
  apart_enter h.post_stays.onBlock fun j hj => .inl (by
    obtain ⟨n, hn, rfl⟩ := successors_br 1 (by decide) j hj
    exact Nat.lt_of_lt_of_le (Nat.add_lt_add_left hn _) hlo)

theorem apart_loopPost (h : Looped init cond body post exit σ σ₁ σ₂ σ₃ σ₄)
    (hlo : σ.builder.size + 5 ≤ lo) (hhi : hi ≤ σ₃.builder.size) :
    Builder.Apart lo hi σ₃.builder (afterLoop σ σ₄).builder :=
  (apart_part hlo hhi h.body_stays.onBlock (successors_br 3 (by decide)) h.post_stays).1.trans
    (apart_loopEnd h hlo)

theorem apart_loopInit (h : Looped init cond body post exit σ σ₁ σ₂ σ₃ σ₄)
    (hlo : σ.builder.size + 5 ≤ lo) (hhi : hi ≤ σ₁.builder.size) :
    Builder.Apart lo hi σ₁.builder (afterLoop σ σ₄).builder := by
  obtain ⟨hcond, hhi⟩ := apart_part hlo hhi h.init_stays.onBlock (successors_br 1 (by decide))
    h.cond_stays
  obtain ⟨hbody, hhi⟩ := apart_part hlo hhi h.cond_stays.onBlock (successors_leaveLoop exit)
    h.body_stays
  exact hcond.trans (hbody.trans (apart_loopPost h hlo hhi))

end Loop

theorem apart_filled {clauses : List Clause} {entries : List BlockId}
    {lasts : List (Option BlockId)} (h : Fills ctx clauses entries lasts σ υ)
    (hhi : hi ≤ σ.builder.size) :
    Builder.Apart lo hi σ.builder υ.builder ∧ hi ≤ υ.builder.size := by
  induction h with
  | nil => exact ⟨.refl _ _ _, hhi⟩
  | @cons _ _ entry _ _ σ τ υ _ hstays _ ih =>
    have hsize : σ.builder.size ≤ τ.builder.size := hstays.code.size
    have hrest := ih (Nat.le_trans hhi hsize)
    refine ⟨?_, hrest.2⟩
    have hbody : Builder.Apart lo hi (σ.builder.moved entry) τ.builder := .confined hstays.code hhi
    exact (Builder.Apart.moved entry).trans (hbody.trans hrest.1)

theorem apart_select {w : Option Value} {clauses : List Clause} {lasts : List (Option BlockId)}
    (h : Selected ctx w clauses lasts σ σ₁ σ₂) (hhi : hi ≤ σ₂.builder.size) :
    Builder.Apart lo hi σ₂.builder (afterSelect lasts σ₁ σ₂).builder := by
  refine Builder.Apart.withBlock.trans ((Builder.Apart.joined h.site.nodup (fun i hi =>
    Builder.open_withBlock.mpr (.inr (h.site.opened i hi))) (.inr hhi)).trans (.moved _))

end After

/-- Lowering from `τ` ends well, and up to `υ` types are only added and nothing branches anew to the
blocks made for it. -/
def Completes (ctx : FnContext) (inner : List Stmt) (τ υ : FnState) : Prop :=
  ∃ τ', runOn (lowerAll ctx inner) τ = (.ok (), τ') ∧ τ'.types ≤ υ.types ∧
    Builder.Apart τ.builder.size τ'.builder.size τ'.builder υ.builder

theorem completes_single (h : runOn (s.lower ctx) τ = (.ok (), σ)) (htypes : σ.types ≤ υ.types)
    (ha : Builder.Apart τ.builder.size σ.builder.size σ.builder υ.builder) :
    Completes ctx [s] τ υ := ⟨σ, runOn_lowerAll_singleton h, htypes, ha⟩

theorem Child.completes (h : Child ctx s σ inner τ) (hc : σ.OnBlock)
    (hrun : runOn (s.lower ctx) σ = (.ok (), υ)) : Completes ctx inner τ υ := by
  cases h with
  | block =>
    rw [lower] at hrun
    exact ⟨υ, hrun, TypeStore.le_refl _, .refl _ _ _⟩
  | ifInit =>
    obtain ⟨σ₁, hinit, hstays⟩ := ifElse_init hc hrun
    rw [lowerOption] at hinit
    exact completes_single hinit hstays.types (.confined hstays.code (Nat.le_refl _))
  | switchInit =>
    obtain ⟨σ₁, hinit, hstays⟩ := switch_init hc hrun
    rw [lowerOption] at hinit
    exact completes_single hinit hstays.types (.confined hstays.code (Nat.le_refl _))
  | ifThen hdecides =>
    obtain ⟨σ₁, σ₂, hbranched, rfl⟩ := ifElse_stages hc hrun hdecides
    obtain ⟨hother, hsize⟩ := apart_other hbranched (Nat.le_refl _)
    exact completes_single hbranched.first hbranched.types_first (hother.trans
      (apart_branches hbranched (hdecides.flows hc).2 hsize (branchTerm_targets hbranched)))
  | @ifOther _ _ _ _ other _ _ τ σ₁ hdecides hthen =>
    obtain ⟨_, σ₂, hbranched, rfl⟩ := ifElse_stages hc hrun hdecides
    obtain ⟨-, rfl⟩ := Prod.mk.inj (hthen.symm.trans hbranched.first)
    obtain ⟨hother, hstays⟩ := hbranched.second (other.lower ctx) rfl
    refine completes_single hother (TypeStore.le_refl _)
      (apart_branches hbranched (hdecides.flows hc).2 (Nat.le_refl _) fun j hj => ?_)
    have hfirst : τ.builder.size < σ₁.builder.size :=
      Nat.lt_of_lt_of_le τ.onBlock_onNew hbranched.stays.code.size
    rcases List.mem_pair.mp hj with rfl | rfl
    · exact .inl (Nat.lt_trans hfirst σ₁.onBlock_onNew)
    · exact .inl σ₁.onBlock_onNew
  | loopInit =>
    obtain ⟨exit, σ₁, σ₂, σ₃, σ₄, hlooped, rfl⟩ := loop_stages hc hrun
    have hmade := loopBlocks_le (site_loopStart hc) (by simp)
    exact completes_single hlooped.init
      (TypeStore.le_trans hlooped.types_cond (TypeStore.le_trans hlooped.types_body
        hlooped.types_post))
      (apart_loopInit hlooped hmade (Nat.le_refl _))
  | loopBody hbegins =>
    obtain ⟨exit, σ₁, σ₂, σ₃, σ₄, hlooped, rfl⟩ := loop_stages hc hrun
    obtain ⟨rfl, rfl⟩ := hbegins.eq_of_looped hlooped
    have hmade := loopBlocks_le (hbegins.site hc).2 (by simp)
    exact completes_single hlooped.body hlooped.types_post
      (apart_loopPost hlooped hmade (Nat.le_refl _))
  | @loopPost _ _ _ post _ _ _ _ σ₃ hbegins hbody =>
    obtain ⟨exit, σ₁, σ₂, _, σ₄, hlooped, rfl⟩ := loop_stages hc hrun
    obtain ⟨rfl, rfl⟩ := hbegins.eq_of_looped hlooped
    obtain ⟨-, rfl⟩ := Prod.mk.inj (hbody.symm.trans hlooped.body)
    have hmade := loopBlocks_le (site_next (hbegins.site hc).2 (by simp) hlooped.body_stays
      (successors_br 3 (by decide))) (by simp)
    have hpost := hlooped.post
    rw [lowerOption] at hpost
    exact completes_single hpost (TypeStore.le_refl _) (apart_loopEnd hlooped hmade)
  | @clause _ _ _ before after clause _ _ _ σ₁ _ _ htags hasked hfirsts =>
    obtain ⟨lasts, _, σ₃, hselected, rfl⟩ := switch_stages hc hrun htags
    obtain ⟨-, rfl⟩ := Prod.mk.inj (hasked.symm.trans hselected.asked)
    obtain ⟨rest, -, hsplit⟩ := σ₁.builder.exists_newBlocks_split before.length after.length
    have hfilled := hselected.filled
    rw [List.length_append, List.length_cons, hsplit] at hfilled
    obtain ⟨_, _, τ, τ', hfirsts', hbody, -, hothers⟩ :=
      hfilled.split (Builder.length_newBlocks _)
    obtain ⟨-, rfl⟩ := Prod.mk.inj (hfirsts.symm.trans hfirsts')
    obtain ⟨hrest, hsize⟩ := apart_filled hothers (Nat.le_refl _)
    exact ⟨τ', hbody, hothers.types, hrest.trans (apart_select hselected hsize)⟩

theorem Visits.completes (h : Visits ctx outer σ inner τ) (hc : σ.OnBlock)
    (hrun : runOn (lowerAll ctx outer) σ = (.ok (), υ)) : Completes ctx inner τ υ := by
  induction h generalizing υ with
  | here => exact ⟨υ, hrun, TypeStore.le_refl _, .refl _ _ _⟩
  | @rest s outer inner σ τ φ hs _ ih =>
    rw [lowerAll, runOn_bind_ok hs] at hrun
    exact ih (stays_of_lower hc hs).onBlock hrun
  | @child s ss outer inner σ τ φ hchild hvisits ih =>
    rw [lowerAll] at hrun
    obtain ⟨_, σ₁, hs, hrest⟩ := runOn_bind_eq_ok hrun
    have hadds := hchild.adds hc
    obtain ⟨τ', hinner, htypes, hapart⟩ := hchild.completes hc hs
    obtain ⟨φ', hdone, htypes', hapart'⟩ := ih hadds.onBlock hinner
    have hlo := (hvisits.adds hadds.onBlock).code.le.size
    have hhi : φ'.builder.size ≤ τ'.builder.size := hapart'.le.size
    have hσ₁ : τ'.builder.size ≤ σ₁.builder.size := hapart.le.size
    have hstays := stays_of_lowerAll (stays_of_lower hc hs).onBlock hrest
    have hrest' : Builder.Apart φ.builder.size φ'.builder.size σ₁.builder υ.builder :=
      .confined hstays.code (Nat.le_trans hhi hσ₁)
    exact ⟨φ', hdone, TypeStore.le_trans htypes' (TypeStore.le_trans htypes hstays.types),
      hapart'.trans ((hapart.mono hlo hhi).trans hrest')⟩

end Stmt

end Midend
