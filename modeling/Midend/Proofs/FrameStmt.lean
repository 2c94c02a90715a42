import Midend.Proofs.Questions

/-!
# Midend.Proofs.FrameStmt

Lowering a statement touches only its own region, as lowering an expression does, from any state
whose cursor is on a block (`lower_onlyOwn`). Nothing is assumed about the code that is there, so
this is true in the midst of other statements, in dead code, and after errors.
-/

namespace Midend

open Ir

namespace Lower

variable {ctx : FnContext} {σ τ : FnState}

theorem results_flows (ctx : FnContext) (es : List Expr) : Flowing (results ctx es) := by
  induction es with
  | nil => exact .pure _
  | cons e rest ih =>
    refine (Expr.lower_flows ctx e).recover.bind fun r => ?_
    cases r with
    | none => exact .pure _
    | some v =>
      refine ih.bind fun r => ?_
      cases r <;> exact .pure _

theorem packed_flows (values : List Value) : Flowing (packed values) :=
  (Flowing.typing (Typing.struct_grows _)).bind fun _ => .push _ _

theorem get_staying {α : Type} {f : FnState → Lower α} (hf : ∀ s, Staying [] (f s)) :
    Staying [] (do f (← get)) := fun σ hc => .next (runOn_get σ) (hf σ σ hc)

theorem seal_staying {t : Terminator} (ht : t.successors = []) :
    Staying [] (do let _ ← build (Build.terminateIfOpen t)) :=
  (Staying.terminateIfOpen ht).bind fun _ => .pure _

theorem returnValue_staying (span : Span) (v : Value) : Staying [] (returnValue span v) := by
  refine get_staying fun s => (Flowing.body _).staying.bind fun t => ?_
  split_ifs
  · exact seal_staying rfl
  · exact seal_staying rfl
  · exact (Flowing.ref _).staying.bind fun _ => (Flowing.ref _).staying.bind fun _ =>
      (Staying.report _).bind fun _ => seal_staying rfl

theorem returnStmt_staying (span : Span) (es : List Expr) :
    Staying [] (returnStmt ctx span es) := by
  refine Flowing.ensureOpen.staying.bind fun _ => (results_flows ctx es).staying.bind fun r => ?_
  split
  · exact seal_staying rfl
  · refine get_staying fun s => (Flowing.body _).staying.bind fun t => ?_
    split_ifs
    · exact seal_staying rfl
    · exact .abort _
  · exact returnValue_staying span _
  · exact (packed_flows _).staying.bind fun v => returnValue_staying span v

theorem branch_staying {m : Lower Unit} {other : Option (Lower Unit)} (hm : Staying [] m)
    (ho : ∀ m' ∈ other, Staying [] m') (ctx : FnContext) (cond : Expr) : Staying [] (do
      let _ ← build Build.ensureOpen
      match ← condition ctx cond with
      | none => return ()
      | some v => branch v m (elseCode other)) := by
  intro σ hc
  have hreopened := FnState.stays_reopened hc
  refine .next (runOn_ensureOpen hc) ?_
  refine (condition_flows ctx cond σ.reopened (FnState.onBlock_reopened hc)).bind
    (fun r τ _ hflows => ?_) fun _ _ => trivial
  have hstays := hreopened.trans hflows.toStays
  have hopen := hflows.opened (Builder.open_opened hc)
  cases r with
  | none => exact .pure hstays
  | some v =>
    refine (branch_ends hm ho hopen v).mono ?_ fun _ h => h
    rintro _ _ ⟨σ₁, σ₂, hbranched, rfl⟩
    exact hstays.trans (hbranched.stays_after hopen)

theorem loopCondition_flows (ctx : FnContext) (cond : Option Expr) :
    Flowing (loopCondition ctx cond) := by
  cases cond with
  | none => exact .pure _
  | some e => exact condition_flows ctx e

theorem loop_staying {init body post : Lower Unit} (cond : Option Expr) (hi : Staying [] init)
    (hb : Staying [] body) (hp : Staying [] post) :
    Staying [] (loop init (loopCondition ctx cond) body post) := fun _ hc =>
  (loop_ends hi (loopCondition_flows ctx cond).staying hb hp hc).mono (fun _ _ h => h.1)
    fun _ h => h

def switchTag (ctx : FnContext) : Option Expr → Lower (Option (Option Value))
  | some tag => do
    let value ← recover (tag.lower ctx)
    pure (value.map some)
  | none => pure (some none)

theorem switchTag_flows (ctx : FnContext) (tag : Option Expr) : Flowing (switchTag ctx tag) := by
  cases tag with
  | none => exact .pure _
  | some e => exact (Expr.lower_flows ctx e).recover.bind fun _ => .pure _

theorem select_staying (tag : Option Expr) (clauses : List Clause)
    (hbody : ∀ c ∈ clauses, Staying [] (Stmt.lowerAll ctx c.body)) : Staying [] (do
      let _ ← build Build.ensureOpen
      match ← switchTag ctx tag with
      | none => return ()
      | some tag => select ctx tag clauses) := by
  intro σ hc
  have hreopened := FnState.stays_reopened hc
  refine .next (runOn_ensureOpen hc) ?_
  refine (switchTag_flows ctx tag σ.reopened (FnState.onBlock_reopened hc)).bind
    (fun r τ _ hflows => ?_) fun _ _ => trivial
  have hstays := hreopened.trans hflows.toStays
  cases r with
  | none => exact .pure hstays
  | some tag =>
    refine (select_ends tag clauses hbody (hflows.opened (Builder.open_opened hc))).mono ?_
      fun _ h => h
    exact fun _ _ h => hstays.trans h.1

end Lower

namespace Stmt

open Lower

def elseBranch (ctx : FnContext) (s : Option Stmt) : Option (Lower Unit) := s.map (lower ctx)

theorem lowerElse_eq (ctx : FnContext) (s : Option Stmt) :
    lowerElse ctx s = elseCode (elseBranch ctx s) := by
  cases s with
  | none => rw [lowerElse]; rfl
  | some s => rw [lowerElse]; rfl

theorem lower_ifElse (ctx : FnContext) (m : Mark) (init : Option Stmt) (cond : Expr)
    (thenBranch : Stmt) (other : Option Stmt) :
    lower ctx (.ifElse m init cond thenBranch other) = (do
      lowerOption ctx init
      let _ ← Lower.build Build.ensureOpen
      match ← Lower.condition ctx cond with
      | none => return ()
      | some v => branch v (lower ctx thenBranch) (elseCode (elseBranch ctx other))) := by
  rw [lower, lowerElse_eq]
  rfl

theorem lower_loop (ctx : FnContext) (m : Mark) (init : Option Stmt) (cond : Option Expr)
    (post : Option Stmt) (body : Stmt) :
    lower ctx (.loop m init cond post body) =
      Midend.loop (lowerOption ctx init) (loopCondition ctx cond) (lower ctx body)
        (lowerOption ctx post) := by
  rw [lower]
  cases cond <;> rfl

theorem lower_switch (ctx : FnContext) (m : Mark) (init : Option Stmt) (tag : Option Expr)
    (clauses : List Clause) :
    lower ctx (.switch m init tag clauses) = (do
      lowerOption ctx init
      let _ ← Lower.build Build.ensureOpen
      match ← switchTag ctx tag with
      | none => return ()
      | some tag => select ctx tag clauses) := by
  rw [lower]
  cases tag with
  | none => rfl
  | some e =>
    simp only [switchTag, bind_assoc]
    rfl

mutual

theorem lower_staying (ctx : FnContext) (s : Stmt) : Staying [] (s.lower ctx) := by
  cases s with
  | block m body =>
    rw [lower]
    exact lowerAll_staying ctx body
  | empty m =>
    rw [lower]
    exact .pure _
  | expr m e =>
    rw [lower]
    exact Flowing.ensureOpen.staying.bind fun _ =>
      (Expr.lower_flows ctx e).recover.staying.bind fun _ => .pure _
  | ifElse m init cond thenBranch other =>
    rw [lower_ifElse]
    refine (lowerOption_staying ctx init).bind fun _ =>
      branch_staying (lower_staying ctx thenBranch) ?_ ctx cond
    cases other with
    | none => simp [elseBranch]
    | some s =>
      rintro _ ⟨rfl⟩
      exact lower_staying ctx s
  | loop m init cond post body =>
    rw [lower_loop]
    exact loop_staying cond (lowerOption_staying ctx init) (lower_staying ctx body)
      (lowerOption_staying ctx post)
  | switch m init tag clauses =>
    rw [lower_switch]
    exact (lowerOption_staying ctx init).bind fun _ =>
      select_staying tag clauses (lowerClauses_staying ctx clauses)
  | ret m results =>
    rw [lower]
    exact returnStmt_staying m.span results
  | assign | incDec | jump | varDecl | labeled | defer | go | range =>
    rw [lower]
    exact .abort _

theorem lowerAll_staying (ctx : FnContext) (body : List Stmt) : Staying [] (lowerAll ctx body) := by
  cases body with
  | nil =>
    rw [lowerAll]
    exact .pure _
  | cons s rest =>
    rw [lowerAll]
    exact (lower_staying ctx s).bind fun _ => lowerAll_staying ctx rest

theorem lowerOption_staying (ctx : FnContext) (s : Option Stmt) :
    Staying [] (lowerOption ctx s) := by
  cases s with
  | none =>
    rw [lowerOption]
    exact .pure _
  | some s =>
    rw [lowerOption]
    exact lower_staying ctx s

theorem lowerClauses_staying (ctx : FnContext) (clauses : List Clause) :
    ∀ c ∈ clauses, Staying [] (lowerAll ctx c.body) := by
  cases clauses with
  | nil => simp
  | cons clause rest =>
    obtain ⟨values, body, span⟩ := clause
    intro c hc
    rcases List.mem_cons.mp hc with rfl | hc
    · exact lowerAll_staying ctx body
    · exact lowerClauses_staying ctx rest c hc

end

end Stmt

/-! ## What is left alone -/

/-- From `b` to `b'` only the region of `b`'s cursor has changed. -/
structure Ir.Builder.OnlyOwn (b b' : Builder) : Prop where
  /-- The other blocks are as they were, open or sealed. -/
  others : ∀ i, i.index < b.size → i ≠ b.cursor → b'.block? i = b.block? i
  /-- The cursor's block is as it was if it was sealed. -/
  sealed : ∀ blk, b.block? b.cursor = some blk → blk.terminator ≠ none →
    b'.block? b.cursor = some blk
  /-- If it was open, instructions were appended at most, and it is sealed unless the cursor is
  still there. -/
  opened : ∀ blk, b.block? b.cursor = some blk → blk.terminator = none → ∃ more last,
    b'.block? b.cursor = some ⟨blk.id, blk.insts ++ more, last⟩ ∧
      (last = none → b'.cursor = b.cursor)
  /-- What was branched to is new. -/
  targets : ∀ i j, b'.Edge i j → b.Edge i j ∨ (b.size ≤ j.index ∧ j.index < b'.size)
  /-- The blocks that were made are sealed, but for the cursor's. -/
  made : ∀ i, b.size ≤ i.index → b'.Open i → i = b'.cursor
  cursor : b'.cursor.index < b'.size
  locals : ∀ id l, b.local? id = some l → b'.local? id = some l
  header : b'.name = b.name ∧ b'.ret = b.ret ∧ b'.params = b.params

theorem Ir.Builder.Confined.onlyOwn {b b' : Builder} (h : b.Confined [] b') : b.OnlyOwn b' where
  others := h.kept
  sealed blk hblk ht := by
    obtain ⟨t, ht⟩ := Option.ne_none_iff_exists'.mp ht
    exact h.le.sealed hblk ht
  opened blk hblk ht := by
    obtain ⟨blk', hblk', ⟨more, hmore⟩, -⟩ := h.le.block _ _ hblk
    obtain ⟨id, insts, last⟩ := blk'
    obtain rfl : blk.insts ++ more = insts := hmore
    obtain rfl : id = blk.id := h.ids _ _ _ hblk hblk'
    refine ⟨more, last, hblk', fun hlast => ?_⟩
    exact (List.mem_singleton.mp (h.opens b.cursor (.inl rfl) ⟨_, hblk', hlast⟩)).symm
  targets i j hedge := by simpa using h.edges i j hedge
  made i hi hopen := List.mem_singleton.mp (h.opens i (.inr hi) hopen)
  cursor := h.inRange
  locals := h.le.locals
  header := ⟨h.le.name, h.le.ret, h.le.params⟩

/-- From any state whose cursor is on a block, open or sealed: lowering a statement changes its own
region only, and lowering an expression does so too, with whatever result. After an expression the
cursor is on an open block if it was on one. Types are only added. -/
theorem lower_onlyOwn (ctx : FnContext) {σ : FnState} (hc : σ.OnBlock) :
    (∀ s τ, runOn (Stmt.lower ctx s) σ = (.ok (), τ) →
      σ.builder.OnlyOwn τ.builder ∧ σ.types ≤ τ.types) ∧
    ∀ e r τ, runOn (Expr.lower ctx e) σ = (r, τ) →
      σ.builder.OnlyOwn τ.builder ∧ σ.types ≤ τ.types ∧
        (σ.builder.Open σ.builder.cursor → τ.builder.Open τ.builder.cursor) := by
  refine ⟨fun s τ hrun => ?_, fun e r τ hrun => ?_⟩
  · have hstays := Stmt.lower_staying ctx s σ hc _ τ hrun
    exact ⟨hstays.code.onlyOwn, hstays.types⟩
  · have hends := Expr.lower_flows ctx e σ hc r τ hrun
    have hflows : σ.Flows τ := by
      cases r with
      | ok v => exact hends
      | error f => exact hends.2
    exact ⟨hflows.code.onlyOwn, hflows.types, hflows.opened⟩

def returned : FnState :=
  ⟨.empty, [], (Builder.start "f" ⟨0⟩).closed ⟨0⟩ .unreachable⟩

def bareContext : FnContext := ⟨⟨⟨64, true⟩, .ofList [], [], []⟩, []⟩

/-- A loop after a return makes six blocks and leaves the old one as it was, and so does a name that
is not in scope. -/
theorem lower_onlyOwn_returned : returned.OnBlock ∧
    (∃ τ, runOn (Stmt.lower bareContext (.loop default none none none (.empty default))) returned =
      (.ok (), τ) ∧ τ.builder.size = 7 ∧ returned.builder.OnlyOwn τ.builder) ∧
    ∃ f τ, runOn (Expr.lower bareContext (.ident default "x")) returned = (.error f, τ) ∧
      returned.builder.OnlyOwn τ.builder := by
  have hc : returned.OnBlock := by
    show 0 < returned.builder.size
    decide +kernel
  have hloop : runOn (Stmt.lower bareContext (.loop default none none none (.empty default)))
      returned = (.ok (), _) := runOn_of_toOption (by decide +kernel)
  have hname : (runOn (Expr.lower bareContext (.ident default "x"))
      returned).1.toOption.isSome = false := by decide +kernel
  obtain ⟨r, τ, hrun⟩ := exists_runOn (Expr.lower bareContext (.ident default "x")) returned
  rw [hrun] at hname
  refine ⟨hc, ⟨_, hloop, by decide +kernel, ((lower_onlyOwn bareContext hc).1 _ _ hloop).1⟩, ?_⟩
  cases r with
  | ok v => cases hname
  | error f => exact ⟨f, τ, hrun, ((lower_onlyOwn bareContext hc).2 _ _ τ hrun).1⟩

end Midend
