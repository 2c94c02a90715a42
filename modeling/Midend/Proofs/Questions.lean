import Midend.Proofs.Stages
import Midend.Proofs.Switch

/-!
# Midend.Proofs.Questions

The tests of a switch as one list of questions, each with the clause that it may lead to, and the
stages of a switch: the questions are asked one after the other, then the bodies of the clauses are
lowered, and in the end the ends of all of them are joined.
-/

namespace Midend

open Ir

/-- What decides whether a clause is taken: one of its values, or all of them if there is no tag. -/
inductive Query where
  | value (tag : Value) (e : Expr)
  | anyOf (values : List Expr)

/-- What the tests of a switch do one after the other. -/
inductive Question where
  | test (query : Query) (entry : BlockId)
  | default (entry : BlockId)

def Question.entry : Question → BlockId
  | .test _ entry => entry
  | .default entry => entry

/-- The condition that decides; none if an error was reported. -/
def Query.lower (ctx : FnContext) : Query → Lower (Option Value)
  | .value tag e => do
    match ← Lower.recover (e.lower ctx) with
    | none => return none
    | some v => Lower.recover (Lower.equal tag v e.span)
  | .anyOf values => Lower.anyOf ctx none values

def Question.ask (ctx : FnContext) : Question → Lower Unit
  | .test query entry => do
    let _ ← Lower.build Build.ensureOpen
    match ← query.lower ctx with
    | some cond => Lower.branchOrNext cond entry
    | none => return ()
  | .default entry => do
    let _ ← Lower.build Build.ensureOpen
    Lower.build (Build.terminate (.br entry))

namespace Lower

def askAll (ctx : FnContext) : List Question → Lower Unit
  | [] => return ()
  | q :: rest => do
    q.ask ctx
    askAll ctx rest

/-- The questions about one clause. -/
def clauseQuestions (tag : Option Value) (clause : Clause) (entry : BlockId) : List Question :=
  if clause.isDefault then [.default entry]
  else
    match tag with
    | some tag => clause.values.map fun e => .test (.value tag e) entry
    | none => [.test (.anyOf clause.values) entry]

def questions (tag : Option Value) : List (Clause × BlockId) → List Question
  | [] => []
  | (clause, entry) :: rest => clauseQuestions tag clause entry ++ questions tag rest

variable {α β : Type} {ctx : FnContext} {σ τ υ : FnState}

theorem askAll_append (before after : List Question) :
    askAll ctx (before ++ after) = (do askAll ctx before; askAll ctx after) := by
  induction before with
  | nil => simp [askAll]
  | cons q rest ih => simp [askAll, ih]

theorem askAll_singleton (q : Question) : askAll ctx [q] = q.ask ctx := by
  simp [askAll]

theorem testValue_eq (tag : Value) (entry : BlockId) (e : Expr) :
    testValue ctx tag entry e = Question.ask ctx (.test (.value tag e) entry) := by
  simp only [testValue, Question.ask, Query.lower, bind_assoc]
  refine bind_congr fun _ => bind_congr fun r => ?_
  cases r with
  | none => simp
  | some v =>
    refine bind_congr fun c => ?_
    cases c <;> rfl

theorem testValues_eq (tag : Value) (entry : BlockId) (es : List Expr) :
    testValues ctx tag entry es =
      askAll ctx (es.map fun e => .test (.value tag e) entry) := by
  induction es with
  | nil => rfl
  | cons e rest ih => rw [testValues, testValue_eq, ih, List.map_cons, askAll]

theorem testConditions_eq (entry : BlockId) (values : List Expr) :
    testConditions ctx entry values = Question.ask ctx (.test (.anyOf values) entry) := rfl

theorem testClauses_eq (tag : Option Value) (pairs : List (Clause × BlockId)) :
    testClauses ctx tag pairs = askAll ctx (questions tag pairs) := by
  induction pairs with
  | nil => rfl
  | cons p rest ih =>
    obtain ⟨clause, entry⟩ := p
    rw [testClauses.eq_def, questions, askAll_append, ← ih]
    dsimp only
    by_cases hdefault : clause.isDefault = true
    · simp only [clauseQuestions, if_pos hdefault, askAll_singleton, Question.ask, bind_assoc]
    · cases tag with
      | some tag => simp only [clauseQuestions, if_neg hdefault, testValues_eq]
      | none => simp only [clauseQuestions, if_neg hdefault, askAll_singleton, testConditions_eq]

theorem runOn_createEntries (clauses : List Clause) (σ : FnState) :
    runOn (createEntries clauses) σ = (.ok (σ.builder.newBlocks clauses.length),
      σ.on (σ.builder.withBlocks clauses.length)) := by
  induction clauses generalizing σ with
  | nil => rfl
  | cons clause rest ih =>
    rw [createEntries, runOn_bind_ok (runOn_createBlock σ), runOn_bind_ok (ih _),
      List.length_cons, Builder.newBlocks_succ]
    rfl

theorem condition_flows (ctx : FnContext) (e : Expr) : Flowing (condition ctx e) := by
  refine (Expr.lower_flows ctx e).recover.bind fun r => ?_
  cases r with
  | none => exact .pure _
  | some v =>
    refine (expectBool_flows v e.span).recover.bind fun r => ?_
    cases r <;> exact .pure _

theorem disjunction_flows (lhs rhs : Value) : Flowing (disjunction lhs rhs) := by
  unfold disjunction
  split_ifs
  · exact (Flowing.pure _).bind fun _ => .push _ _
  · exact (Flowing.typing Typing.bool_grows).bind fun _ => .push _ _

theorem anyOf_flows (ctx : FnContext) (before : Option Value) (values : List Expr) :
    Flowing (anyOf ctx before values) := by
  induction values generalizing before with
  | nil => exact .pure _
  | cons e rest ih =>
    rw [anyOf]
    refine (condition_flows ctx e).bind fun r => ?_
    cases r with
    | none => exact ih before
    | some cond =>
      cases before with
      | none => exact ih (some cond)
      | some lhs => exact (disjunction_flows lhs cond).bind fun both => ih (some both)

theorem query_flows (ctx : FnContext) (q : Query) : Flowing (q.lower ctx) := by
  cases q with
  | value tag e =>
    refine (Expr.lower_flows ctx e).recover.bind fun r => ?_
    cases r with
    | none => exact .pure _
    | some v => exact (equal_flows tag v e.span).recover
  | anyOf values => exact anyOf_flows ctx none values

/-- The block under the cursor goes to the clause or to a new block, where control goes on. -/
def branched (entry : BlockId) (σ : FnState) (cond : Value) : FnState :=
  σ.on ((σ.builder.withBlock.closed σ.builder.cursor
    (.condBr cond entry ⟨σ.builder.size⟩)).moved ⟨σ.builder.size⟩)

/-- After a question: if it failed, nothing leads to the clause. -/
def afterTest (entry : BlockId) (σ : FnState) : Option Value → FnState
  | none => σ
  | some cond => branched entry σ cond

theorem runOn_branchOrNext (hopen : σ.builder.Open σ.builder.cursor) (cond : Value)
    (entry : BlockId) : runOn (branchOrNext cond entry) σ = (.ok (), branched entry σ cond) := by
  have hopen' : σ.builder.withBlock.Open σ.builder.withBlock.cursor :=
    Builder.open_withBlock_of_open hopen
  rw [branchOrNext, runOn_bind_ok (runOn_createBlock σ),
    runOn_bind_ok (runOn_ensureOpen (σ := σ.on σ.builder.withBlock) hopen'.lt_size),
    FnState.on_builder, Builder.opened_of_open hopen', runOn_bind_ok (runOn_terminate hopen' _)]
  exact runOn_switchTo _ _

theorem branched_flows (hopen : σ.builder.Open σ.builder.cursor) (cond : Value) (entry : BlockId) :
    σ.Stays [entry] (branched entry σ cond) ∧
      (branched entry σ cond).builder.Open (branched entry σ cond).builder.cursor := by
  have hstart : Builder.Site [entry] σ.builder σ.builder [σ.builder.cursor] := by
    have h := Builder.Site.start [entry] hopen.lt_size
    rwa [Builder.openEnd_of_open hopen] at h
  have hclosed := (hstart.withBlock.perm (List.Perm.swap _ _ _)).closed
    (t := .condBr cond entry ⟨σ.builder.size⟩) fun j hj => by
      rcases List.mem_pair.mp hj with rfl | rfl
      · exact .inr (List.mem_singleton_self _)
      · exact .inl ⟨Nat.le_refl _, by rw [Builder.size_withBlock]; exact Nat.lt_succ_self _⟩
  exact ⟨⟨TypeStore.le_refl _, hclosed.done⟩, hclosed.opened _ (List.mem_singleton_self _)⟩

theorem ask_test_ends (hc : σ.OnBlock) (query : Query) (entry : BlockId) {E : FnState → Prop}
    (he : ∀ τ, E τ) : Ends (Question.ask ctx (.test query entry)) σ (fun _ τ => ∃ r σ₁,
      runOn (query.lower ctx) σ.reopened = (.ok r, σ₁) ∧ σ.reopened.Flows σ₁ ∧
        τ = afterTest entry σ₁ r) E := by
  refine .next (runOn_ensureOpen hc) ?_
  refine (query_flows ctx query σ.reopened (FnState.onBlock_reopened hc)).bind
    (fun r σ₁ hrun hflows => ?_) fun τ _ => he τ
  cases r with
  | none => exact .pure ⟨none, σ₁, hrun, hflows, rfl⟩
  | some cond =>
    refine .of_ok (runOn_branchOrNext (hflows.opened (Builder.open_opened hc)) cond entry) ?_
    exact ⟨some cond, σ₁, hrun, hflows, rfl⟩

theorem runOn_ask_default (hc : σ.OnBlock) (entry : BlockId) :
    runOn (Question.ask ctx (.default entry)) σ = (.ok (), σ.reopened.on
      (σ.reopened.builder.closed σ.reopened.builder.cursor (.br entry))) := by
  rw [Question.ask, runOn_bind_ok (runOn_ensureOpen hc)]
  exact runOn_terminate (Builder.open_opened hc) _

theorem ask_staying (q : Question) : Staying [q.entry] (q.ask ctx) := by
  intro σ hc
  have hreopened := FnState.stays_reopened hc
  cases q with
  | test query entry =>
    refine (ask_test_ends hc query entry fun _ => trivial).mono ?_ fun _ h => h
    rintro _ _ ⟨r, σ₁, -, hflows, rfl⟩
    have hstays : σ.Stays [entry] σ₁ := (hreopened.trans hflows.toStays).weaken (by simp)
    cases r with
    | none => exact hstays
    | some cond =>
      exact hstays.trans (branched_flows (hflows.opened (Builder.open_opened hc)) cond entry).1
  | default entry =>
    refine .of_ok (runOn_ask_default hc entry) ((hreopened.weaken (by simp)).trans ?_)
    exact ⟨TypeStore.le_refl _, .closed (Builder.open_opened hc) fun j hj => hj⟩

theorem askAll_staying (qs : List Question) : Staying (qs.map Question.entry) (askAll ctx qs) := by
  induction qs with
  | nil => exact .pure _
  | cons q rest ih =>
    exact ((ask_staying q).weaken (by simp)).bind fun _ => ih.weaken fun j hj =>
      List.mem_cons_of_mem _ hj

/-- The bodies of clauses were lowered one after the other, each from its entry. -/
inductive Fills (ctx : FnContext) :
    List Clause → List BlockId → List (Option BlockId) → FnState → FnState → Prop where
  | nil {σ : FnState} : Fills ctx [] [] [] σ σ
  | cons {clause : Clause} {clauses : List Clause} {entry : BlockId} {entries : List BlockId}
      {lasts : List (Option BlockId)} {σ τ υ : FnState} :
      runOn (Stmt.lowerAll ctx clause.body) (σ.on (σ.builder.moved entry)) = (.ok (), τ) →
      (σ.on (σ.builder.moved entry)).Stays [] τ → Fills ctx clauses entries lasts τ υ →
      Fills ctx (clause :: clauses) (entry :: entries) (τ.builder.openEnd :: lasts) σ υ

theorem Fills.types {clauses : List Clause} {entries : List BlockId}
    {lasts : List (Option BlockId)} (h : Fills ctx clauses entries lasts σ τ) :
    σ.types ≤ τ.types := by
  induction h with
  | nil => exact TypeStore.le_refl _
  | cons _ hstays _ ih => exact TypeStore.le_trans hstays.types ih

theorem lowerClauses_ends {b : Builder} (clauses : List Clause) (entries : List BlockId)
    (hlength : entries.length = clauses.length)
    (hbody : ∀ c ∈ clauses, Staying [] (Stmt.lowerAll ctx c.body)) {live : List BlockId}
    (h : Builder.Site [] b σ.builder (entries ++ live)) :
    Ends (Stmt.lowerClauses ctx clauses entries) σ (fun lasts τ =>
      Fills ctx clauses entries lasts σ τ ∧
        Builder.Site [] b τ.builder (Draft.endsOf lasts ++ live)) fun _ => True := by
  induction clauses generalizing σ entries live with
  | nil =>
    obtain rfl := List.length_eq_zero_iff.mp hlength
    exact .pure ⟨.nil, h⟩
  | cons clause rest ih =>
    obtain ⟨values, body, span⟩ := clause
    cases entries with
    | nil => simp at hlength
    | cons entry entries =>
      have hentry : entry.index < σ.builder.size := (h.opened entry (by simp)).lt_size
      rw [Stmt.lowerClauses]
      refine .next (runOn_switchTo σ entry) ?_
      refine (hbody _ List.mem_cons_self (σ.on (σ.builder.moved entry)) hentry).bind
        (fun _ σ₁ hrun hstays => ?_) fun _ h => h
      refine .next (runOn_openEnd hstays.onBlock) ?_
      have hsite := (h.part hstays.code (by simp)).perm (List.perm_append_comm_assoc _ _ _)
      refine (ih entries (by simpa using hlength)
        (fun c hc => hbody c (List.mem_cons_of_mem _ hc)) hsite).bind ?_ fun _ h => h
      rintro lasts τ - ⟨hfilled, hsite⟩
      refine .pure ⟨.cons hrun hstays hfilled, hsite.perm ?_⟩
      rw [Draft.endsOf_cons, List.append_assoc]
      exact List.perm_append_comm_assoc _ _ _

theorem Fills.split {before after : List Clause} {clause : Clause} {entries rest : List BlockId}
    {entry : BlockId} {lasts : List (Option BlockId)} (hlength : entries.length = before.length)
    (h : Fills ctx (before ++ clause :: after) (entries ++ entry :: rest) lasts σ υ) :
    ∃ firsts others τ τ', runOn (Stmt.lowerClauses ctx before entries) σ = (.ok firsts, τ) ∧
      runOn (Stmt.lowerAll ctx clause.body) (τ.on (τ.builder.moved entry)) = (.ok (), τ') ∧
      (τ.on (τ.builder.moved entry)).Stays [] τ' ∧ Fills ctx after rest others τ' υ := by
  induction before generalizing entries lasts σ with
  | nil =>
    obtain rfl := List.length_eq_zero_iff.mp hlength
    cases h with
    | cons hrun hstays hrest => exact ⟨[], _, σ, _, rfl, hrun, hstays, hrest⟩
  | cons first before ih =>
    obtain ⟨values, body, span⟩ := first
    cases entries with
    | nil => simp at hlength
    | cons e entries =>
      cases h with
      | @cons _ _ _ _ lasts _ τ₁ _ hrun hstays hrest =>
        obtain ⟨firsts, others, τ, τ', hfirsts, hbody⟩ := ih (by simpa using hlength) hrest
        refine ⟨τ₁.builder.openEnd :: firsts, others, τ, τ', ?_, hbody⟩
        have hrun' :
            runOn (Stmt.lowerAll ctx body) (σ.on (σ.builder.moved e)) = (.ok (), τ₁) := hrun
        rw [Stmt.lowerClauses, runOn_bind_ok (runOn_switchTo σ e), runOn_bind_ok hrun',
          runOn_bind_ok (runOn_openEnd hstays.onBlock), runOn_bind_ok hfirsts]
        rfl

/-! ## The stages of a switch -/

/-- The clauses with their entries, in a switch that begins in `σ`. -/
def entered (clauses : List Clause) (σ : FnState) : List (Clause × BlockId) :=
  clauses.zip (σ.builder.newBlocks clauses.length)

def selectStart (clauses : List Clause) (σ : FnState) : FnState :=
  σ.on (σ.builder.withBlocks clauses.length)

/-- The questions of a switch end in `σ₁`, the bodies in `σ₂`. -/
structure Selected (ctx : FnContext) (tag : Option Value) (clauses : List Clause)
    (lasts : List (Option BlockId)) (σ σ₁ σ₂ : FnState) : Prop where
  asked : runOn (testClauses ctx tag (entered clauses σ)) (selectStart clauses σ) = (.ok (), σ₁)
  asked_stays : (selectStart clauses σ).Stays (σ.builder.newBlocks clauses.length) σ₁
  filled : Fills ctx clauses (σ.builder.newBlocks clauses.length) lasts σ₁ σ₂
  site : Builder.Site [] σ.builder σ₂.builder (Draft.endsOf (σ₁.builder.openEnd :: lasts))

def afterSelect (lasts : List (Option BlockId)) (σ₁ σ₂ : FnState) : FnState :=
  σ₂.on ((σ₂.builder.withBlock.joined ⟨σ₂.builder.size⟩
    (Draft.endsOf (σ₁.builder.openEnd :: lasts))).moved ⟨σ₂.builder.size⟩)

theorem mem_clauseQuestions {tag : Option Value} {clause : Clause} {entry : BlockId} {q : Question}
    (h : q ∈ clauseQuestions tag clause entry) : q.entry = entry := by
  unfold clauseQuestions at h
  split at h
  · obtain rfl := List.mem_singleton.mp h
    rfl
  · cases tag with
    | some tag =>
      obtain ⟨e, _, rfl⟩ := List.mem_map.mp h
      rfl
    | none =>
      obtain rfl := List.mem_singleton.mp h
      rfl

theorem mem_questions {tag : Option Value} {pairs : List (Clause × BlockId)} {q : Question}
    (h : q ∈ questions tag pairs) : ∃ p ∈ pairs, q.entry = p.2 := by
  induction pairs with
  | nil => simp [questions] at h
  | cons p rest ih =>
    obtain ⟨clause, entry⟩ := p
    rcases List.mem_append.mp h with h | h
    · exact ⟨_, List.mem_cons_self, mem_clauseQuestions h⟩
    · obtain ⟨p, hp, heq⟩ := ih h
      exact ⟨p, List.mem_cons_of_mem _ hp, heq⟩

theorem entry_mem_newBlocks {tag : Option Value} {clauses : List Clause} {q : Question}
    (hq : q ∈ questions tag (entered clauses σ)) :
    q.entry ∈ σ.builder.newBlocks clauses.length := by
  obtain ⟨p, hp, heq⟩ := mem_questions hq
  exact heq ▸ (List.of_mem_zip hp).2

theorem testClauses_staying (tag : Option Value) (clauses : List Clause) (σ : FnState) :
    Staying (σ.builder.newBlocks clauses.length)
      (testClauses ctx tag (entered clauses σ)) := by
  rw [testClauses_eq]
  refine (askAll_staying _).weaken fun j hj => ?_
  obtain ⟨q, hq, rfl⟩ := List.mem_map.mp hj
  exact entry_mem_newBlocks hq

theorem site_selectStart (clauses : List Clause) (hopen : σ.builder.Open σ.builder.cursor) :
    Builder.Site [] σ.builder (selectStart clauses σ).builder
      ((selectStart clauses σ).builder.cursor :: σ.builder.newBlocks clauses.length) := by
  have h := (Builder.Site.start [] hopen.lt_size).withBlocks clauses.length
  rw [Builder.openEnd_of_open hopen] at h
  show Builder.Site [] σ.builder (σ.builder.withBlocks clauses.length)
    ((σ.builder.withBlocks clauses.length).cursor :: _)
  rw [Builder.cursor_withBlocks]
  exact h.perm (List.perm_append_singleton _ _)

theorem site_asked {clauses : List Clause} (hopen : σ.builder.Open σ.builder.cursor)
    (h : (selectStart clauses σ).Stays (σ.builder.newBlocks clauses.length) τ) :
    Builder.Site [] σ.builder τ.builder
      (σ.builder.newBlocks clauses.length ++ τ.builder.openEnd.toList) := by
  refine ((site_selectStart clauses hopen).onward h.code fun j hj => .inr ?_).perm
    List.perm_append_comm
  show σ.builder.size ≤ j.index ∧ j.index < (σ.builder.withBlocks clauses.length).size
  rw [Builder.size_withBlocks]
  exact Builder.mem_newBlocks.mp hj

theorem select_ends (tag : Option Value) (clauses : List Clause)
    (hbody : ∀ c ∈ clauses, Staying [] (Stmt.lowerAll ctx c.body))
    (hopen : σ.builder.Open σ.builder.cursor) :
    Ends (select ctx tag clauses) σ (fun _ τ => σ.Stays [] τ ∧ ∃ lasts σ₁ σ₂,
      Selected ctx tag clauses lasts σ σ₁ σ₂ ∧ τ = afterSelect lasts σ₁ σ₂) fun _ => True := by
  rw [select]
  refine .next (runOn_createEntries clauses σ) ?_
  refine (testClauses_staying tag clauses σ (selectStart clauses σ)
    (onBlock_blocks hopen.lt_size _)).bind (fun _ σ₁ hasked hstays => ?_) fun _ h => h
  refine .next (runOn_openEnd hstays.onBlock) ?_
  refine (lowerClauses_ends clauses _ (Builder.length_newBlocks _) hbody
    (site_asked hopen hstays)).bind ?_ fun _ h => h
  rintro lasts σ₂ - ⟨hfilled, hsite⟩
  have hends : Builder.Site [] σ.builder σ₂.builder
      (Draft.endsOf (σ₁.builder.openEnd :: lasts)) := hsite.perm List.perm_append_comm
  have hfollow := hends.withBlock.perm (List.perm_append_singleton _ _).symm
  refine .next (runOn_createBlock σ₂) (.next (runOn_joinAt _ _ hends.nodup fun i hi =>
    hfollow.opened i (List.mem_append_left _ hi)) (.of_ok (runOn_switchTo _ _) ⟨⟨?_, ?_⟩,
      lasts, σ₁, σ₂, ⟨hasked, hstays, hfilled, hends⟩, rfl⟩))
  · exact TypeStore.le_trans hstays.types hfilled.types
  · refine (hfollow.joined (.inl ⟨hends.size, ?_⟩)).done
    rw [Builder.size_withBlock]
    exact Nat.lt_succ_self _

end Lower

end Midend
