import Midend.Proofs.Dispatch
import Midend.Proofs.SupplyCode

/-!
# Midend.Proofs.Joins

Where the `or`s of conditions of different types come from: each joins a value of a clause, in a
switch without a tag, to the values before it (`Pass.function_mixes`). No other step of lowering
adds one (`Lower.Plain`). What one statement adds is found by induction on it; the statements that
it consists of are those that lowering comes to from it. What is joined has one bit
(`Pass.Joins.isBool`).
-/

namespace Midend

open Ir

namespace Ir.Builder.Mixes

variable {J : Inst → Prop} {b c : Builder} {i k : BlockId} {t : Terminator}

theorem moved : Mixes J b (b.moved i) := of_blocks rfl

theorem opened : Mixes J b b.opened := by
  unfold Builder.opened
  split
  · exact .refl J b
  · exact withBlock.trans moved

theorem left : Mixes J b (b.left t) := by
  unfold Builder.left
  split
  · exact closed
  · exact .refl J b

theorem joined (ends : List BlockId) : Mixes J b (b.joined k ends) := by
  induction ends generalizing b with
  | nil => exact .refl J b
  | cons i ends ih => exact closed.trans ih

theorem withBlocks (n : Nat) : Mixes J b (b.withBlocks n) := by
  induction n generalizing b with
  | zero => exact .refl J b
  | succ n ih => exact withBlock.trans ih

theorem enter {σ : FnState} (h : Mixes J b σ.builder) : Mixes J b (σ.enter t k).builder :=
  h.trans (left.trans moved)

end Ir.Builder.Mixes

open Ir.Builder (Mixes)

namespace Lower

variable {α β : Type} {ctx : FnContext} {J : Inst → Prop} {σ τ : FnState}

/-- The step adds no `or` of conditions of different types, however it ends. -/
def Plain (m : Lower α) : Prop :=
  ∀ σ r τ, runOn m σ = (r, τ) → Mixes (fun _ => False) σ.builder τ.builder

theorem Plain.mixes {m : Lower α} (h : Plain m) {r : Except Fault α} (hrun : runOn m σ = (r, τ)) :
    Mixes J σ.builder τ.builder := (h σ r τ hrun).mono fun _ h => h.elim

theorem plain_of_supplies {m : Lower α} {P : TypeStore → Value → Prop} {R : TypeStore → α → Prop}
    (h : ∀ F, Supplying F (P F) (fun _ => False) True m (R F)) : Plain m := fun σ r τ hrun =>
  ((h τ.types σ r τ hrun).2 (TypeStore.le_refl _) trivial).1.mixes

theorem condition_plain (hctx : ctx.Opens) (e : Expr) : Plain (condition ctx e) :=
  plain_of_supplies fun _ => condition_supplies hctx e fun _ h => h

theorem loopCondition_plain (hctx : ctx.Opens) (cond : Option Expr) :
    Plain (loopCondition ctx cond) :=
  plain_of_supplies fun _ => loopCondition_supplies hctx cond fun _ h => h

theorem switchTag_plain (hctx : ctx.Opens) (tag : Option Expr) : Plain (switchTag ctx tag) :=
  plain_of_supplies fun _ => switchTag_supplies hctx tag fun _ h => h

/-- In lowering the values of a clause from `σ`, the instruction joins one of them to those before
it. -/
def JoinsValues (ctx : FnContext) (values : List Expr) (σ : FnState) (inst : Inst) : Prop :=
  ∃ n e lhs cond σ₁ σ₂, values[n]? = some e ∧
    runOn (anyOf ctx none (values.take n)) σ = (.ok (some lhs), σ₁) ∧
    runOn (condition ctx e) σ₁ = (.ok (some cond), σ₂) ∧
    inst.operation = .binary .or lhs cond ∧ inst.dst = some ⟨σ₂.builder.locals.size⟩

def nextValue (ctx : FnContext) (before : Option Value) (e : Expr) : Lower (Option Value) := do
  match ← condition ctx e with
  | none => return before
  | some cond =>
    match before with
    | none => return some cond
    | some lhs => do
      let both ← disjunction lhs cond
      return some both

theorem anyOf_cons (before : Option Value) (e : Expr) (rest : List Expr) :
    anyOf ctx before (e :: rest) = (do anyOf ctx (← nextValue ctx before e) rest) := by
  rw [anyOf, nextValue, bind_assoc]
  refine bind_congr fun r => ?_
  cases r with
  | none => rw [pure_bind]
  | some cond => cases before <;> simp

theorem anyOf_append (before : Option Value) (values rest : List Expr) :
    anyOf ctx before (values ++ rest) = (do anyOf ctx (← anyOf ctx before values) rest) := by
  induction values generalizing before with
  | nil => simp [anyOf]
  | cons first values ih => simp only [List.cons_append, anyOf_cons, bind_assoc, ih]

theorem nextValue_flows (ctx : FnContext) (before : Option Value) (e : Expr) :
    Flowing (nextValue ctx before e) := by
  refine (condition_flows ctx e).bind fun r => ?_
  cases r with
  | none => exact .pure _
  | some cond =>
    cases before with
    | none => exact .pure _
    | some lhs => exact (disjunction_flows lhs cond).bind fun _ => .pure _

theorem disjunction_mixes {lhs rhs both : Value} (hc : σ.OnBlock)
    (hrun : runOn (disjunction lhs rhs) σ = (.ok both, τ)) :
    Mixes (fun inst => inst.operation = .binary .or lhs rhs ∧
      inst.dst = some ⟨σ.builder.locals.size⟩) σ.builder τ.builder := by
  have hpush : ∀ {type : TypeId} {σ₁ : FnState}, σ₁.builder = σ.builder →
      runOn (push type (.binary .or lhs rhs)) σ₁ = (.ok both, τ) →
        τ.builder = σ.builder.opened.pushed type (.binary .or lhs rhs) := by
    intro type σ₁ hb hrun
    have hpushed := Build.run_push_opened hc type (.binary .or lhs rhs)
    rw [← hb] at hpushed
    rw [push, runOn_build_ok hpushed] at hrun
    obtain ⟨-, rfl⟩ := Prod.mk.inj hrun
    rw [FnState.on_builder, hb]
  have hcode : ∃ type, τ.builder = σ.builder.opened.pushed type (.binary .or lhs rhs) := by
    unfold disjunction at hrun
    split at hrun
    · exact ⟨_, hpush rfl hrun⟩
    · obtain ⟨type, σ₁, htype, hrest⟩ := runOn_bind_eq_ok hrun
      have hb : σ₁.builder = σ.builder := by
        cases htype
        rfl
      exact ⟨type, hpush hb hrest⟩
  obtain ⟨type, hcode⟩ := hcode
  have hlocals : σ.builder.opened.locals = σ.builder.locals := by
    unfold Builder.opened
    split <;> rfl
  rw [hcode]
  refine Mixes.opened.trans ((Mixes.of_blocks rfl).trans (.emitted fun _ => ⟨rfl, ?_⟩))
  rw [hlocals]

theorem nextValue_mixes (hctx : ctx.Opens) {before r : Option Value} {e : Expr} (hc : σ.OnBlock)
    (hrun : runOn (nextValue ctx before e) σ = (.ok r, τ)) :
    Mixes (fun inst => ∃ lhs cond σ₁, before = some lhs ∧
      runOn (condition ctx e) σ = (.ok (some cond), σ₁) ∧
        inst.operation = .binary .or lhs cond ∧ inst.dst = some ⟨σ₁.builder.locals.size⟩)
      σ.builder τ.builder := by
  obtain ⟨o, σ₁, hcond, hrest⟩ := runOn_bind_eq_ok hrun
  refine Mixes.trans ((condition_plain hctx e).mixes hcond) ?_
  cases o with
  | none =>
    cases hrest
    exact .refl _ _
  | some cond =>
    cases before with
    | none =>
      cases hrest
      exact .refl _ _
    | some lhs =>
      obtain ⟨both, σ₂, hboth, hrest⟩ := runOn_bind_eq_ok hrest
      cases hrest
      have hflows : σ.Flows σ₁ := condition_flows ctx e σ hc _ σ₁ hcond
      exact (disjunction_mixes hflows.onBlock hboth).mono fun inst hinst =>
        ⟨lhs, cond, σ₁, rfl, hcond, hinst⟩

theorem anyOf_mixes (hctx : ctx.Opens) {before r : Option Value} (firsts rest : List Expr)
    {σ₀ : FnState} (hc : σ.OnBlock) (hfirsts : runOn (anyOf ctx none firsts) σ₀ = (.ok before, σ))
    (hrun : runOn (anyOf ctx before rest) σ = (.ok r, τ)) :
    Mixes (JoinsValues ctx (firsts ++ rest) σ₀) σ.builder τ.builder := by
  induction rest generalizing firsts before σ with
  | nil =>
    cases hrun
    exact .refl _ _
  | cons e rest ih =>
    rw [anyOf_cons] at hrun
    obtain ⟨b, σ₁, hnext, hrest⟩ := runOn_bind_eq_ok hrun
    have hflows : σ.Flows σ₁ := nextValue_flows ctx before e σ hc _ σ₁ hnext
    have hmore : runOn (anyOf ctx none (firsts ++ [e])) σ₀ = (.ok b, σ₁) := by
      rw [anyOf_append, runOn_bind_ok hfirsts, anyOf_cons, runOn_bind_ok hnext]
      rfl
    have hlater := ih (firsts ++ [e]) hflows.onBlock hmore hrest
    rw [List.append_assoc, List.singleton_append] at hlater
    refine Mixes.trans ((nextValue_mixes hctx hc hnext).mono ?_) hlater
    rintro inst ⟨lhs, cond, σ₂, rfl, hcond, hinst⟩
    refine ⟨firsts.length, e, lhs, cond, σ, σ₂, by simp, ?_, hcond, hinst⟩
    rwa [List.take_left]

theorem runOn_body_eq_ok {id : TypeId} {t : Ty}
    (hrun : runOn (body id) σ = (.ok t, τ)) : σ.types.body? id = some t ∧ τ = σ := by
  rw [body, runOn_typing, Typing.body, Typing.runOn_ask, TypeStore.body] at hrun
  cases h : σ.types.body? id with
  | none =>
    rw [h] at hrun
    cases hrun
  | some t' =>
    rw [h] at hrun
    cases hrun
    exact ⟨rfl, rfl⟩

theorem condition_isBool {e : Expr} {v : Value}
    (hrun : runOn (condition ctx e) σ = (.ok (some v), τ)) : τ.types.IsBool v.type := by
  obtain ⟨r, σ₁, -, hrest⟩ := runOn_bind_eq_ok hrun
  cases r with
  | none => cases hrest
  | some w =>
    obtain ⟨r, σ₂, hexpect, hrest⟩ := runOn_bind_eq_ok hrest
    cases r with
    | none => cases hrest
    | some _ =>
      cases hrest
      obtain ⟨t, σ₃, hbody, htest⟩ := runOn_bind_eq_ok (runOn_recover_eq_some.mp hexpect)
      obtain ⟨hbody, rfl⟩ := runOn_body_eq_ok hbody
      split at htest
      · rename_i hbool
        cases htest
        rwa [Ty.isBool_iff.mp hbool] at hbody
      · cases htest

/-- What joins values of a clause is an `or`, and the value that it adds has one bit. -/
theorem JoinsValues.isBool {values : List Expr} {inst : Inst} {r : Option Value}
    (h : JoinsValues ctx values σ inst) (hc : σ.OnBlock)
    (hrun : runOn (anyOf ctx none values) σ = (.ok r, τ)) :
    ∃ lhs rhs, inst.operation = .binary .or lhs rhs ∧ τ.types.IsBool rhs.type := by
  obtain ⟨n, e, lhs, cond, σ₁, σ₂, he, hfirsts, hcond, hop, -⟩ := h
  obtain ⟨hn, rfl⟩ := List.getElem?_eq_some_iff.mp he
  rw [← List.take_append_drop n values, List.drop_eq_getElem_cons hn, anyOf_append,
    runOn_bind_ok hfirsts, anyOf, runOn_bind_ok hcond] at hrun
  have hfirst : σ.Flows σ₁ := anyOf_flows ctx none _ σ hc _ σ₁ hfirsts
  have hnext : σ₁.Flows σ₂ := condition_flows ctx _ σ₁ hfirst.onBlock _ σ₂ hcond
  have hrest : σ₂.Flows τ := ((disjunction_flows lhs cond).bind fun both =>
    anyOf_flows ctx (some both) _) σ₂ hnext.onBlock _ τ hrun
  exact ⟨lhs, cond, hop, (condition_isBool hcond).le hrest.types⟩

theorem ask_mixes (hctx : ctx.Opens) {q : Question} (hc : σ.OnBlock)
    (hq : ∀ tag e entry, q ≠ .test (.value tag e) entry)
    (hrun : runOn (q.ask ctx) σ = (.ok (), τ)) :
    Mixes (fun inst => ∃ values entry, q = .test (.anyOf values) entry ∧
      JoinsValues ctx values σ.reopened inst) σ.builder τ.builder := by
  cases q with
  | default entry =>
    rw [runOn_ask_default hc] at hrun
    obtain ⟨-, rfl⟩ := Prod.mk.inj hrun
    exact Mixes.opened.trans .closed
  | test query entry =>
    cases query with
    | value tag e => exact absurd rfl (hq tag e entry)
    | anyOf values =>
      obtain ⟨r, σ₁, hlower, -, rfl⟩ := ask_test_stages hc hrun
      have hvalues := anyOf_mixes hctx [] values (FnState.onBlock_reopened hc) rfl hlower
      refine Mixes.opened.trans (Mixes.trans (hvalues.mono ?_) ?_)
      · exact fun inst hinst => ⟨values, entry, rfl, hinst⟩
      · cases r with
        | none => exact .refl _ _
        | some cond => exact Mixes.withBlock.trans (Mixes.closed.trans .moved)

theorem askAll_mixes (hctx : ctx.Opens) {qs : List Question} (hc : σ.OnBlock)
    (hqs : ∀ q ∈ qs, ∀ tag e entry, q ≠ .test (.value tag e) entry)
    (hrun : runOn (askAll ctx qs) σ = (.ok (), τ)) :
    Mixes (fun inst => ∃ n values entry α β, Asked ctx qs σ n (.test (.anyOf values) entry) α β ∧
      JoinsValues ctx values α.reopened inst) σ.builder τ.builder := by
  induction qs generalizing σ with
  | nil =>
    cases hrun
    exact .refl _ _
  | cons q rest ih =>
    obtain ⟨_, σ₁, hfirst, hrest⟩ := runOn_bind_eq_ok hrun
    obtain ⟨hq, hqs⟩ := List.forall_mem_cons.mp hqs
    have hstays : σ.Stays [q.entry] σ₁ := ask_staying q σ hc _ σ₁ hfirst
    refine Mixes.trans ((ask_mixes hctx hc hq hfirst).mono ?_)
      ((ih hstays.onBlock hqs hrest).mono ?_)
    · rintro inst ⟨values, entry, rfl, hinst⟩
      exact ⟨0, values, entry, σ, σ₁, .here hfirst, hinst⟩
    · rintro inst ⟨n, values, entry, α, β, hasked, hinst⟩
      exact ⟨n + 1, values, entry, α, β, .later hfirst hasked, hinst⟩

theorem not_value_of_mem {pairs : List (Clause × BlockId)} {q : Question}
    (h : q ∈ questions none pairs) (tag : Value) (e : Expr) (entry : BlockId) :
    q ≠ .test (.value tag e) entry := by
  induction pairs with
  | nil => simp [questions] at h
  | cons p rest ih =>
    obtain ⟨clause, k⟩ := p
    rcases List.mem_append.mp h with h | h
    · unfold clauseQuestions at h
      split at h <;> obtain rfl := List.mem_singleton.mp h <;> simp
    · exact ih h

theorem testClauses_mixes (hctx : ctx.Opens) {pairs : List (Clause × BlockId)} (hc : σ.OnBlock)
    (hrun : runOn (testClauses ctx none pairs) σ = (.ok (), τ)) :
    Mixes (fun inst => ∃ n values entry α β,
      Asked ctx (questions none pairs) σ n (.test (.anyOf values) entry) α β ∧
        JoinsValues ctx values α.reopened inst) σ.builder τ.builder := by
  rw [testClauses_eq] at hrun
  exact askAll_mixes hctx hc (fun q hq => not_value_of_mem hq) hrun

theorem testClauses_tagged_mixes (hctx : ctx.Opens) {tag : Expr} {w : Option Value}
    {pairs : List (Clause × BlockId)} {σ₁ σ₂ : FnState}
    (htag : runOn (switchTag ctx (some tag)) σ = (.ok (some w), σ₁)) (hle : σ₁.types ≤ τ.types)
    (hrun : runOn (testClauses ctx w pairs) σ₂ = (.ok (), τ)) :
    Mixes J σ₂.builder τ.builder := by
  obtain ⟨r, _, hlower, hmap⟩ := runOn_bind_eq_ok htag
  obtain ⟨hmap, -⟩ := Prod.mk.inj hmap
  obtain ⟨v, -, rfl⟩ := Option.map_eq_some_iff.mp (Except.ok.inj hmap)
  have hleaves : ∀ p ∈ pairs, ∀ x ∈ Expr.leavesAll p.1.values,
      x ∈ tag.leaves ++ pairs.flatMap fun p => Expr.leavesAll p.1.values := fun p hp x hx =>
    List.mem_append_right _ (List.mem_flatMap.mpr ⟨p, hp, hx⟩)
  have hsupplied := switchTag_supplies (F := τ.types) (J := J) (H := True) hctx (some tag)
    (S := tag.leaves ++ pairs.flatMap fun p => Expr.leavesAll p.1.values)
    (fun x hx => List.mem_append_left _ hx) σ _ σ₁ htag
  have hv := (hsupplied.2 hle trivial).2 _ rfl _ rfl
  have htested := testClauses_supplies (F := τ.types) (J := J) (H := True) hctx (some v) pairs nofun
    hleaves (fun _ => hv) σ₂ _ τ hrun
  exact (htested.2 (TypeStore.le_refl _) trivial).1.mixes

end Lower

/-! ## Statements -/

namespace Stmt

open Lower

variable {ctx : FnContext} {s : Stmt} {ss outer inner : List Stmt} {σ τ υ : FnState} {inst : Inst}

/-- In a switch without a tag that begins in `σ`, the instruction joins values of a clause. -/
def JoinsClause (ctx : FnContext) (init : Option Stmt) (clauses : List Clause) (σ : FnState)
    (inst : Inst) : Prop :=
  ∃ σ₁ n values entry α β, Tags ctx init none σ none σ₁ ∧
    Poses ctx none clauses σ₁ n (.test (.anyOf values) entry) α β ∧
    JoinsValues ctx values α.reopened inst

/-- In lowering the statements from `σ`, the instruction joins values of a clause. -/
def Joins (ctx : FnContext) (outer : List Stmt) (σ : FnState) (inst : Inst) : Prop :=
  ∃ m init clauses rest τ, Visits ctx outer σ (.switch m init none clauses :: rest) τ ∧
    JoinsClause ctx init clauses τ inst

theorem Joins.rest (hrun : runOn (s.lower ctx) σ = (.ok (), τ)) (h : Joins ctx ss τ inst) :
    Joins ctx (s :: ss) σ inst := by
  obtain ⟨m, init, clauses, rest, υ, hvisits, h⟩ := h
  exact ⟨m, init, clauses, rest, υ, .rest hrun hvisits, h⟩

theorem Joins.child (hchild : Child ctx s σ inner τ) (h : Joins ctx inner τ inst) :
    Joins ctx (s :: ss) σ inst := by
  obtain ⟨m, init, clauses, rest, υ, hvisits, h⟩ := h
  exact ⟨m, init, clauses, rest, υ, .child hchild hvisits, h⟩

theorem Joins.head (h : Joins ctx [s] σ inst) : Joins ctx (s :: ss) σ inst := by
  obtain ⟨m, init, clauses, rest, υ, hvisits, h⟩ := h
  cases hvisits with
  | here => exact ⟨m, init, clauses, ss, σ, .here, h⟩
  | rest hrun hvisits => cases hvisits
  | child hchild hvisits => exact ⟨m, init, clauses, rest, υ, .child hchild hvisits, h⟩

theorem Joins.isBool (h : Joins ctx ss σ inst) (hc : σ.OnBlock)
    (hrun : runOn (lowerAll ctx ss) σ = (.ok (), υ)) :
    ∃ lhs rhs, inst.operation = .binary .or lhs rhs ∧ υ.types.IsBool rhs.type := by
  obtain ⟨m, init, clauses, rest, τ, hvisits, hclause⟩ := h
  obtain ⟨σ₁, n, values, entry, α, β, htags, hposes, hjoins⟩ := hclause
  obtain ⟨τ', hinner, htypes, -⟩ := hvisits.completes hc hrun
  rw [lowerAll] at hinner
  obtain ⟨_, φ, hswitch, hrest⟩ := runOn_bind_eq_ok hinner
  have hblock := (hvisits.adds hc).onBlock
  have hstays := stays_of_lowerAll (stays_of_lower hblock hswitch).onBlock hrest
  obtain ⟨lasts, σ₃, σ₄, hselected, rfl⟩ := switch_stages hblock hswitch htags
  have hasked := hselected.asked
  rw [testClauses_eq] at hasked
  have hbefore := Asked.stays hposes (onBlock_blocks (htags.flows hblock).2.lt_size _)
    fun p hp => entry_mem_newBlocks hp
  have hask : α.Stays _ β := ask_staying _ α hbefore.onBlock _ β hposes.run
  have hafter : β.Stays _ σ₃ := askAll_staying _ β hask.onBlock _ σ₃ (hposes.rest hasked)
  obtain ⟨r, γ, hlower, -, rfl⟩ := ask_test_stages hbefore.onBlock hposes.run
  have hβ : γ.types = (afterTest entry γ r).types := by cases r <;> rfl
  obtain ⟨lhs, rhs, hop, hbool⟩ :=
    hjoins.isBool (FnState.onBlock_reopened hbefore.onBlock) hlower
  refine ⟨lhs, rhs, hop, ?_⟩
  rw [hβ] at hbool
  exact (((hbool.le hafter.types).le hselected.filled.types).le hstays.types).le htypes

/-- What lowering of the statement adds joins values of clauses within it. -/
def Mixing (ctx : FnContext) (s : Stmt) : Prop :=
  ∀ σ τ, σ.OnBlock → runOn (s.lower ctx) σ = (.ok (), τ) →
    Mixes (Joins ctx [s] σ) σ.builder τ.builder

def MixingAll (ctx : FnContext) (ss : List Stmt) : Prop :=
  ∀ σ τ, σ.OnBlock → runOn (lowerAll ctx ss) σ = (.ok (), τ) →
    Mixes (Joins ctx ss σ) σ.builder τ.builder

theorem Mixing.child (h : Mixing ctx s) {t : Stmt} (hchild : Child ctx t σ [s] τ) (hc : σ.OnBlock)
    (hrun : runOn (s.lower ctx) τ = (.ok (), υ)) :
    Mixes (Joins ctx [t] σ) τ.builder υ.builder :=
  (h τ υ (hchild.adds hc).onBlock hrun).mono fun _ => .child hchild

theorem MixingAll.child (h : MixingAll ctx ss) {t : Stmt} (hchild : Child ctx t σ ss τ)
    (hc : σ.OnBlock) (hrun : runOn (lowerAll ctx ss) τ = (.ok (), υ)) :
    Mixes (Joins ctx [t] σ) τ.builder υ.builder :=
  (h τ υ (hchild.adds hc).onBlock hrun).mono fun _ => .child hchild

theorem mixing_of_plain (h : Plain (s.lower ctx)) : Mixing ctx s := fun _ _ _ hrun => h.mixes hrun

theorem option_mixes {init : Option Stmt} (h : ∀ s ∈ init, Mixing ctx s) {t : Stmt}
    (hchild : ∀ s ∈ init, Child ctx t σ [s] τ) (hc : σ.OnBlock)
    (hrun : runOn (lowerOption ctx init) τ = (.ok (), υ)) :
    Mixes (Joins ctx [t] σ) τ.builder υ.builder := by
  cases init with
  | none =>
    cases hrun
    exact .refl _ _
  | some s =>
    rw [lowerOption] at hrun
    exact (h s rfl).child (hchild s rfl) hc hrun

theorem ifElse_mixing (hctx : ctx.Opens) {m : Mark} {init other : Option Stmt} {cond : Expr}
    {body : Stmt} (hinit : ∀ s ∈ init, Mixing ctx s) (hbody : Mixing ctx body)
    (hother : ∀ s ∈ other, Mixing ctx s) : Mixing ctx (.ifElse m init cond body other) := by
  intro σ τ hc hrun
  have hall := hrun
  rw [lower_ifElse] at hrun
  obtain ⟨_, σ₁, hfirst, hrest⟩ := runOn_bind_eq_ok hrun
  have hblock := (stays_of_lowerOption hc hfirst).onBlock
  refine (option_mixes hinit (by rintro _ ⟨rfl⟩; exact .ifInit) hc hfirst).trans
    (Mixes.opened.trans ?_)
  rw [runOn_bind_ok (runOn_ensureOpen hblock)] at hrest
  obtain ⟨r, σ₂, hcond, hrest⟩ := runOn_bind_eq_ok hrest
  refine ((condition_plain hctx cond).mixes hcond).trans ?_
  cases r with
  | none =>
    cases hrest
    exact .refl _ _
  | some v =>
    have hdecides : Decides ctx init cond σ v σ₂ := ⟨σ₁, hfirst, hcond⟩
    obtain ⟨σ₃, σ₄, hbranched, rfl⟩ := ifElse_stages hc hall hdecides
    have hthen : Mixes (Joins ctx [.ifElse m init cond body other] σ) σ₂.onNew.builder σ₃.builder :=
      hbody.child (.ifThen hdecides) hc hbranched.first
    have helse : Mixes (Joins ctx [.ifElse m init cond body other] σ) σ₃.builder σ₄.builder := by
      cases other with
      | none =>
        obtain rfl := hbranched.none rfl
        exact .refl _ _
      | some s =>
        obtain ⟨hsecond, -⟩ := hbranched.second _ rfl
        exact (Mixes.withBlock.trans .moved).trans
          ((hother s rfl).child (.ifOther hdecides hbranched.first) hc hsecond)
    exact (Mixes.withBlock.trans .moved).trans (hthen.trans (helse.trans
      (Mixes.withBlock.trans ((Mixes.joined _).trans (Mixes.closed.trans .moved)))))

theorem loop_mixing (hctx : ctx.Opens) {m : Mark} {init post : Option Stmt} {cond : Option Expr}
    {body : Stmt} (hinit : ∀ s ∈ init, Mixing ctx s) (hbody : Mixing ctx body)
    (hpost : ∀ s ∈ post, Mixing ctx s) : Mixing ctx (.loop m init cond post body) := by
  intro σ τ hc hrun
  obtain ⟨exit, σ₁, σ₂, σ₃, σ₄, hlooped, rfl⟩ := loop_stages hc hrun
  have hbegins : Begins ctx init cond σ exit σ₂ := ⟨σ₁, hlooped.init, hlooped.cond⟩
  have hstart : Mixes (Joins ctx [.loop m init cond post body] σ) σ.builder (loopStart σ).builder :=
    ((Mixes.withBlocks 5).trans .opened).enter
  have hfirst := option_mixes hinit (t := .loop m init cond post body)
    (by rintro _ ⟨rfl⟩; exact .loopInit) hc hlooped.init
  have htested : Mixes (Joins ctx [.loop m init cond post body] σ) _ _ :=
    (loopCondition_plain hctx cond).mixes hlooped.cond
  have hround := hbody.child (t := .loop m init cond post body) (.loopBody hbegins) hc hlooped.body
  have hlast := option_mixes hpost (t := .loop m init cond post body)
    (by rintro _ ⟨rfl⟩; exact .loopPost hbegins hlooped.body) hc hlooped.post
  exact hstart.trans (hfirst.enter.trans (htested.enter.trans (hround.enter.trans hlast.enter)))

theorem fills_mixes {clauses : List Clause} (h : ∀ c ∈ clauses, MixingAll ctx c.body)
    {entries : List BlockId} {lasts : List (Option BlockId)}
    (hf : Fills ctx clauses entries lasts σ τ)
    (hentries : ∀ i ∈ entries, i.index < σ.builder.size) :
    Mixes (fun inst => ∃ before clause after firsts entry rest lasts υ,
      clauses = before ++ clause :: after ∧ entries = firsts ++ entry :: rest ∧
        firsts.length = before.length ∧ runOn (lowerClauses ctx before firsts) σ = (.ok lasts, υ) ∧
          Joins ctx clause.body (υ.on (υ.builder.moved entry)) inst) σ.builder τ.builder := by
  induction hf with
  | nil => exact .refl _ _
  | @cons clause clauses entry entries lasts σ σ₁ τ hrun hstays hf ih =>
    obtain ⟨hclause, hclauses⟩ := List.forall_mem_cons.mp h
    obtain ⟨hentry, hentries⟩ := List.forall_mem_cons.mp hentries
    have hsize : σ.builder.size ≤ σ₁.builder.size := hstays.code.size
    refine Mixes.moved.trans (Mixes.trans
      ((hclause (σ.on (σ.builder.moved entry)) σ₁ hentry hrun).mono ?_)
      ((ih hclauses fun i hi => Nat.lt_of_lt_of_le (hentries i hi) hsize).mono ?_))
    · exact fun inst hinst =>
        ⟨[], clause, clauses, [], entry, entries, [], σ, rfl, rfl, rfl, rfl, hinst⟩
    · rintro inst ⟨before, c, after, firsts, k, rest, lasts', υ, rfl, rfl, hlength, hbefore, hinst⟩
      refine ⟨clause :: before, c, after, entry :: firsts, k, rest, σ₁.builder.openEnd :: lasts', υ,
        rfl, rfl, by simp [hlength], ?_, hinst⟩
      obtain ⟨values, body, span⟩ := clause
      have hrun' : runOn (lowerAll ctx body) (σ.on (σ.builder.moved entry)) = (.ok (), σ₁) := hrun
      rw [lowerClauses, runOn_bind_ok (runOn_switchTo σ entry), runOn_bind_ok hrun',
        runOn_bind_ok (runOn_openEnd hstays.onBlock), runOn_bind_ok hbefore]
      rfl

theorem switch_mixing (hctx : ctx.Opens) {m : Mark} {init : Option Stmt} {tag : Option Expr}
    {clauses : List Clause} (hinit : ∀ s ∈ init, Mixing ctx s)
    (hclauses : ∀ c ∈ clauses, MixingAll ctx c.body) :
    Mixing ctx (.switch m init tag clauses) := by
  intro σ τ hc hrun
  have hall := hrun
  rw [lower_switch] at hrun
  obtain ⟨_, σ₁, hfirst, hrest⟩ := runOn_bind_eq_ok hrun
  have hblock := (stays_of_lowerOption hc hfirst).onBlock
  refine (option_mixes hinit (by rintro _ ⟨rfl⟩; exact .switchInit) hc hfirst).trans
    (Mixes.opened.trans ?_)
  rw [runOn_bind_ok (runOn_ensureOpen hblock)] at hrest
  obtain ⟨r, σ₂, htag, hrest⟩ := runOn_bind_eq_ok hrest
  refine ((switchTag_plain hctx tag).mixes htag).trans ?_
  cases r with
  | none =>
    cases hrest
    exact .refl _ _
  | some w =>
    have htags : Tags ctx init tag σ w σ₂ := ⟨σ₁, hfirst, htag⟩
    obtain ⟨lasts, σ₃, σ₄, hselected, rfl⟩ := switch_stages hc hall htags
    have hopen := (htags.flows hc).2
    have hasked : Mixes (Joins ctx [.switch m init tag clauses] σ)
        (selectStart clauses σ₂).builder σ₃.builder := by
      cases tag with
      | some tag =>
        exact testClauses_tagged_mixes hctx htag hselected.asked_stays.types hselected.asked
      | none =>
        obtain ⟨hw, -⟩ := Prod.mk.inj htag
        obtain rfl := Option.some.inj (Except.ok.inj hw)
        refine (testClauses_mixes hctx (onBlock_blocks hopen.lt_size _) hselected.asked).mono ?_
        rintro inst ⟨n, values, entry, α, β, hposes, hinst⟩
        exact ⟨m, init, clauses, [], σ, .here, σ₂, n, values, entry, α, β, htags, hposes, hinst⟩
    have hfilled : Mixes (Joins ctx [.switch m init tag clauses] σ) σ₃.builder σ₄.builder := by
      have hsite := site_asked hopen hselected.asked_stays
      refine (fills_mixes hclauses hselected.filled fun i hi =>
        (hsite.opened i (List.mem_append_left _ hi)).lt_size).mono ?_
      rintro inst ⟨before, clause, after, firsts, entry, rest, lasts', υ, rfl, hentries, hlength,
        hbefore, hinst⟩
      obtain ⟨others, -, hsplit⟩ := σ₂.builder.exists_newBlocks_split before.length after.length
      rw [List.length_append, List.length_cons, hsplit] at hentries
      obtain ⟨rfl, hrest⟩ := List.append_inj hentries (by simp [hlength])
      obtain ⟨rfl, -⟩ := List.cons.inj hrest
      exact .child (.clause htags hselected.asked hbefore) hinst
    exact (Mixes.withBlocks _).trans (hasked.trans (hfilled.trans
      (Mixes.withBlock.trans ((Mixes.joined _).trans .moved))))

mutual

theorem lower_mixing (hctx : ctx.Opens) (s : Stmt) : Mixing ctx s := by
  cases s with
  | block m body =>
    intro σ τ hc hrun
    rw [lower] at hrun
    exact (lowerAll_mixing hctx body).child .block hc hrun
  | empty m =>
    intro σ τ hc hrun
    rw [lower] at hrun
    cases hrun
    exact .refl _ _
  | expr m e =>
    refine mixing_of_plain ?_
    rw [lower]
    exact plain_of_supplies fun _ => exprStmt_supplies hctx e fun _ h => h
  | ifElse m init cond body other =>
    exact ifElse_mixing hctx (lowerOption_mixing hctx init) (lower_mixing hctx body)
      (lowerOption_mixing hctx other)
  | loop m init cond post body =>
    exact loop_mixing hctx (lowerOption_mixing hctx init) (lower_mixing hctx body)
      (lowerOption_mixing hctx post)
  | switch m init tag clauses =>
    exact switch_mixing hctx (lowerOption_mixing hctx init) (lowerClauses_mixing hctx clauses)
  | ret m results =>
    refine mixing_of_plain ?_
    rw [lower]
    exact plain_of_supplies fun _ => returnStmt_supplies hctx m.span results fun _ h => h
  | assign | incDec | jump | varDecl | labeled | defer | go | range =>
    intro σ τ hc hrun
    rw [lower] at hrun
    cases hrun

theorem lowerAll_mixing (hctx : ctx.Opens) (ss : List Stmt) : MixingAll ctx ss := by
  cases ss with
  | nil =>
    intro σ τ hc hrun
    rw [lowerAll] at hrun
    cases hrun
    exact .refl _ _
  | cons s rest =>
    intro σ τ hc hrun
    rw [lowerAll] at hrun
    obtain ⟨_, σ₁, hs, hrest⟩ := runOn_bind_eq_ok hrun
    have hblock := (stays_of_lower hc hs).onBlock
    exact ((lower_mixing hctx s σ σ₁ hc hs).mono fun _ => .head).trans
      ((lowerAll_mixing hctx rest σ₁ τ hblock hrest).mono fun _ => .rest hs)

theorem lowerOption_mixing (hctx : ctx.Opens) (init : Option Stmt) :
    ∀ s ∈ init, Mixing ctx s := by
  cases init with
  | none => simp
  | some s =>
    rintro _ ⟨rfl⟩
    exact lower_mixing hctx s

theorem lowerClauses_mixing (hctx : ctx.Opens) (clauses : List Clause) :
    ∀ c ∈ clauses, MixingAll ctx c.body := by
  cases clauses with
  | nil => simp
  | cons clause rest =>
    obtain ⟨values, body, span⟩ := clause
    exact List.forall_mem_cons.mpr
      ⟨lowerAll_mixing hctx body, lowerClauses_mixing hctx rest⟩

end

end Stmt

namespace Pass

variable {ctx : Context} {decl : FuncDecl} {span : Span} {s s' : Session} {f : Function}

/-- In lowering the declared function from `s`, the instruction joins values of a clause of a switch
without a tag. -/
def Joins (ctx : Context) (decl : FuncDecl) (s : Session) (inst : Inst) : Prop :=
  ∃ body fctx σ, decl.body = some body ∧ Starts ctx decl s fctx σ ∧ Stmt.Joins fctx [body] σ inst

theorem Starts.opens {fctx : FnContext} {σ : FnState} (h : Starts ctx decl s fctx σ) :
    fctx.Opens := by
  obtain ⟨sig, scope, -, rfl, hparams⟩ := h
  obtain ⟨b, hadd, -, -, -⟩ := Lower.run_addParams
    (((Field.flatten decl.params).map Prod.fst).zip sig.params)
    (Builder.Headed.start decl.name sig.ret) []
  rw [Lower.runOn_build_ok hadd] at hparams
  obtain rfl := Except.ok.inj (Prod.mk.inj hparams).1
  exact FnContext.opens_bindParams ctx _

/-- The `or`s of conditions of different types in a function. -/
theorem function_mixes (hrun : runOn (Pass.function ctx decl span) s = (.ok (some f), s')) :
    ∀ inst ∈ f.insts, inst.operation.Mixed → Joins ctx decl s inst := by
  obtain ⟨body, sig, hbody, hsig⟩ := exists_body hrun
  obtain ⟨fctx, σ, hstarts⟩ := exists_starts hsig
  obtain ⟨υ, φ, hlower, hfinish, rfl, -⟩ := hstarts.run hbody hrun
  obtain ⟨-, hblock, types, hhead⟩ := hstarts.headed
  have hplain : Lower.Plain (Lower.finishBody decl.name span) :=
    Lower.plain_of_supplies (P := fun _ _ => True) fun _ =>
      Lower.finishBody_supplies decl.name span
  have hmixes := (Stmt.lower_mixing hstarts.opens body σ υ hblock hlower).trans
    (hplain.mixes hfinish)
  intro inst hinst hmixed
  rcases hmixes inst hmixed (Builder.mem_insts hinst) with hjoins | ⟨i, blk, hblk, hin⟩
  · exact ⟨body, fctx, σ, hbody, hstarts, hjoins⟩
  · obtain ⟨-, rfl⟩ := hhead.block?_eq hblk
    cases hin

theorem Joins.isBool {inst : Inst} (h : Joins ctx decl s inst)
    (hrun : runOn (Pass.function ctx decl span) s = (.ok (some f), s')) :
    ∃ lhs rhs, inst.operation = .binary .or lhs rhs ∧ s'.types.IsBool rhs.type := by
  obtain ⟨body, fctx, σ, hbody, hstarts, hjoins⟩ := h
  obtain ⟨υ, φ, hlower, hfinish, -, htypes⟩ := hstarts.run hbody hrun
  have hblock := hstarts.headed.2.1
  have hend : υ.Stays [] φ := Lower.finishBody_staying decl.name span υ
    (Stmt.stays_of_lower hblock hlower).onBlock _ φ hfinish
  obtain ⟨lhs, rhs, hop, hbool⟩ := hjoins.isBool hblock (Stmt.runOn_lowerAll_singleton hlower)
  exact ⟨lhs, rhs, hop, htypes ▸ hbool.le hend.types⟩

end Pass

end Midend
