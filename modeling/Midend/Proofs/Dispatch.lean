import Midend.Proofs.Edges

/-!
# Midend.Proofs.Dispatch

A switch goes to its clauses through its own tests only, whichever of its values were lowered with
an error and wherever its default clause stands (`Pass.lower_dispatch`). The questions of a switch
are asked one after the other. What one of them adds to the code leads to its own clause, or on to
the next question, so the edges to an entry are those that the questions about its clause have made.
-/

namespace Midend

open Ir
open Relation (ReflTransGen)

namespace Lower

theorem runOn_recover_eq_some {α : Type} {m : Lower α} {a : α} {σ τ : FnState} :
    runOn (recover m) σ = (.ok (some a), τ) ↔ runOn m σ = (.ok a, τ) := by
  obtain ⟨r, υ, hrun⟩ := exists_runOn m σ
  rw [runOn_recover, hrun]
  rcases r with (_ | _ | _) | _ <;> simp

end Lower

theorem Ir.Builder.ends_joined {b : Builder} {k i : BlockId} {ends : List BlockId}
    (hnodup : ends.Nodup) (hopen : ∀ i ∈ ends, b.Open i) (hi : i ∈ ends) :
    (b.joined k ends).Ends i (.br k) := by
  induction ends generalizing b with
  | nil => simp at hi
  | cons n ends ih =>
    obtain ⟨hn, hends⟩ := List.nodup_cons.mp hnodup
    have hrest : ∀ i ∈ ends, (b.closed n (.br k)).Open i := fun i hi =>
      open_closed.mpr ⟨fun heq => hn (heq ▸ hi), hopen i (List.mem_cons_of_mem _ hi)⟩
    have hclosed : (b.closed n (.br k)).Ends n (.br k) :=
      (ends_closed (hopen n List.mem_cons_self)).mpr (.inr rfl)
    have hjoined : Apart 0 0 (b.closed n (.br k)) ((b.closed n (.br k)).joined k ends) :=
      .joined hends hrest (.inr (Nat.zero_le _))
    rcases List.mem_cons.mp hi with rfl | hi
    · exact hjoined.le.ends hclosed
    · exact ih hends hrest hi

/-- A value was lowered and compared with the tag, or a value of a clause without a tag is a
condition: the clause is taken if `cond` holds. -/
def Query.Succeeds (ctx : FnContext) : Query → FnState → Value → FnState → Prop
  | .value tag e, σ, cond, τ => ∃ v σ₁, runOn (e.lower ctx) σ = (.ok v, σ₁) ∧
      runOn (Lower.equal tag v e.span) σ₁ = (.ok cond, τ)
  | .anyOf values, σ, cond, τ => runOn (Lower.anyOf ctx none values) σ = (.ok (some cond), τ)

/-- A question that is asked in `σ` leads to its clause from the block. -/
def Question.LeadsFrom (ctx : FnContext) : Question → FnState → BlockId → Prop
  | .test query _, σ, i => ∃ cond τ, query.Succeeds ctx σ.reopened cond τ ∧ i = τ.builder.cursor
  | .default _, σ, i => i = σ.reopened.builder.cursor

namespace Lower

variable {ctx : FnContext} {query : Query} {q : Question} {qs : List Question} {cond : Value}
  {entry i j k : BlockId} {σ τ υ : FnState} {n : Nat}

theorem succeeds_iff : query.Succeeds ctx σ cond τ ↔
    runOn (query.lower ctx) σ = (.ok (some cond), τ) := by
  cases query with
  | anyOf values => exact Iff.rfl
  | value tag e =>
    rw [Query.lower]
    constructor
    · rintro ⟨v, σ₁, hlower, hequal⟩
      rw [runOn_bind_ok (runOn_recover_eq_some.mpr hlower)]
      exact runOn_recover_eq_some.mpr hequal
    · intro hrun
      obtain ⟨r, σ₁, hlower, hrest⟩ := runOn_bind_eq_ok hrun
      cases r with
      | none => cases hrest
      | some v =>
        exact ⟨v, σ₁, runOn_recover_eq_some.mp hlower, runOn_recover_eq_some.mp hrest⟩

theorem anyOf_isSome {before r : Option Value} {values : List Expr}
    (hrun : runOn (anyOf ctx before values) σ = (.ok r, τ)) :
    r.isSome ↔ before.isSome ∨ ∃ n e b μ cond μ', values[n]? = some e ∧
      runOn (anyOf ctx before (values.take n)) σ = (.ok b, μ) ∧
        runOn (condition ctx e) μ = (.ok (some cond), μ') := by
  induction values generalizing before σ with
  | nil =>
    obtain ⟨hr, -⟩ := Prod.mk.inj hrun
    obtain rfl := Except.ok.inj hr
    simp
  | cons e rest ih =>
    rw [anyOf] at hrun
    obtain ⟨c, σ₁, hcond, hrest⟩ := runOn_bind_eq_ok hrun
    cases c with
    | none =>
      -- The first value does not count, so the question is one about the others.
      have hsame : ∀ n, runOn (anyOf ctx before ((e :: rest).take (n + 1))) σ =
          runOn (anyOf ctx before (rest.take n)) σ₁ := fun n => by
        rw [List.take_succ_cons, anyOf, runOn_bind_ok hcond]
      rw [ih hrest]
      refine or_congr_right ⟨?_, ?_⟩
      · rintro ⟨n, e', b, μ, cond, μ', hn, hb, hc⟩
        exact ⟨n + 1, e', b, μ, cond, μ', hn, (hsame n).trans hb, hc⟩
      · rintro ⟨_ | n, e', b, μ, cond, μ', hn, hb, hc⟩
        · obtain rfl := Option.some.inj hn
          obtain ⟨-, rfl⟩ := Prod.mk.inj hb
          rw [hcond] at hc
          cases hc
        · exact ⟨n, e', b, μ, cond, μ', hn, (hsame n).symm.trans hb, hc⟩
    | some cond =>
      have hsome : r.isSome := by
        cases before with
        | none => exact (ih hrest).mpr (.inl rfl)
        | some lhs =>
          obtain ⟨both, σ₂, -, hboth⟩ := runOn_bind_eq_ok hrest
          exact (ih hboth).mpr (.inl rfl)
      exact ⟨fun _ => .inr ⟨0, e, before, σ, cond, σ₁, rfl, rfl, hcond⟩, fun _ => hsome⟩

theorem ask_test_stages (hc : σ.OnBlock)
    (hrun : runOn (Question.ask ctx (.test query entry)) σ = (.ok (), τ)) :
    ∃ r σ₁, runOn (query.lower ctx) σ.reopened = (.ok r, σ₁) ∧ σ.reopened.Flows σ₁ ∧
      τ = afterTest entry σ₁ r :=
  ask_test_ends (E := fun _ => True) hc query entry (fun _ => trivial) _ τ hrun

theorem ask_default_eq (hc : σ.OnBlock)
    (hrun : runOn (Question.ask ctx (.default entry)) σ = (.ok (), τ)) :
    τ = σ.reopened.on (σ.reopened.builder.closed σ.reopened.builder.cursor (.br entry)) :=
  (Prod.mk.inj (hrun.symm.trans (runOn_ask_default hc entry))).2

theorem ends_default (hc : σ.OnBlock)
    (hrun : runOn (Question.ask ctx (.default entry)) σ = (.ok (), τ)) :
    τ.builder.cursor = σ.reopened.builder.cursor ∧
      τ.builder.Ends σ.reopened.builder.cursor (.br entry) := by
  obtain rfl := ask_default_eq hc hrun
  exact ⟨rfl, (Builder.ends_closed (Builder.open_opened hc)).mpr (.inr rfl)⟩

theorem edge_branched (hopen : σ.builder.Open σ.builder.cursor) :
    (branched entry σ cond).builder.Edge i j ↔
      σ.builder.Edge i j ∨ (i = σ.builder.cursor ∧ (j = entry ∨ j = ⟨σ.builder.size⟩)) := by
  have hopen' : σ.builder.withBlock.Open σ.builder.cursor :=
    Builder.open_withBlock.mpr (.inr hopen)
  show (σ.builder.withBlock.closed _ _).Edge i j ↔ _
  rw [Builder.edge_closed hopen', Builder.edge_withBlock]
  exact or_congr_right (and_congr_right fun _ => List.mem_pair)

theorem ends_branched (hopen : σ.builder.Open σ.builder.cursor) :
    (branched entry σ cond).builder.Ends σ.builder.cursor (.condBr cond entry ⟨σ.builder.size⟩) :=
  (Builder.ends_closed (Builder.open_withBlock.mpr (.inr hopen))).mpr (.inr rfl)

theorem edge_ask (hc : σ.OnBlock) (hrun : runOn (q.ask ctx) σ = (.ok (), τ))
    (hj : j.index < σ.builder.size) : τ.builder.Edge i j ↔
      σ.builder.Edge i j ∨ (q.entry = j ∧ q.LeadsFrom ctx σ i) := by
  have hlt : j.index < σ.reopened.builder.size :=
    Nat.lt_of_lt_of_le hj (FnState.stays_reopened hc).code.size
  have hopen : σ.reopened.builder.Open σ.reopened.builder.cursor := Builder.open_opened hc
  have hold : σ.reopened.builder.Edge i j ↔ σ.builder.Edge i j := Builder.edge_opened
  cases q with
  | default entry =>
    obtain rfl := ask_default_eq hc hrun
    show (σ.reopened.builder.closed _ _).Edge i j ↔ _
    rw [Builder.edge_closed hopen, hold]
    refine or_congr_right ⟨fun h => ⟨(List.mem_singleton.mp h.2).symm, h.1⟩, fun h => ⟨h.2, ?_⟩⟩
    exact List.mem_singleton.mpr h.1.symm
  | test query entry =>
    obtain ⟨r, σ₁, hquery, hflows, rfl⟩ := ask_test_stages hc hrun
    have hbefore : σ₁.builder.Edge i j ↔ σ.builder.Edge i j :=
      (hflows.code.edge_iff_of_lt hlt).trans hold
    cases r with
    | none =>
      refine hbefore.trans ⟨.inl, Or.rec id ?_⟩
      rintro ⟨-, cond, γ, hsucceeds, -⟩
      have hsome := succeeds_iff.mp hsucceeds
      rw [hquery] at hsome
      cases hsome
    | some cond =>
      have hne : j ≠ ⟨σ₁.builder.size⟩ := by
        rintro rfl
        exact absurd hlt (Nat.not_lt.mpr hflows.code.size)
      refine (edge_branched (hflows.opened hopen)).trans (or_congr hbefore ⟨?_, ?_⟩)
      · rintro ⟨rfl, hj⟩
        exact ⟨(hj.resolve_right hne).symm, cond, σ₁, succeeds_iff.mpr hquery, rfl⟩
      · rintro ⟨rfl, cond', γ, hsucceeds, rfl⟩
        obtain ⟨-, rfl⟩ := Prod.mk.inj (hquery.symm.trans (succeeds_iff.mp hsucceeds))
        exact ⟨rfl, .inl rfl⟩

theorem leadsFrom_sealed (hc : σ.OnBlock) (hrun : runOn (q.ask ctx) σ = (.ok (), τ))
    (h : q.LeadsFrom ctx σ i) :
    (∃ γ : FnState, σ.builder.Le γ.builder ∧ γ.builder.Open i) ∧ ∃ t, τ.builder.Ends i t := by
  have hle := (FnState.stays_reopened hc).code.le
  have hopen : σ.reopened.builder.Open σ.reopened.builder.cursor := Builder.open_opened hc
  cases q with
  | default entry =>
    obtain rfl := h
    exact ⟨⟨σ.reopened, hle, hopen⟩, _, (ends_default hc hrun).2⟩
  | test query entry =>
    obtain ⟨r, σ₁, hquery, hflows, rfl⟩ := ask_test_stages hc hrun
    obtain ⟨cond, γ, hsucceeds, rfl⟩ := h
    obtain ⟨hr, rfl⟩ := Prod.mk.inj (hquery.symm.trans (succeeds_iff.mp hsucceeds))
    obtain rfl := Except.ok.inj hr
    exact ⟨⟨σ₁, hle.trans hflows.code.le, hflows.opened hopen⟩, _,
      ends_branched (hflows.opened hopen)⟩

/-- Number `n` of the questions, which are asked from `σ` on, is `q`; it is asked from `α` to `β`.
-/
inductive Asked (ctx : FnContext) :
    List Question → FnState → Nat → Question → FnState → FnState → Prop where
  | here {q : Question} {qs : List Question} {σ τ : FnState} :
      runOn (q.ask ctx) σ = (.ok (), τ) → Asked ctx (q :: qs) σ 0 q σ τ
  | later {p q : Question} {qs : List Question} {n : Nat} {σ τ α β : FnState} :
      runOn (p.ask ctx) σ = (.ok (), τ) → Asked ctx qs τ n q α β →
      Asked ctx (p :: qs) σ (n + 1) q α β

namespace Asked

variable {m : Nat} {q' : Question} {α β α' β' : FnState} {exits : List BlockId}

theorem get (h : Asked ctx qs σ n q α β) : qs[n]? = some q := by
  induction h with
  | here => rfl
  | later _ _ ih => exact ih

theorem run (h : Asked ctx qs σ n q α β) : runOn (q.ask ctx) α = (.ok (), β) := by
  induction h with
  | here hrun => exact hrun
  | later _ _ ih => exact ih

theorem start (h : Asked ctx qs σ 0 q α β) : α = σ := by
  cases h
  rfl

theorem exists_of_run (hrun : runOn (askAll ctx qs) σ = (.ok (), τ)) (hn : qs[n]? = some q) :
    ∃ α β, Asked ctx qs σ n q α β := by
  induction qs generalizing σ n with
  | nil => simp at hn
  | cons p rest ih =>
    rw [askAll] at hrun
    obtain ⟨_, σ₁, hfirst, hrest⟩ := runOn_bind_eq_ok hrun
    cases n with
    | zero =>
      obtain rfl := Option.some.inj hn
      exact ⟨σ, σ₁, .here hfirst⟩
    | succ n =>
      obtain ⟨α, β, h⟩ := ih hrest hn
      exact ⟨α, β, .later hfirst h⟩

theorem stays (h : Asked ctx qs σ n q α β) (hc : σ.OnBlock) (hx : ∀ p ∈ qs, p.entry ∈ exits) :
    σ.Stays exits α := by
  induction h with
  | here => exact .refl _ hc
  | later hrun _ ih =>
    have hfirst : FnState.Stays _ _ _ := ask_staying _ _ hc _ _ hrun
    refine (hfirst.weaken fun j hj => ?_).trans
      (ih hfirst.onBlock fun p hp => hx p (List.mem_cons_of_mem _ hp))
    exact List.mem_singleton.mp hj ▸ hx _ List.mem_cons_self

theorem functional (h : Asked ctx qs σ n q α β) (h' : Asked ctx qs σ n q' α' β') :
    q = q' ∧ α = α' ∧ β = β' := by
  induction h with
  | here hrun =>
    cases h' with
    | here hrun' => exact ⟨rfl, rfl, (Prod.mk.inj (hrun.symm.trans hrun')).2⟩
  | later hrun _ ih =>
    cases h' with
    | later hrun' hrest =>
      obtain ⟨-, rfl⟩ := Prod.mk.inj (hrun.symm.trans hrun')
      exact ih hrest

theorem rest (h : Asked ctx qs σ n q α β) (hrun : runOn (askAll ctx qs) σ = (.ok (), τ)) :
    runOn (askAll ctx (qs.drop (n + 1))) β = (.ok (), τ) := by
  induction h with
  | here hfirst =>
    rw [askAll, runOn_bind_ok hfirst] at hrun
    exact hrun
  | later hfirst _ ih =>
    rw [askAll, runOn_bind_ok hfirst] at hrun
    exact ih hrun

theorem further (h : Asked ctx qs σ n q α β) (h' : Asked ctx qs σ (n + 1 + m) q' α' β') :
    Asked ctx (qs.drop (n + 1)) β m q' α' β' := by
  induction h with
  | here hrun =>
    rw [Nat.add_right_comm] at h'
    cases h' with
    | later hrun' hrest =>
      obtain ⟨-, rfl⟩ := Prod.mk.inj (hrun.symm.trans hrun')
      rwa [Nat.zero_add] at hrest
  | later hrun _ ih =>
    rw [Nat.add_right_comm] at h'
    cases h' with
    | later hrun' hrest =>
      obtain ⟨-, rfl⟩ := Prod.mk.inj (hrun.symm.trans hrun')
      exact ih hrest

end Asked

theorem edge_askAll (hc : σ.OnBlock) (hrun : runOn (askAll ctx qs) σ = (.ok (), τ))
    (hj : j.index < σ.builder.size) : τ.builder.Edge i j ↔ σ.builder.Edge i j ∨
      ∃ n q α β, Asked ctx qs σ n q α β ∧ q.entry = j ∧ q.LeadsFrom ctx α i := by
  induction qs generalizing σ with
  | nil =>
    obtain ⟨-, rfl⟩ := Prod.mk.inj hrun
    refine ⟨.inl, Or.rec id ?_⟩
    rintro ⟨n, q, α, β, hasked, -⟩
    cases hasked
  | cons p rest ih =>
    rw [askAll] at hrun
    obtain ⟨_, σ₁, hfirst, hrest⟩ := runOn_bind_eq_ok hrun
    have hstays : FnState.Stays _ σ σ₁ := ask_staying p σ hc _ σ₁ hfirst
    rw [ih hstays.onBlock hrest (Nat.lt_of_lt_of_le hj hstays.code.size), edge_ask hc hfirst hj,
      or_assoc]
    refine or_congr_right ⟨?_, ?_⟩
    · rintro (⟨hentry, hleads⟩ | ⟨n, q, α, β, hasked, hq⟩)
      · exact ⟨0, p, σ, σ₁, .here hfirst, hentry, hleads⟩
      · exact ⟨n + 1, q, α, β, .later hfirst hasked, hq⟩
    · rintro ⟨n, q, α, β, hasked, hq⟩
      cases hasked with
      | here => exact .inl hq
      | later hfirst' hasked =>
        obtain ⟨-, rfl⟩ := Prod.mk.inj (hfirst.symm.trans hfirst')
        exact .inr ⟨_, q, α, β, hasked, hq⟩

theorem filter_questions {tag : Option Value} {pairs : List (Clause × BlockId)} {clause : Clause}
    (hnodup : (pairs.map Prod.snd).Nodup) (hp : (clause, entry) ∈ pairs) :
    (questions tag pairs).filter (fun q => q.entry = entry) = clauseQuestions tag clause entry := by
  induction pairs with
  | nil => simp at hp
  | cons p rest ih =>
    obtain ⟨c, e⟩ := p
    obtain ⟨hnotMem, hrest⟩ := List.nodup_cons.mp hnodup
    rw [questions, List.filter_append]
    rcases List.mem_cons.mp hp with heq | hmem
    · obtain ⟨rfl, rfl⟩ := Prod.mk.inj heq
      have hothers : (questions tag rest).filter (fun q => q.entry = entry) = [] := by
        refine List.filter_eq_nil_iff.mpr fun q hq hentry => hnotMem ?_
        obtain ⟨p, hp, hqp⟩ := mem_questions hq
        exact List.mem_map.mpr ⟨p, hp, hqp.symm.trans (of_decide_eq_true hentry)⟩
      rw [hothers, List.append_nil]
      exact List.filter_eq_self.mpr fun q hq => decide_eq_true (mem_clauseQuestions hq)
    · have hothers : (clauseQuestions tag c e).filter (fun q => q.entry = entry) = [] := by
        refine List.filter_eq_nil_iff.mpr fun q hq hentry => hnotMem ?_
        have hne : e = entry := (mem_clauseQuestions hq).symm.trans (of_decide_eq_true hentry)
        exact List.mem_map.mpr ⟨_, hmem, hne.symm⟩
      rw [hothers, List.nil_append, ih hrest hmem]

theorem map_snd_entered (clauses : List Clause) (σ : FnState) :
    (entered clauses σ).map Prod.snd = σ.builder.newBlocks clauses.length :=
  List.map_snd_zip (by simp)

theorem filter_entered {tag : Option Value} {clauses : List Clause} {clause : Clause}
    (hp : (clause, entry) ∈ entered clauses σ) :
    (questions tag (entered clauses σ)).filter (fun q => q.entry = entry) =
      clauseQuestions tag clause entry :=
  filter_questions (map_snd_entered clauses σ ▸ Builder.nodup_newBlocks _) hp

theorem two_le_length_filter {α : Type} {l : List α} {p : α → Bool} {m n : Nat} {a b : α}
    (hn : l[n]? = some a) (hm : l[m]? = some b) (ha : p a) (hb : p b) (hlt : n < m) :
    2 ≤ (l.filter p).length := by
  have hbefore : a ∈ l.take m :=
    List.mem_of_getElem? ((List.getElem?_take_of_lt hlt).trans hn)
  have hafter : b ∈ l.drop m := by
    refine List.mem_of_getElem? (i := 0) ?_
    rwa [List.getElem?_drop]
  rw [← List.take_append_drop m l, List.filter_append, List.length_append]
  exact Nat.add_le_add (List.length_pos_of_mem (List.mem_filter.mpr ⟨hbefore, ha⟩))
    (List.length_pos_of_mem (List.mem_filter.mpr ⟨hafter, hb⟩))

theorem length_filter_default {tag : Option Value} {clauses : List Clause}
    (hq : .default entry ∈ questions tag (entered clauses σ)) :
    ((questions tag (entered clauses σ)).filter (fun q => q.entry = entry)).length = 1 := by
  obtain ⟨⟨clause, entry'⟩, hp, heq⟩ := mem_questions hq
  obtain rfl : entry = entry' := heq
  have hmem : Question.default entry ∈ clauseQuestions tag clause entry := by
    rw [← filter_entered hp]
    exact List.mem_filter.mpr ⟨hq, decide_eq_true rfl⟩
  rw [filter_entered hp]
  unfold clauseQuestions at hmem ⊢
  split at hmem
  · rename_i hdefault
    rw [if_pos hdefault]
    rfl
  · cases tag <;> simp at hmem

theorem apart_asked {tag : Option Value} {clauses : List Clause} {lasts : List (Option BlockId)}
    {σ₁ σ₂ : FnState} (h : Selected ctx tag clauses lasts σ σ₁ σ₂) :
    Builder.Apart 0 σ₁.builder.size σ₁.builder (afterSelect lasts σ₁ σ₂).builder := by
  obtain ⟨hbodies, hsize⟩ := Stmt.apart_filled h.filled (Nat.le_refl _)
  exact hbodies.trans (Stmt.apart_select h hsize)

/-- In a switch that begins in `σ`, question number `n` is `q`; it is asked from `α` to `β`. -/
def Poses (ctx : FnContext) (tag : Option Value) (clauses : List Clause) (σ : FnState) :
    Nat → Question → FnState → FnState → Prop :=
  Asked ctx (questions tag (entered clauses σ)) (selectStart clauses σ)

end Lower

/-! ## In the finished function -/

namespace Pass

open Stmt Lower

/-- How a switch goes to its clauses in the function. The tag was lowered up to `σ`; the questions
were asked up to `σ₁`, and after the statement there is `τ`. -/
structure Dispatch (fctx : FnContext) (tag : Option Value) (clauses : List Clause) (f : Function)
    (lasts : List (Option BlockId)) (σ σ₁ σ₂ τ : FnState) : Prop where
  asked : runOn (testClauses fctx tag (entered clauses σ)) (selectStart clauses σ) = (.ok (), σ₁)
  /-- Every question is asked, in the order of the source. -/
  posed : ∀ n q, (questions tag (entered clauses σ))[n]? = some q →
    ∃ α β, Poses fctx tag clauses σ n q α β
  /-- The questions that may lead to a clause are those about it. -/
  own : ∀ clause entry, (clause, entry) ∈ entered clauses σ →
    (questions tag (entered clauses σ)).filter (fun q => q.entry = entry) =
      clauseQuestions tag clause entry
  /-- A clause is entered from where its questions lead to it, and from nowhere else. -/
  entryEdges : ∀ clause entry, (clause, entry) ∈ entered clauses σ → ∀ i, f.Edge i entry ↔
    ∃ n q α β, Poses fctx tag clauses σ n q α β ∧ q.entry = entry ∧ q.LeadsFrom fctx α i
  /-- Every question leads from a block of its own. -/
  once : ∀ n q α β m q' α' β' i, Poses fctx tag clauses σ n q α β →
    Poses fctx tag clauses σ m q' α' β' → q.LeadsFrom fctx α i → q'.LeadsFrom fctx α' i → n = m
  /-- Where a test can be made, it leads to the clause or to a new block, entered by nothing else;
  there the next question is asked. -/
  test : ∀ n query entry α β cond γ, Poses fctx tag clauses σ n (.test query entry) α β →
    query.Succeeds fctx α.reopened cond γ →
      f.Ends γ.builder.cursor (.condBr cond entry ⟨γ.builder.size⟩) ∧
        (∀ i, f.Edge i ⟨γ.builder.size⟩ ↔ i = γ.builder.cursor) ∧
          β.builder.cursor = ⟨γ.builder.size⟩ ∧ β.builder.Open ⟨γ.builder.size⟩
  /-- Where it cannot, the next question is asked where its own code ends. -/
  failed : ∀ n query entry α β, Poses fctx tag clauses σ n (.test query entry) α β →
    (¬ ∃ cond γ, query.Succeeds fctx α.reopened cond γ) →
      runOn (query.lower fctx) α.reopened = (.ok none, β) ∧ β.builder.Open β.builder.cursor
  /-- Without a tag, a test can be made if any value of the clause is a condition. -/
  anyOf : ∀ n values entry α β, Poses fctx tag clauses σ n (.test (.anyOf values) entry) α β →
    ((∃ cond γ, Query.Succeeds fctx (.anyOf values) α.reopened cond γ) ↔
      ∃ n e b μ cond μ', values[n]? = some e ∧
        runOn (Lower.anyOf fctx none (values.take n)) α.reopened = (.ok b, μ) ∧
          runOn (condition fctx e) μ = (.ok (some cond), μ'))
  /-- A default clause is entered from where the questions have come to. -/
  default : ∀ n entry α β, Poses fctx tag clauses σ n (.default entry) α β →
    f.Ends α.reopened.builder.cursor (.br entry) ∧
      ∀ i, f.Edge i entry ↔ i = α.reopened.builder.cursor
  /-- What is asked after it cannot be reached. -/
  after : ∀ n entry α β m q' α' β' k, Poses fctx tag clauses σ n (.default entry) α β → n < m →
    Poses fctx tag clauses σ m q' α' β' → α'.reopened.builder.Own k → k.index < β'.builder.size →
      ¬ ReflTransGen f.Edge ⟨0⟩ k
  /-- What no question leads to is not entered, but lowered like the others. -/
  unused : ∀ clause entry, (clause, entry) ∈ entered clauses σ →
    (∀ n q α β, Poses fctx tag clauses σ n q α β → q.entry = entry →
      ∀ i, ¬ q.LeadsFrom fctx α i) → ¬ ReflTransGen f.Edge ⟨0⟩ entry
  next : ∀ n q α β q' α' β', Poses fctx tag clauses σ n q α β →
    Poses fctx tag clauses σ (n + 1) q' α' β' → α' = β
  final : ∀ n q α β, Poses fctx tag clauses σ n q α β →
    n + 1 = (questions tag (entered clauses σ)).length → β = σ₁
  /-- After the last question control goes on after the switch. -/
  last : σ₁.builder.Open σ₁.builder.cursor → f.Ends σ₁.builder.cursor (.br τ.builder.cursor)
  bodies : Fills fctx clauses (σ.builder.newBlocks clauses.length) lasts σ₁ σ₂

/-- A switch in the finished function, with its stages. -/
structure Chosen (fctx : FnContext) (tag : Option Value) (clauses : List Clause) (f : Function)
    (lasts : List (Option BlockId)) (σ σ₁ σ₂ : FnState) : Prop where
  selected : Selected fctx tag clauses lasts σ σ₁ σ₂
  opened : σ.builder.Open σ.builder.cursor
  bounded : σ.builder.Bounded
  /-- What is branched to, of the blocks that were made up to the last question. -/
  edges : ∀ i j, σ.builder.size ≤ j.index → j.index < σ₁.builder.size →
    (f.Edge i j ↔ σ₁.builder.Edge i j)
  ends : ∀ i t, (afterSelect lasts σ₁ σ₂).builder.Ends i t → f.Ends i t

section Chosen

variable {ctx : Context} {decl : FuncDecl} {span : Span} {s s' : Session} {f : Function}
  {fctx : FnContext} {m : Mark} {init : Option Stmt} {test : Option Expr} {clauses : List Clause}
  {tag : Option Value} {lasts : List (Option BlockId)} {q : Question} {n : Nat}
  {σ₀ σ σ₁ σ₂ τ υ α β : FnState} {i j k : BlockId}

theorem Placed.chosen (h : Placed fctx (.switch m init test clauses) f σ₀ υ)
    (ht : Tags fctx init test σ₀ tag σ) :
    ∃ lasts σ₁ σ₂, Chosen fctx tag clauses f lasts σ σ₁ σ₂ ∧ υ = afterSelect lasts σ₁ σ₂ := by
  obtain ⟨hstays, hopen⟩ := ht.flows h.onBlock
  obtain ⟨lasts, σ₁, σ₂, hselected, rfl⟩ := switch_stages h.onBlock h.run ht
  have hapart := apart_asked hselected
  refine ⟨lasts, σ₁, σ₂, ⟨hselected, hopen, hstays.code.bounded (by simp) h.bounded,
    fun i j hlo hhi => ?_, h.ends⟩, rfl⟩
  rw [h.edges i j (Nat.le_trans hstays.code.size hlo) (Nat.lt_of_lt_of_le hhi hapart.le.size),
    hapart.edge_iff (Nat.zero_le _) hhi]

namespace Chosen

theorem asked (h : Chosen fctx tag clauses f lasts σ σ₁ σ₂) :
    runOn (askAll fctx (questions tag (entered clauses σ))) (selectStart clauses σ) =
      (.ok (), σ₁) := by
  rw [← testClauses_eq]
  exact h.selected.asked

theorem onBlock_start (h : Chosen fctx tag clauses f lasts σ σ₁ σ₂) :
    (selectStart clauses σ).OnBlock := onBlock_blocks h.opened.lt_size _

theorem lt_start (hj : j ∈ σ.builder.newBlocks clauses.length) :
    j.index < (selectStart clauses σ).builder.size := by
  show j.index < (σ.builder.withBlocks clauses.length).size
  rw [Builder.size_withBlocks]
  exact (Builder.mem_newBlocks.mp hj).2

structure Around (clauses : List Clause) (σ σ₁ α β : FnState) : Prop where
  before : (selectStart clauses σ).Stays (σ.builder.newBlocks clauses.length) α
  ask : α.Stays (σ.builder.newBlocks clauses.length) β
  after : β.Stays (σ.builder.newBlocks clauses.length) σ₁
  bounded : α.builder.Bounded

theorem around (h : Chosen fctx tag clauses f lasts σ σ₁ σ₂)
    (hp : Poses fctx tag clauses σ n q α β) : Around clauses σ σ₁ α β := by
  have hbefore := Asked.stays hp h.onBlock_start fun p hq => entry_mem_newBlocks hq
  have hask : α.Stays [q.entry] β := ask_staying q α hbefore.onBlock _ β hp.run
  have hafter : β.Stays _ σ₁ := askAll_staying _ β hask.onBlock _ σ₁ (hp.rest h.asked)
  refine ⟨hbefore, hask.weaken fun j hj => ?_, hafter.weaken fun j hj => ?_,
    hbefore.code.bounded (fun j hj => lt_start hj) fun i j hedge => ?_⟩
  · exact List.mem_singleton.mp hj ▸ entry_mem_newBlocks (List.mem_of_getElem? hp.get)
  · obtain ⟨p, hp', rfl⟩ := List.mem_map.mp hj
    exact entry_mem_newBlocks (List.mem_of_mem_drop hp')
  · show j.index < (σ.builder.withBlocks clauses.length).size
    rw [Builder.size_withBlocks]
    exact Nat.lt_add_right _ (h.bounded i j (Builder.edge_withBlocks.mp hedge))

namespace Around

theorem not_mem (h : Around clauses σ σ₁ α β) (hj : α.builder.size ≤ j.index) :
    j ∉ σ.builder.newBlocks clauses.length := fun hmem =>
  absurd (lt_start hmem) (Nat.not_lt.mpr (Nat.le_trans h.before.code.size hj))

theorem size (h : Around clauses σ σ₁ α β) : σ.builder.size ≤ α.builder.size := by
  refine Nat.le_trans ?_ h.before.code.size
  show σ.builder.size ≤ (σ.builder.withBlocks clauses.length).size
  rw [Builder.size_withBlocks]
  exact Nat.le_add_right _ _

end Around

theorem ends_of_asked (h : Chosen fctx tag clauses f lasts σ σ₁ σ₂) (ha : Around clauses σ σ₁ α β)
    {t : Terminator} (ht : β.builder.Ends i t) : f.Ends i t := by
  exact h.ends i t ((apart_asked h.selected).le.ends (ha.after.code.le.ends ht))

theorem edge_entry (h : Chosen fctx tag clauses f lasts σ σ₁ σ₂)
    (hj : j ∈ σ.builder.newBlocks clauses.length) : f.Edge i j ↔
      ∃ n q α β, Poses fctx tag clauses σ n q α β ∧ q.entry = j ∧ q.LeadsFrom fctx α i := by
  have hlo := (Builder.mem_newBlocks.mp hj).1
  have hhi : j.index < σ₁.builder.size :=
    Nat.lt_of_lt_of_le (lt_start hj) h.selected.asked_stays.code.size
  have hold : ¬ (selectStart clauses σ).builder.Edge i j := fun hedge =>
    h.bounded.not_edge hlo (Builder.edge_withBlocks.mp hedge)
  rw [h.edges i j hlo hhi, edge_askAll h.onBlock_start h.asked (lt_start hj)]
  exact or_iff_right hold

section Later

variable {m : Nat} {q' : Question} {α' β' : FnState}

theorem between (h : Chosen fctx tag clauses f lasts σ σ₁ σ₂)
    (hp : Poses fctx tag clauses σ n q α β) (hp' : Poses fctx tag clauses σ m q' α' β')
    (hlt : n < m) : β.Stays (σ.builder.newBlocks clauses.length) α' := by
  obtain ⟨d, rfl⟩ := Nat.exists_eq_add_of_le hlt
  exact (hp.further hp').stays (h.around hp).ask.onBlock fun p hp =>
    entry_mem_newBlocks (List.mem_of_mem_drop hp)

theorem not_leadsFrom (h : Chosen fctx tag clauses f lasts σ σ₁ σ₂)
    (hp : Poses fctx tag clauses σ n q α β) (hp' : Poses fctx tag clauses σ m q' α' β')
    (hlt : n < m) (hleads : q.LeadsFrom fctx α i) : ¬ q'.LeadsFrom fctx α' i := by
  intro hleads'
  have hbetween := h.between hp hp' hlt
  obtain ⟨-, t, hends⟩ := leadsFrom_sealed (h.around hp).before.onBlock hp.run hleads
  obtain ⟨⟨γ, hle, hopen⟩, -⟩ := leadsFrom_sealed hbetween.onBlock hp'.run hleads'
  exact hopen.not_ends t ((hbetween.code.le.trans hle).ends hends)

/-- From a later question on, nothing leads to what is made after a default clause but what is made
there too. -/
theorem edge_after_default (h : Chosen fctx tag clauses f lasts σ σ₁ σ₂)
    (hp : Poses fctx tag clauses σ n (.default k) α β) (hlo : β.builder.size ≤ j.index)
    (hhi : j.index < σ₁.builder.size) (hedge : f.Edge i j) :
    β.builder.size ≤ i.index ∧ i.index < σ₁.builder.size := by
  have ha := h.around hp
  obtain ⟨hcursor, hends⟩ := ends_default ha.before.onBlock hp.run
  have hold : ¬ β.builder.Edge i j := (ha.ask.code.bounded (fun j hj =>
    Nat.lt_of_lt_of_le (lt_start hj) ha.before.code.size) ha.bounded).not_edge hlo
  have hedge₁ : σ₁.builder.Edge i j :=
    (h.edges i j (Nat.le_trans ha.size (Nat.le_trans ha.ask.code.size hlo)) hhi).mp hedge
  obtain ⟨hown, hopen⟩ := ha.after.code.own_of_edge hedge₁ hold
  obtain ⟨blk, hblk, -⟩ := hedge₁
  refine ⟨hown.resolve_left ?_, Builder.lt_size hblk⟩
  rintro rfl
  rw [← hcursor] at hends
  exact (hopen ha.ask.onBlock).not_ends _ hends

theorem not_reached (h : Chosen fctx tag clauses f lasts σ σ₁ σ₂)
    (hp : Poses fctx tag clauses σ n (.default k) α β) (hlo : β.builder.size ≤ j.index)
    (hhi : j.index < σ₁.builder.size) : ¬ ReflTransGen f.Edge ⟨0⟩ j := by
  intro hpath
  induction hpath with
  | refl =>
    have ha := h.around hp
    exact absurd ha.ask.onBlock (Nat.not_lt.mpr (Nat.le_trans hlo (Nat.zero_le _)))
  | tail _ hedge ih =>
    obtain ⟨hlo', hhi'⟩ := h.edge_after_default hp hlo hhi hedge
    exact ih hlo' hhi'

theorem own_later (h : Chosen fctx tag clauses f lasts σ σ₁ σ₂)
    (hp : Poses fctx tag clauses σ n (.default k) α β) (hp' : Poses fctx tag clauses σ m q' α' β')
    (hlt : n < m) (hown : α'.reopened.builder.Own j) : β.builder.size ≤ j.index := by
  have ha := h.around hp
  have hbetween := h.between hp hp' hlt
  have hreopened := hbetween.trans ((FnState.stays_reopened hbetween.onBlock).weaken (by simp))
  obtain ⟨hcursor, hends⟩ := ends_default ha.before.onBlock hp.run
  rcases hown with rfl | hge
  · refine hreopened.code.moves.resolve_left fun heq => ?_
    have hopen : α'.reopened.builder.Open α'.reopened.builder.cursor :=
      Builder.open_opened hbetween.onBlock
    rw [heq, hcursor] at hopen
    exact hopen.not_ends _ (hreopened.code.le.ends hends)
  · exact Nat.le_trans hreopened.code.size hge

end Later

theorem test_succeeds (h : Chosen fctx tag clauses f lasts σ σ₁ σ₂) {query : Query}
    {entry : BlockId} {cond : Value} {γ : FnState}
    (hp : Poses fctx tag clauses σ n (.test query entry) α β)
    (hs : query.Succeeds fctx α.reopened cond γ) :
    f.Ends γ.builder.cursor (.condBr cond entry ⟨γ.builder.size⟩) ∧
      (∀ i, f.Edge i ⟨γ.builder.size⟩ ↔ i = γ.builder.cursor) ∧
        β.builder.cursor = ⟨γ.builder.size⟩ ∧ β.builder.Open ⟨γ.builder.size⟩ := by
  have ha := h.around hp
  have hc := ha.before.onBlock
  obtain ⟨r, σ₁', hquery, hflows, rfl⟩ := ask_test_stages hc hp.run
  obtain ⟨hr, rfl⟩ := Prod.mk.inj (hquery.symm.trans (succeeds_iff.mp hs))
  obtain rfl := Except.ok.inj hr
  have hopen := hflows.opened (Builder.open_opened hc)
  have hsize : α.builder.size ≤ σ₁'.builder.size :=
    Nat.le_trans (FnState.stays_reopened hc).code.size hflows.code.size
  have hbounded : σ₁'.builder.Bounded :=
    hflows.code.bounded (by simp) ((FnState.stays_reopened hc).code.bounded (by simp) ha.bounded)
  have hnew : (branched entry σ₁' cond).builder.Open ⟨σ₁'.builder.size⟩ :=
    (branched_flows hopen cond entry).2
  refine ⟨h.ends_of_asked ha (ends_branched hopen), fun i => ?_, rfl, hnew⟩
  rw [h.edges i ⟨σ₁'.builder.size⟩ (Nat.le_trans ha.size hsize)
      (Nat.lt_of_lt_of_le hnew.lt_size ha.after.code.size),
    ha.after.code.edge_iff hnew.lt_size (ha.not_mem hsize)]
  have hold : ¬ σ₁'.builder.Edge i ⟨σ₁'.builder.size⟩ := hbounded.not_edge (Nat.le_refl _)
  refine (edge_branched hopen).trans ((or_iff_right hold).trans ?_)
  exact and_iff_left (.inr rfl)

theorem test_fails (h : Chosen fctx tag clauses f lasts σ σ₁ σ₂) {query : Query} {entry : BlockId}
    (hp : Poses fctx tag clauses σ n (.test query entry) α β)
    (hs : ¬ ∃ cond γ, query.Succeeds fctx α.reopened cond γ) :
    runOn (query.lower fctx) α.reopened = (.ok none, β) ∧ β.builder.Open β.builder.cursor := by
  have hc := (h.around hp).before.onBlock
  obtain ⟨r, γ, hquery, hflows, rfl⟩ := ask_test_stages hc hp.run
  cases r with
  | none => exact ⟨hquery, hflows.opened (Builder.open_opened hc)⟩
  | some cond => exact absurd ⟨cond, γ, succeeds_iff.mpr hquery⟩ hs

theorem edge_default (h : Chosen fctx tag clauses f lasts σ σ₁ σ₂) {entry : BlockId}
    (hp : Poses fctx tag clauses σ n (.default entry) α β) :
    f.Edge i entry ↔ i = α.reopened.builder.cursor := by
  have hmem : entry ∈ σ.builder.newBlocks clauses.length :=
    entry_mem_newBlocks (List.mem_of_getElem? hp.get)
  rw [h.edge_entry hmem]
  refine ⟨?_, fun hi => ⟨n, _, α, β, hp, rfl, hi⟩⟩
  rintro ⟨m, q, α', β', hp', hentry, hleads⟩
  have hone := length_filter_default (List.mem_of_getElem? hp.get)
  have hle : ¬ 2 ≤ 1 := by decide
  rcases Nat.lt_trichotomy n m with hlt | rfl | hlt
  · exact absurd (hone ▸ two_le_length_filter hp.get hp'.get (decide_eq_true rfl)
      (decide_eq_true hentry) hlt) hle
  · obtain ⟨rfl, rfl, -⟩ := hp.functional hp'
    exact hleads
  · exact absurd (hone ▸ two_le_length_filter hp'.get hp.get (decide_eq_true hentry)
      (decide_eq_true rfl) hlt) hle

theorem not_entered (h : Chosen fctx tag clauses f lasts σ σ₁ σ₂)
    (hj : j ∈ σ.builder.newBlocks clauses.length)
    (hnever : ∀ n q α β, Poses fctx tag clauses σ n q α β → q.entry = j →
      ∀ i, ¬ q.LeadsFrom fctx α i) : ¬ ReflTransGen f.Edge ⟨0⟩ j := by
  intro hpath
  rcases hpath.cases_tail with rfl | ⟨i, -, hedge⟩
  · exact absurd h.opened.lt_size (Nat.not_lt.mpr
      (Nat.le_trans (Builder.mem_newBlocks.mp hj).1 (Nat.zero_le _)))
  · obtain ⟨n, q, α, β, hp, hentry, hleads⟩ := (h.edge_entry hj).mp hedge
    exact hnever n q α β hp hentry i hleads

theorem ends_last (h : Chosen fctx tag clauses f lasts σ σ₁ σ₂)
    (hopen : σ₁.builder.Open σ₁.builder.cursor) :
    f.Ends σ₁.builder.cursor (.br (afterSelect lasts σ₁ σ₂).builder.cursor) := by
  have hsite := h.selected.site
  refine h.ends _ _ (Builder.ends_joined hsite.nodup (fun i hi =>
    Builder.open_withBlock.mpr (.inr (hsite.opened i hi))) ?_)
  rw [Draft.endsOf_cons, Builder.openEnd_of_open hopen]
  exact List.mem_cons_self

theorem dispatch (h : Chosen fctx tag clauses f lasts σ σ₁ σ₂) :
    Dispatch fctx tag clauses f lasts σ σ₁ σ₂ (afterSelect lasts σ₁ σ₂) where
  asked := h.selected.asked
  posed n q hn := Asked.exists_of_run h.asked hn
  own clause entry hp := filter_entered hp
  entryEdges clause entry hp i := h.edge_entry (List.of_mem_zip hp).2
  once n q α β m q' α' β' i hp hp' hleads hleads' := by
    rcases Nat.lt_trichotomy n m with hlt | heq | hlt
    · exact absurd hleads' (h.not_leadsFrom hp hp' hlt hleads)
    · exact heq
    · exact absurd hleads (h.not_leadsFrom hp' hp hlt hleads')
  test n query entry α β cond γ hp hs := h.test_succeeds hp hs
  failed n query entry α β hp hs := h.test_fails hp hs
  anyOf n values entry α β hp := by
    obtain ⟨r, γ, hquery, -⟩ := ask_test_stages (h.around hp).before.onBlock hp.run
    have hiff := anyOf_isSome hquery
    rw [Option.isSome_none, Bool.false_eq_true, false_or] at hiff
    refine ⟨?_, fun hany => ?_⟩
    · rintro ⟨cond, γ', hs⟩
      obtain ⟨hr, -⟩ := Prod.mk.inj (hquery.symm.trans hs)
      exact hiff.mp (Except.ok.inj hr ▸ rfl)
    · obtain ⟨cond, rfl⟩ := Option.isSome_iff_exists.mp (hiff.mpr hany)
      exact ⟨cond, γ, hquery⟩
  default n entry α β hp := by
    have ha := h.around hp
    exact ⟨h.ends_of_asked ha (ends_default ha.before.onBlock hp.run).2, fun i => h.edge_default hp⟩
  after n entry α β m q' α' β' k hp hlt hp' hown hk :=
    h.not_reached hp (h.own_later hp hp' hlt hown)
      (Nat.lt_of_lt_of_le hk (h.around hp').after.code.size)
  unused clause entry hp hnever := h.not_entered (List.of_mem_zip hp).2 hnever
  next n q α β q' α' β' hp hp' := (hp.further (m := 0) hp').start
  final n q α β hp hlast := by
    have hrest := hp.rest h.asked
    rw [hlast, List.drop_length] at hrest
    exact (Prod.mk.inj hrest).2
  last hopen := h.ends_last hopen
  bodies := h.selected.filled

end Chosen

/-- In a finished function, wherever the switch stands in it and whatever is within it: if the tag,
if there is one, was lowered without an error, the switch goes to its clauses through its own tests.
-/
theorem lower_dispatch (hrun : runOn (Pass.function ctx decl span) s = (.ok (some f), s'))
    {rest : List Stmt} (hvisits : Visits ctx decl s fctx (.switch m init test clauses :: rest) σ₀)
    (htag : Tags fctx init test σ₀ tag σ) : ∃ lasts σ₁ σ₂ υ,
      runOn (Stmt.lower fctx (.switch m init test clauses)) σ₀ = (.ok (), υ) ∧
        Dispatch fctx tag clauses f lasts σ σ₁ σ₂ υ := by
  obtain ⟨υ, hplaced⟩ := hvisits.placed hrun
  obtain ⟨lasts, σ₁, σ₂, hchosen, rfl⟩ := hplaced.chosen htag
  exact ⟨lasts, σ₁, σ₂, _, hplaced.run, hchosen.dispatch⟩

/-- The first value is not declared, and the default clause stands before the last one. -/
def chooserClauses : List Clause :=
  [.mk [.ident default "x"] [] .empty, .mk [] [] .empty, .mk [flag] [] .empty]

def chooser : Stmt := .switch default none (some flag) chooserClauses

/-- The first clause is not reached, the default clause is entered from the first block, and the
value after it, which is tested in block 4, is not reached either. -/
theorem lower_dispatch_chooser :
    ∃ f s', runOn (Pass.function flagContext (flagDecl chooser) .empty) flagSession =
      (.ok (some f), s') ∧ ¬ ReflTransGen f.Edge ⟨0⟩ ⟨1⟩ ∧ (∀ i, f.Edge i ⟨2⟩ ↔ i = ⟨0⟩) ∧
        ¬ ReflTransGen f.Edge ⟨0⟩ ⟨4⟩ := by
  let v : Value := .ofLocal ⟨0⟩ ⟨0⟩
  let start := (runOn (switchTag flagScope (some flag)) flagStart.reopened).2
  let first : Question := .test (.value v (.ident default "x")) ⟨1⟩
  let last : Question := .test (.value v flag) ⟨3⟩
  let σ₁ := (runOn (first.ask flagScope) (selectStart chooserClauses start)).2
  let σ₂ := (runOn (Question.ask flagScope (.default ⟨2⟩)) σ₁).2
  have hfound : (runOn (Pass.function flagContext (flagDecl chooser) .empty)
      flagSession).1.toOption.any Option.isSome = true := by decide +kernel
  obtain ⟨f, s', hrun⟩ := exists_function hfound
  have htag : Tags flagScope none (some flag) flagStart (some v) start :=
    ⟨flagStart, rfl, runOn_of_toOption (by decide +kernel)⟩
  obtain ⟨lasts, τ₁, τ₂, υ, -, hdispatch⟩ := lower_dispatch hrun (flag_visits .here) htag
  have hsize : start.builder.size = 1 := by decide +kernel
  have hentered : entered chooserClauses start = chooserClauses.zip [⟨1⟩, ⟨2⟩, ⟨3⟩] := by
    rw [entered, Builder.newBlocks, hsize]
    rfl
  have hquestions : questions (some v) (entered chooserClauses start) =
      [first, .default ⟨2⟩, last] := by
    rw [hentered]
    rfl
  obtain ⟨α₀, β₀, hp₀⟩ := hdispatch.posed 0 first (by rw [hquestions]; rfl)
  obtain ⟨α₁, β₁, hp₁⟩ := hdispatch.posed 1 (.default ⟨2⟩) (by rw [hquestions]; rfl)
  obtain ⟨α₂, β₂, hp₂⟩ := hdispatch.posed 2 last (by rw [hquestions]; rfl)
  have hα₁ : α₁ = σ₁ := by
    rw [hdispatch.next 0 _ _ _ _ _ _ hp₀ hp₁]
    exact congrArg Prod.snd (hp₀.start ▸ hp₀.run).symm
  have hα₂ : α₂ = σ₂ := by
    rw [hdispatch.next 1 _ _ _ _ _ _ hp₁ hp₂]
    exact congrArg Prod.snd (hα₁ ▸ hp₁.run).symm
  have hβ₂ : β₂ = (runOn (last.ask flagScope) σ₂).2 := congrArg Prod.snd (hα₂ ▸ hp₂.run).symm
  have hfails : (runOn (Expr.lower flagScope (.ident default "x"))
      (selectStart chooserClauses start).reopened).1.toOption.isSome = false := by decide +kernel
  have hfrom : σ₁.reopened.builder.cursor = ⟨0⟩ := by decide +kernel
  have hlater : σ₂.reopened.builder.cursor = ⟨4⟩ := by decide +kernel
  have hmade : 4 < (runOn (last.ask flagScope) σ₂).2.builder.size := by decide +kernel
  refine ⟨f, s', hrun, ?_, fun i => ?_, ?_⟩
  · refine hdispatch.unused (.mk [.ident default "x"] [] .empty) ⟨1⟩ ?_
      fun n q α β hp hentry i => ?_
    · rw [hentered]
      exact List.mem_cons_self
    · have hget := hp.get
      rw [hquestions] at hget
      rcases n with _ | _ | _ | n
      · obtain rfl := Option.some.inj hget
        rintro ⟨cond, τ, ⟨w, μ, hlower, -⟩, -⟩
        rw [← hp.start, hlower] at hfails
        cases hfails
      · obtain rfl := Option.some.inj hget
        cases hentry
      · obtain rfl := Option.some.inj hget
        cases hentry
      · cases hget
  · rw [(hdispatch.default 1 ⟨2⟩ α₁ β₁ hp₁).2, hα₁, hfrom]
  · refine hdispatch.after 1 ⟨2⟩ α₁ β₁ 2 last α₂ β₂ ⟨4⟩ hp₁ (by decide) hp₂ ?_ (hβ₂ ▸ hmade)
    rw [hα₂]
    exact .inl hlater.symm

end Chosen

end Pass

end Midend
