import Midend.Proofs.LinkExpr
import Midend.Proofs.Loop
import Midend.Proofs.Switch

/-!
# Midend.Proofs.LinkStmt

Lowering a statement in two runs (`Stmt.lower_agrees`). An error in a part of a statement is
reported in both runs or in neither, so they build the same blocks and end them in the same way.
-/

namespace Midend

open Ir Ir.TypeStore

variable {L : Link} {ctx ctx' : FnContext} {σ σ' τ τ' : FnState}

namespace Lower

section

variable (h : L.Paired σ σ')

include h

theorem ensureOpen_agrees :
    Agrees L (build Build.ensureOpen) (build Build.ensureOpen) σ σ' fun _ _ => L.block :=
  .build h L.ensureOpen

theorem createBlock_agrees :
    Agrees L (build Build.createBlock) (build Build.createBlock) σ σ' fun _ _ => L.block :=
  .build h L.createBlock

theorem switchTo_agrees {k k' : BlockId} (hk : L.block k k') :
    Agrees L (build (Build.switchTo k)) (build (Build.switchTo k')) σ σ' fun _ _ _ _ => True :=
  .build h (L.switchTo hk)

theorem terminate_agrees {e e' : Terminator}
    (he : e.Matches (L.Value σ.types σ'.types) L.block e') :
    Agrees L (build (Build.terminate e)) (build (Build.terminate e')) σ σ' fun _ _ _ _ => True :=
  .build h (L.terminate he)

theorem terminateIfOpen_agrees {e e' : Terminator}
    (he : e.Matches (L.Value σ.types σ'.types) L.block e') :
    Agrees L (build (Build.terminateIfOpen e)) (build (Build.terminateIfOpen e')) σ σ'
      fun _ _ _ _ => True :=
  .build h (L.terminateIfOpen he)

theorem terminateBlock_agrees {k k' : BlockId} {e e' : Terminator} (hk : L.block k k')
    (he : e.Matches (L.Value σ.types σ'.types) L.block e') :
    Agrees L (build (Build.terminateBlock k e)) (build (Build.terminateBlock k' e')) σ σ'
      fun _ _ _ _ => True :=
  .build h (L.terminateBlock hk he)

theorem sealed_agrees {e e' : Terminator} (he : e.Matches (L.Value σ.types σ'.types) L.block e') :
    Agrees L (do let _ ← build (Build.terminateIfOpen e))
      (do let _ ← build (Build.terminateIfOpen e')) σ σ' fun _ _ _ _ => True :=
  (terminateIfOpen_agrees h he).bind fun _ _ _ _ hon _ => .pure hon.paired trivial

theorem branchOrNext_agrees {v v' : Value} (hv : L.Value σ.types σ'.types v v') {k k' : BlockId}
    (hk : L.block k k') :
    Agrees L (branchOrNext v k) (branchOrNext v' k') σ σ' fun _ _ _ _ => True := by
  refine (createBlock_agrees h).bind fun j j' τ₁ τ₁' hon₁ hj => ?_
  refine (ensureOpen_agrees hon₁.paired).bind fun _ _ τ₂ τ₂' hon₂ _ => ?_
  refine (terminate_agrees hon₂.paired (.condBr ((hon₁.trans hon₂).value h hv) hk hj)).bind
    fun _ _ τ₃ τ₃' hon₃ _ => ?_
  exact switchTo_agrees hon₃.paired hj

theorem disjunction_agrees {l l' r r' : Value} (hl : L.Value σ.types σ'.types l l')
    (hr : L.Value σ.types σ'.types r r') :
    Agrees L (disjunction l r) (disjunction l' r') σ σ' L.Value := by
  have hiff := h.twin.eq_iff hl.type hr.type
  unfold disjunction
  by_cases heq : l.type = r.type
  · rw [if_pos heq, if_pos (hiff.mp heq)]
    exact push_agrees h hl.type (.binary _ hl hr)
  · rw [if_neg heq, if_neg (mt hiff.mpr heq)]
    refine (Agrees.typing h (Typing.bool_agrees h.twin)).bind fun i j τ τ' hon hij => ?_
    exact push_agrees hon.paired hij (.binary _ (hon.value h hl) (hon.value h hr))

theorem createEntries_agrees (clauses : List Clause) :
    Agrees L (createEntries clauses) (createEntries clauses) σ σ' fun _ _ =>
      List.Forall₂ L.block := by
  induction clauses generalizing σ σ' with
  | nil => exact .pure h .nil
  | cons clause rest ih =>
    refine (createBlock_agrees h).bind fun k k' τ₁ τ₁' hon₁ hk => ?_
    refine (ih hon₁.paired).bind fun ks ks' τ₂ τ₂' hon₂ hks => ?_
    exact .pure hon₂.paired (.cons hk hks)

theorem packed_agrees {vs vs' : List Value} (hvs : List.Forall₂ (L.Value σ.types σ'.types) vs vs') :
    Agrees L (packed vs) (packed vs') σ σ' L.Value := by
  have htypes : List.Forall₂ (Alike σ.types σ'.types) (vs.map Value.type) (vs'.map Value.type) :=
    List.forall₂_map_left_iff.mpr (List.forall₂_map_right_iff.mpr (hvs.imp fun _ _ hv => hv.type))
  refine (Agrees.typing h (Typing.struct_agrees h.twin htypes)).bind fun i j τ τ' hon hij => ?_
  exact push_agrees hon.paired hij (.aggregate (hon.values h hvs))

theorem returnValue_agrees (span : Span) {v v' : Value} (hv : L.Value σ.types σ'.types v v') :
    Agrees L (returnValue span v) (returnValue span v') σ σ' fun _ _ _ _ => True := by
  have hret := L.ret h.builder
  refine .get_bind h ?_
  refine (body_agrees h hret).bind fun a b τ τ' hon hm => ?_
  have hp := hon.paired
  have hvoid : (v.operand == .const .void) = (v'.operand == .const .void) := by
    rw [Bool.eq_iff_iff, beq_iff_eq, beq_iff_eq]
    exact L.void _ _ hv.operand
  have hiff := h.twin.eq_iff hv.type hret
  rw [← hm.isVoid, hvoid]
  split
  · exact sealed_agrees hp .retNone
  by_cases heq : v.type = σ.builder.ret
  · rw [if_pos heq, if_pos (hiff.mp heq)]
    exact sealed_agrees hp (.retSome (hon.value h hv))
  · rw [if_neg heq, if_neg (mt hiff.mpr heq)]
    refine (ref_agrees hp (hon.alike h hret)).bind fun text _ τ₁ τ₁' hon₁ htext => ?_
    obtain rfl := htext
    refine (ref_agrees hon₁.paired ((hon.trans hon₁).alike h hv.type)).bind
      fun text' _ τ₂ τ₂' hon₂ htext' => ?_
    obtain rfl := htext'
    refine (Agrees.report hon₂.paired _).bind fun _ _ τ₃ τ₃' hon₃ _ => ?_
    exact sealed_agrees hon₃.paired .unreachable

variable (hc : SameContext L σ.types σ'.types ctx ctx')

include hc

theorem condition_agrees (e : Expr) :
    Agrees L (condition ctx e) (condition ctx' e) σ σ' fun s t => Option.Rel (L.Value s t) := by
  refine (e.lower_agrees h hc).recover.bind fun o o' τ τ' hon ho => ?_
  cases ho with
  | none => exact .pure hon.paired .none
  | some hv =>
    refine (expectBool_agrees hon.paired hv e.span).recover.bind fun o o' υ υ' hon' ho => ?_
    cases ho with
    | none => exact .pure hon'.paired .none
    | some => exact .pure hon'.paired (.some (hon'.value hon.paired hv))

theorem testValue_agrees {v v' : Value} (hv : L.Value σ.types σ'.types v v') {k k' : BlockId}
    (hk : L.block k k') (e : Expr) :
    Agrees L (testValue ctx v k e) (testValue ctx' v' k' e) σ σ' fun _ _ _ _ => True := by
  refine (ensureOpen_agrees h).bind fun _ _ τ₁ τ₁' hon₁ _ => ?_
  refine (e.lower_agrees hon₁.paired (hc.onward h hon₁)).recover.bind fun o o' τ₂ τ₂' hon₂ ho => ?_
  cases ho with
  | none => exact .pure hon₂.paired trivial
  | some hw =>
    refine (equal_agrees hon₂.paired ((hon₁.trans hon₂).value h hv) hw e.span).recover.bind
      fun o o' τ₃ τ₃' hon₃ ho => ?_
    cases ho with
    | none => exact .pure hon₃.paired trivial
    | some hcond => exact branchOrNext_agrees hon₃.paired hcond hk

theorem testValues_agrees {v v' : Value} (hv : L.Value σ.types σ'.types v v') {k k' : BlockId}
    (hk : L.block k k') (es : List Expr) :
    Agrees L (testValues ctx v k es) (testValues ctx' v' k' es) σ σ' fun _ _ _ _ => True := by
  induction es generalizing σ σ' with
  | nil => exact .pure h trivial
  | cons e es ih =>
    refine (testValue_agrees h hc hv hk e).bind fun _ _ τ τ' hon _ => ?_
    exact ih hon.paired (hc.onward h hon) (hon.value h hv)

theorem anyOf_agrees {o o' : Option Value} (ho : Option.Rel (L.Value σ.types σ'.types) o o')
    (es : List Expr) :
    Agrees L (anyOf ctx o es) (anyOf ctx' o' es) σ σ' fun s t => Option.Rel (L.Value s t) := by
  induction es generalizing σ σ' o o' with
  | nil => exact .pure h ho
  | cons e es ih =>
    refine (condition_agrees h hc e).bind fun c c' τ τ' hon hcond => ?_
    have hc := hc.onward h hon
    cases hcond with
    | none => exact ih hon.paired hc (ho.imp fun _ _ hv => hon.value h hv)
    | some hcond =>
      cases ho with
      | none => exact ih hon.paired hc (.some hcond)
      | some hv =>
        refine (disjunction_agrees hon.paired (hon.value h hv) hcond).bind
          fun w w' υ υ' hon' hw => ?_
        exact ih hon'.paired (hc.onward hon.paired hon') (.some hw)

theorem testConditions_agrees {k k' : BlockId} (hk : L.block k k') (es : List Expr) :
    Agrees L (testConditions ctx k es) (testConditions ctx' k' es) σ σ' fun _ _ _ _ => True := by
  refine (ensureOpen_agrees h).bind fun _ _ τ₁ τ₁' hon₁ _ => ?_
  refine (anyOf_agrees hon₁.paired (hc.onward h hon₁) .none es).bind fun o o' τ₂ τ₂' hon₂ ho => ?_
  cases ho with
  | none => exact .pure hon₂.paired trivial
  | some hcond => exact branchOrNext_agrees hon₂.paired hcond hk

theorem testClauses_agrees {tag tag' : Option Value}
    (htag : Option.Rel (L.Value σ.types σ'.types) tag tag') (clauses : List Clause)
    {ks ks' : List BlockId} (hks : List.Forall₂ L.block ks ks') :
    Agrees L (testClauses ctx tag (clauses.zip ks)) (testClauses ctx' tag' (clauses.zip ks')) σ σ'
      fun _ _ _ _ => True := by
  induction clauses generalizing σ σ' ks ks' with
  | nil => exact .pure h trivial
  | cons clause rest ih =>
    cases hks with
    | nil => exact .pure h trivial
    | @cons k k' ks ks' hk hks =>
      have hrest : ∀ {τ τ'}, L.Onward σ σ' τ τ' →
          Agrees L (testClauses ctx tag (rest.zip ks)) (testClauses ctx' tag' (rest.zip ks')) τ τ'
            fun _ _ _ _ => True := fun hon =>
        ih hon.paired (hc.onward h hon) (htag.imp fun _ _ hv => hon.value h hv) hks
      simp only [List.zip_cons_cons, testClauses]
      split
      · refine (ensureOpen_agrees h).bind fun _ _ τ₁ τ₁' hon₁ _ => ?_
        refine (terminate_agrees hon₁.paired (.br hk)).bind fun _ _ τ₂ τ₂' hon₂ _ => ?_
        exact hrest (hon₁.trans hon₂)
      · cases htag with
        | some hv =>
          exact (testValues_agrees h hc hv hk clause.values).bind fun _ _ τ τ' hon _ => hrest hon
        | none =>
          exact (testConditions_agrees h hc hk clause.values).bind fun _ _ τ τ' hon _ => hrest hon

theorem results_agrees (es : List Expr) :
    Agrees L (results ctx es) (results ctx' es) σ σ' fun s t =>
      Option.Rel (List.Forall₂ (L.Value s t)) := by
  induction es generalizing σ σ' with
  | nil => exact .pure h (.some .nil)
  | cons e es ih =>
    refine (e.lower_agrees h hc).recover.bind fun o o' τ₁ τ₁' hon₁ ho => ?_
    cases ho with
    | none => exact .pure hon₁.paired .none
    | some hv =>
      refine (ih hon₁.paired (hc.onward h hon₁)).bind fun o o' τ₂ τ₂' hon₂ ho => ?_
      cases ho with
      | none => exact .pure hon₂.paired .none
      | some hvs => exact .pure hon₂.paired (.some (.cons (hon₂.value hon₁.paired hv) hvs))

theorem returnStmt_agrees (span : Span) (es : List Expr) :
    Agrees L (returnStmt ctx span es) (returnStmt ctx' span es) σ σ' fun _ _ _ _ => True := by
  refine (ensureOpen_agrees h).bind fun _ _ τ₁ τ₁' hon₁ _ => ?_
  refine (results_agrees hon₁.paired (hc.onward h hon₁) es).bind fun o o' τ₂ τ₂' hon₂ ho => ?_
  cases ho with
  | none => exact sealed_agrees hon₂.paired .unreachable
  | some hvs =>
    cases hvs with
    | nil =>
      refine .get_bind hon₂.paired ?_
      refine (body_agrees hon₂.paired (L.ret hon₂.paired.builder)).bind
        fun a b τ₃ τ₃' hon₃ hm => ?_
      rw [← hm.isVoid]
      split
      · exact sealed_agrees hon₃.paired .retNone
      · exact .throw hon₃.paired
    | cons hv hvs =>
      cases hvs with
      | nil => exact returnValue_agrees hon₂.paired span hv
      | cons hw hvs =>
        refine (packed_agrees hon₂.paired (.cons hv (.cons hw hvs))).bind
          fun p p' τ₃ τ₃' hon₃ hp => ?_
        exact returnValue_agrees hon₃.paired span hp

end

/-- The steps agree wherever the same can be named. -/
def AgreesIn {α β : Type} (L : Link) (ctx ctx' : FnContext) (m : Lower α) (m' : Lower β)
    (Q : TypeStore → TypeStore → α → β → Prop) : Prop :=
  ∀ ⦃σ σ' : FnState⦄, L.Paired σ σ' → SameContext L σ.types σ'.types ctx ctx' →
    Agrees L m m' σ σ' Q

variable {m m' : Lower Unit}

theorem branch_agrees (h : L.Paired σ σ') (hc : SameContext L σ.types σ'.types ctx ctx')
    {v v' : Value} (hv : L.Value σ.types σ'.types v v')
    (hm : AgreesIn L ctx ctx' m m' fun _ _ _ _ => True)
    {other other' : Lower (Option (BlockId × Option BlockId))}
    (hother : AgreesIn L ctx ctx' other other' fun _ _ =>
      Option.Rel fun e e' => L.block e.1 e'.1 ∧ L.ending e.2 e'.2) :
    Agrees L (branch v m other) (branch v' m' other') σ σ' fun _ _ _ _ => True := by
  refine (ensureOpen_agrees h).bind fun e e' τ₁ τ₁' hon₁ he => ?_
  refine (createBlock_agrees hon₁.paired).bind fun k k' τ₂ τ₂' hon₂ hk => ?_
  refine (switchTo_agrees hon₂.paired hk).bind fun _ _ τ₃ τ₃' hon₃ _ => ?_
  have hon := (hon₁.trans hon₂).trans hon₃
  refine (hm hon.paired (hc.onward h hon)).bind fun _ _ τ₄ τ₄' hon₄ _ => ?_
  refine (openEnd_agrees hon₄.paired).bind fun x x' τ₅ τ₅' hon₅ hx => ?_
  have hon := (hon.trans hon₄).trans hon₅
  refine (hother hon.paired (hc.onward h hon)).bind fun o o' τ₆ τ₆' hon₆ ho => ?_
  refine (createBlock_agrees hon₆.paired).bind fun f f' τ₇ τ₇' hon₇ hf => ?_
  have hon := (hon.trans hon₆).trans hon₇
  cases ho with
  | none =>
    refine (joinAt_agrees hon.paired hf (.cons hx .nil)).bind fun _ _ τ₈ τ₈' hon₈ _ => ?_
    have hv := (hon.trans hon₈).value h hv
    refine (terminateBlock_agrees hon₈.paired he (.condBr hv hk hf)).bind
      fun _ _ τ₉ τ₉' hon₉ _ => ?_
    exact switchTo_agrees hon₉.paired hf
  | some hj =>
    refine (joinAt_agrees hon.paired hf (.cons hx (.cons hj.2 .nil))).bind
      fun _ _ τ₈ τ₈' hon₈ _ => ?_
    have hv := (hon.trans hon₈).value h hv
    refine (terminateBlock_agrees hon₈.paired he (.condBr hv hk hj.1)).bind
      fun _ _ τ₉ τ₉' hon₉ _ => ?_
    exact switchTo_agrees hon₉.paired hf

theorem loop_agrees (h : L.Paired σ σ') (hc : SameContext L σ.types σ'.types ctx ctx')
    {init init' body body' post post' : Lower Unit} {cond cond' : Lower (Option Value)}
    (hinit : AgreesIn L ctx ctx' init init' fun _ _ _ _ => True)
    (hcond : AgreesIn L ctx ctx' cond cond' fun s t => Option.Rel (L.Value s t))
    (hbody : AgreesIn L ctx ctx' body body' fun _ _ _ _ => True)
    (hpost : AgreesIn L ctx ctx' post post' fun _ _ _ _ => True) :
    Agrees L (loop init cond body post) (loop init' cond' body' post') σ σ'
      fun _ _ _ _ => True := by
  refine (createBlock_agrees h).bind fun i i' τ₁ τ₁' hon₁ hi => ?_
  refine (createBlock_agrees hon₁.paired).bind fun k k' τ₂ τ₂' hon₂ hk => ?_
  refine (createBlock_agrees hon₂.paired).bind fun b b' τ₃ τ₃' hon₃ hb => ?_
  refine (createBlock_agrees hon₃.paired).bind fun p p' τ₄ τ₄' hon₄ hp => ?_
  refine (createBlock_agrees hon₄.paired).bind fun f f' τ₅ τ₅' hon₅ hf => ?_
  have hon := (((hon₁.trans hon₂).trans hon₃).trans hon₄).trans hon₅
  refine (ensureOpen_agrees hon₅.paired).bind fun _ _ τ₆ τ₆' hon₆ _ => ?_
  refine (terminate_agrees hon₆.paired (.br hi)).bind fun _ _ τ₇ τ₇' hon₇ _ => ?_
  refine (switchTo_agrees hon₇.paired hi).bind fun _ _ τ₈ τ₈' hon₈ _ => ?_
  have hon := ((hon.trans hon₆).trans hon₇).trans hon₈
  refine (hinit hon.paired (hc.onward h hon)).bind fun _ _ υ₁ υ₁' up₁ _ => ?_
  refine (terminateIfOpen_agrees up₁.paired (.br hk)).bind fun _ _ υ₂ υ₂' up₂ _ => ?_
  refine (switchTo_agrees up₂.paired hk).bind fun _ _ υ₃ υ₃' up₃ _ => ?_
  have hon := ((hon.trans up₁).trans up₂).trans up₃
  refine (hcond hon.paired (hc.onward h hon)).bind fun o o' υ₄ υ₄' up₄ ho => ?_
  have hleave : (leaveLoop b f o).Matches (L.Value υ₄.types υ₄'.types) L.block
      (leaveLoop b' f' o') := by
    cases ho with
    | none => exact .br hb
    | some hv => exact .condBr hv hb hf
  refine (terminateIfOpen_agrees up₄.paired hleave).bind fun _ _ υ₅ υ₅' up₅ _ => ?_
  refine (switchTo_agrees up₅.paired hb).bind fun _ _ υ₆ υ₆' up₆ _ => ?_
  have hon := ((hon.trans up₄).trans up₅).trans up₆
  refine (hbody hon.paired (hc.onward h hon)).bind fun _ _ φ₁ φ₁' on₁ _ => ?_
  refine (terminateIfOpen_agrees on₁.paired (.br hp)).bind fun _ _ φ₂ φ₂' on₂ _ => ?_
  refine (switchTo_agrees on₂.paired hp).bind fun _ _ φ₃ φ₃' on₃ _ => ?_
  have hon := ((hon.trans on₁).trans on₂).trans on₃
  refine (hpost hon.paired (hc.onward h hon)).bind fun _ _ φ₄ φ₄' on₄ _ => ?_
  refine (terminateIfOpen_agrees on₄.paired (.br hk)).bind fun _ _ φ₅ φ₅' on₅ _ => ?_
  exact switchTo_agrees on₅.paired hf

theorem select_agrees (h : L.Paired σ σ') (hc : SameContext L σ.types σ'.types ctx ctx')
    {tag tag' : Option Value} (htag : Option.Rel (L.Value σ.types σ'.types) tag tag')
    (clauses : List Clause)
    (hclauses : ∀ {ks ks'}, List.Forall₂ L.block ks ks' → AgreesIn L ctx ctx'
      (Stmt.lowerClauses ctx clauses ks) (Stmt.lowerClauses ctx' clauses ks') fun _ _ =>
        List.Forall₂ L.ending) :
    Agrees L (select ctx tag clauses) (select ctx' tag' clauses) σ σ' fun _ _ _ _ => True := by
  refine (createEntries_agrees h clauses).bind fun ks ks' τ₁ τ₁' hon₁ hks => ?_
  have htag := htag.imp fun _ _ hv => hon₁.value h hv
  refine (testClauses_agrees hon₁.paired (hc.onward h hon₁) htag clauses hks).bind
    fun _ _ τ₂ τ₂' hon₂ _ => ?_
  refine (openEnd_agrees hon₂.paired).bind fun x x' τ₃ τ₃' hon₃ hx => ?_
  have hon := (hon₁.trans hon₂).trans hon₃
  refine (hclauses hks hon.paired (hc.onward h hon)).bind fun xs xs' τ₄ τ₄' hon₄ hxs => ?_
  refine (createBlock_agrees hon₄.paired).bind fun f f' τ₅ τ₅' hon₅ hf => ?_
  refine (joinAt_agrees hon₅.paired hf (.cons hx hxs)).bind fun _ _ τ₆ τ₆' hon₆ _ => ?_
  exact switchTo_agrees hon₆.paired hf

end Lower

/-! ## Statements -/

namespace Stmt

open Lower

mutual

theorem lower_agrees (st : Stmt) {σ σ' : FnState} (h : L.Paired σ σ')
    (hc : SameContext L σ.types σ'.types ctx ctx') :
    Agrees L (st.lower ctx) (st.lower ctx') σ σ' fun _ _ _ _ => True := by
  cases st with
  | block m body =>
    rw [lower, lower]
    exact lowerAll_agrees body h hc
  | empty m =>
    rw [lower, lower]
    exact .pure h trivial
  | expr m e =>
    rw [lower, lower]
    refine (ensureOpen_agrees h).bind fun _ _ τ₁ τ₁' hon₁ _ => ?_
    refine (e.lower_agrees hon₁.paired (hc.onward h hon₁)).recover.bind fun _ _ τ₂ τ₂' hon₂ _ => ?_
    exact .pure hon₂.paired trivial
  | ret m results =>
    rw [lower, lower]
    exact returnStmt_agrees h hc m.span results
  | ifElse m init cond thenBranch elseBranch =>
    rw [lower, lower]
    refine (lowerOption_agrees init h hc).bind fun _ _ τ₁ τ₁' hon₁ _ => ?_
    refine (ensureOpen_agrees hon₁.paired).bind fun _ _ τ₂ τ₂' hon₂ _ => ?_
    have hon := hon₁.trans hon₂
    refine (condition_agrees hon.paired (hc.onward h hon) cond).bind
      fun c c' τ₃ τ₃' hon₃ hcond => ?_
    have hon := hon.trans hon₃
    cases hcond with
    | none => exact .pure hon₃.paired trivial
    | some hv =>
      exact branch_agrees hon₃.paired (hc.onward h hon) hv
        (fun _ _ h hc => lower_agrees thenBranch h hc)
        fun _ _ h hc => lowerElse_agrees elseBranch h hc
  | loop m init cond post body =>
    rw [lower, lower]
    have hinit : AgreesIn L ctx ctx' (lowerOption ctx init) (lowerOption ctx' init)
        fun _ _ _ _ => True := fun _ _ h hc => lowerOption_agrees init h hc
    have hpost : AgreesIn L ctx ctx' (lowerOption ctx post) (lowerOption ctx' post)
        fun _ _ _ _ => True := fun _ _ h hc => lowerOption_agrees post h hc
    have hbody : AgreesIn L ctx ctx' (body.lower ctx) (body.lower ctx')
        fun _ _ _ _ => True := fun _ _ h hc => lower_agrees body h hc
    cases cond with
    | none => exact loop_agrees h hc hinit (fun _ _ h _ => .pure h .none) hbody hpost
    | some cond =>
      exact loop_agrees h hc hinit (fun _ _ h hc => condition_agrees h hc cond) hbody hpost
  | switch m init tag clauses =>
    rw [lower, lower]
    refine (lowerOption_agrees init h hc).bind fun _ _ τ₁ τ₁' hon₁ _ => ?_
    refine (ensureOpen_agrees hon₁.paired).bind fun _ _ τ₂ τ₂' hon₂ _ => ?_
    have hon := hon₁.trans hon₂
    have hselect : ∀ {υ υ'} {v v' : Option Value}, L.Onward σ σ' υ υ' →
        Option.Rel (L.Value υ.types υ'.types) v v' →
        Agrees L (select ctx v clauses) (select ctx' v' clauses) υ υ' fun _ _ _ _ => True :=
      fun up hv => select_agrees up.paired (hc.onward h up) hv clauses
        fun hks _ _ h hc => lowerClauses_agrees clauses h hc hks
    cases tag with
    | none => exact hselect hon .none
    | some tag =>
      refine (tag.lower_agrees hon.paired (hc.onward h hon)).recover.bind
        fun o o' υ υ' up ho => ?_
      cases ho with
      | none => exact .pure up.paired trivial
      | some hv => exact hselect (hon.trans up) (.some hv)
  | assign | incDec | jump | varDecl | labeled | defer | go | range =>
    rw [lower, lower]
    exact .throw h

theorem lowerAll_agrees (body : List Stmt) {σ σ' : FnState} (h : L.Paired σ σ')
    (hc : SameContext L σ.types σ'.types ctx ctx') :
    Agrees L (lowerAll ctx body) (lowerAll ctx' body) σ σ' fun _ _ _ _ => True := by
  cases body with
  | nil =>
    rw [lowerAll, lowerAll]
    exact .pure h trivial
  | cons st rest =>
    rw [lowerAll, lowerAll]
    refine (lower_agrees st h hc).bind fun _ _ τ τ' hon _ => ?_
    exact lowerAll_agrees rest hon.paired (hc.onward h hon)

theorem lowerOption_agrees (st : Option Stmt) {σ σ' : FnState} (h : L.Paired σ σ')
    (hc : SameContext L σ.types σ'.types ctx ctx') :
    Agrees L (lowerOption ctx st) (lowerOption ctx' st) σ σ' fun _ _ _ _ => True := by
  cases st with
  | none =>
    rw [lowerOption, lowerOption]
    exact .pure h trivial
  | some st =>
    rw [lowerOption, lowerOption]
    exact lower_agrees st h hc

theorem lowerElse_agrees (st : Option Stmt) {σ σ' : FnState} (h : L.Paired σ σ')
    (hc : SameContext L σ.types σ'.types ctx ctx') :
    Agrees L (lowerElse ctx st) (lowerElse ctx' st) σ σ' fun _ _ =>
      Option.Rel fun e e' => L.block e.1 e'.1 ∧ L.ending e.2 e'.2 := by
  cases st with
  | none =>
    rw [lowerElse, lowerElse]
    exact .pure h .none
  | some st =>
    rw [lowerElse, lowerElse]
    refine (createBlock_agrees h).bind fun k k' τ₁ τ₁' hon₁ hk => ?_
    refine (switchTo_agrees hon₁.paired hk).bind fun _ _ τ₂ τ₂' hon₂ _ => ?_
    have hon := hon₁.trans hon₂
    refine (lower_agrees st hon.paired (hc.onward h hon)).bind fun _ _ τ₃ τ₃' hon₃ _ => ?_
    refine (openEnd_agrees hon₃.paired).bind fun x x' τ₄ τ₄' hon₄ hx => ?_
    exact .pure hon₄.paired (.some ⟨hk, hx⟩)

theorem lowerClauses_agrees (clauses : List Clause) {σ σ' : FnState} (h : L.Paired σ σ')
    (hc : SameContext L σ.types σ'.types ctx ctx') {ks ks' : List BlockId}
    (hks : List.Forall₂ L.block ks ks') :
    Agrees L (lowerClauses ctx clauses ks) (lowerClauses ctx' clauses ks') σ σ' fun _ _ =>
      List.Forall₂ L.ending := by
  cases clauses with
  | nil =>
    simp only [lowerClauses]
    exact .pure h .nil
  | cons clause rest =>
    obtain ⟨values, body, isDefault⟩ := clause
    cases hks with
    | nil =>
      simp only [lowerClauses]
      exact .pure h .nil
    | cons hk hks =>
      rw [lowerClauses, lowerClauses]
      refine (switchTo_agrees h hk).bind fun _ _ τ₁ τ₁' hon₁ _ => ?_
      refine (lowerAll_agrees body hon₁.paired (hc.onward h hon₁)).bind fun _ _ τ₂ τ₂' hon₂ _ => ?_
      refine (openEnd_agrees hon₂.paired).bind fun x x' τ₃ τ₃' hon₃ hx => ?_
      have hon := (hon₁.trans hon₂).trans hon₃
      refine (lowerClauses_agrees rest hon.paired (hc.onward h hon) hks).bind
        fun xs xs' τ₄ τ₄' hon₄ hxs => ?_
      exact .pure hon₄.paired (.cons hx hxs)

end

end Stmt

end Midend
