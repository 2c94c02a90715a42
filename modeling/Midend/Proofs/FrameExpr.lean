import Midend.Proofs.Frame
import Midend.Proofs.ShortCircuit

/-!
# Midend.Proofs.FrameExpr

Lowering an expression touches only the region of the cursor (`Expr.lower_flows`), with a value or
without one. The blocks of a short circuit are complete even if its right operand fails, since its
error is dealt with where both ways meet.
-/

namespace Midend

open Ir

namespace Ir.Builder

variable {b b' : Builder} {t : Terminator}

/-- The block under the cursor branches to two new blocks, and the cursor is on the first. -/
def forked (b : Builder) (t : Terminator) : Builder :=
  (b.withBlock.withBlock.closed b.cursor t).moved ⟨b.size⟩

/-- The first of the two goes on at the second, and the cursor is there. -/
def met (b' : Builder) (k : BlockId) : Builder := (b'.closed b'.cursor (.br k)).moved k

theorem open_withBlock_of_open {i : BlockId} (h : b.Open i) : b.withBlock.Open i :=
  open_withBlock.mpr (.inr h)

theorem size_forked : (b.forked t).size = b.size + 2 := by
  simp [forked]

theorem Region.forked (hopen : b.Open b.cursor)
    (ht : ∀ j ∈ t.successors, j = ⟨b.size⟩ ∨ j = ⟨b.size + 1⟩) :
    Region [] b (b.forked t) [⟨b.size + 1⟩, ⟨b.size⟩] := by
  have hlt := hopen.lt_size
  have htwo := (Region.refl [] b).withBlock.withBlock
  rw [size_withBlock] at htwo
  refine (htwo.closed (open_withBlock_of_open (open_withBlock_of_open hopen)) (.inl rfl)
    (fun j hj => .inl ?_) _ ?_ ?_).moved _
  · rw [size_withBlock, size_withBlock]
    rcases ht j hj with rfl | rfl
    · exact ⟨Nat.le_refl _, Nat.lt_succ_of_lt (Nat.lt_succ_self _)⟩
    · exact ⟨Nat.le_succ _, Nat.lt_succ_self _⟩
  · intro i hi hne
    simpa [hne] using hi
  · intro i hi
    simp only [List.mem_cons, List.not_mem_nil, or_false] at hi ⊢
    tauto

theorem open_forked (hc : b.cursor.index < b.size) {i : BlockId}
    (hi : i = ⟨b.size⟩ ∨ i = ⟨b.size + 1⟩) : (b.forked t).Open i := by
  refine open_closed.mpr ⟨?_, open_withBlock.mpr ?_⟩
  · rintro rfl
    have hle : b.size ≤ b.cursor.index := by rcases hi with h | h <;> simp [h]
    exact absurd hc (Nat.not_lt.mpr hle)
  · rcases hi with rfl | rfl
    · exact .inr (open_withBlock.mpr (.inl rfl))
    · exact .inl (by rw [size_withBlock])

theorem Confined.met (hopen : b.Open b.cursor)
    (ht : ∀ j ∈ t.successors, j = ⟨b.size⟩ ∨ j = ⟨b.size + 1⟩)
    (h : Confined [] (b.forked t) b') (hopen' : b'.Open b'.cursor) :
    Confined [] b (b'.met ⟨b.size + 1⟩) ∧ (b'.met ⟨b.size + 1⟩).Open ⟨b.size + 1⟩ := by
  have hnew : (⟨b.size + 1⟩ : BlockId) ≠ b'.cursor := by
    intro heq
    rcases h.moves with hc | hge
    · rw [← heq] at hc
      exact absurd (congrArg BlockId.index hc) (Nat.succ_ne_self _)
    · rw [← heq, size_forked] at hge
      exact absurd hge (Nat.not_succ_le_self _)
  have hlt : b.size + 1 < b'.size :=
    Nat.lt_of_lt_of_le (by rw [size_forked]; exact Nat.lt_succ_self _) h.size
  have hall := (Region.forked hopen ht).trans (.inr (Nat.le_refl _)) h.toRegion
    [⟨b.size + 1⟩] (by simp [Builder.forked, Builder.moved]) (by simp) (by simp)
  have hcur : b.Own b'.cursor := hall.own _ (by simp)
  refine ⟨⟨(hall.closed hopen' hcur ?_ [⟨b.size + 1⟩] ?_ ?_).moved _, ?_⟩,
    open_closed.mpr ⟨hnew, ?_⟩⟩
  · intro j hj
    obtain rfl : j = ⟨b.size + 1⟩ := by simpa [Terminator.successors] using hj
    exact .inl ⟨Nat.le_succ _, hlt⟩
  · intro i hi hne
    simpa [hne] using hi
  · intro i hi
    obtain rfl : i = ⟨b.size + 1⟩ := List.mem_singleton.mp hi
    exact List.mem_append_right _ (List.mem_singleton_self _)
  · show b.size + 1 < (b'.closed b'.cursor _).size
    rw [size_closed]
    exact hlt
  · have hother : (⟨b.size + 1⟩ : BlockId) ≠ (b.forked t).cursor := fun heq =>
      absurd (congrArg BlockId.index heq) (Nat.succ_ne_self _)
    exact (h.open_iff (by rw [size_forked]; exact Nat.lt_succ_self _) hother).mpr
      (open_forked hopen.lt_size (.inr rfl))

end Ir.Builder

namespace Lower

theorem checkedType_flows (ctx : Context) (m : Mark) : Flowing (checkedType ctx m) := by
  unfold checkedType
  split
  · exact .pure _
  · exact .report _

theorem exprType_flows (ctx : Context) (m : Mark) : Flowing (exprType ctx m) :=
  (checkedType_flows ctx m).bind fun t => .typing (Typing.ofChecked_grows _ _ t)

theorem unsigned_flows (ctx : Context) (m : Mark) : Flowing (unsigned ctx m) :=
  (checkedType_flows ctx m).bind fun _ => .pure _

theorem boolType_flows (ctx : Context) (m : Mark) : Flowing (boolType ctx m) := by
  unfold boolType
  split
  · exact .typing Typing.bool_grows
  · rename_i t _
    refine (Flowing.typing (Typing.ofChecked_grows _ _ t).attempt).bind fun id? => ?_
    cases id? with
    | none => exact .typing Typing.bool_grows
    | some id =>
      refine (Flowing.body id).bind fun body => ?_
      split
      · exact .pure id
      · exact .typing Typing.bool_grows

theorem expectBool_flows (v : Value) (span : Span) : Flowing (expectBool v span) := by
  refine (Flowing.body v.type).bind fun t => ?_
  split
  · exact .pure ()
  · exact .report _

theorem typeMismatch_flows {α : Type} (i j : TypeId) (span : Span) :
    Flowing (do throw (.report (.typeMismatch (← ref i) (← ref j) span)) : Lower α) :=
  (Flowing.ref i).bind fun _ => (Flowing.ref j).bind fun _ => .report _

theorem expectSameType_flows (lhs rhs : Value) (span : Span) :
    Flowing (expectSameType lhs rhs span) := by
  unfold expectSameType
  split
  · exact .pure ()
  · exact typeMismatch_flows _ _ _

theorem expectParamType_flows (param : TypeId) (v : Value) (span : Span) :
    Flowing (expectParamType param v span) := by
  unfold expectParamType
  split
  · exact .pure ()
  · exact typeMismatch_flows _ _ _

theorem literal_flows (ctx : FnContext) (m : Mark) (kind : LiteralKind) (text : String) :
    Flowing (literal ctx m kind text) := by
  refine (exprType_flows ctx.toContext m).bind fun type => ?_
  split
  · refine (Flowing.abort _).bind fun _ => (Flowing.body type).bind fun t => ?_
    split
    · exact .pure _
    · exact .report _
  · refine (Flowing.body type).bind fun t => ?_
    split
    · exact .pure _
    · exact .report _

theorem name_flows (ctx : FnContext) (m : Mark) (x : String) : Flowing (name ctx m x) := by
  have hconst : ∀ c, Flowing (do return .ofConst c (← exprType ctx.toContext m) : Lower Value) :=
    fun _ => (exprType_flows ctx.toContext m).bind fun _ => .pure _
  unfold name
  split
  · exact .pure _
  · split_ifs
    · exact hconst _
    · exact hconst _
    · exact hconst _
    · exact .abort _
    · exact .report _

theorem unary_flows (m : Mark) (op : UnaryOp) (value : Value) : Flowing (unary m op value) := by
  have hunsupported : Flowing (unary.unsupported m op value) :=
    (Flowing.ref value.type).bind fun _ => .abort _
  refine (Flowing.body value.type).bind fun t => ?_
  cases op with
  | plus => exact .pure value
  | addr | recv => exact hunsupported
  | neg | not | bitNot =>
    dsimp only
    split_ifs <;> first | exact .push _ _ | exact hunsupported

theorem compare_flows (op : BinaryOp) (lhs rhs : Value) (isUnsigned : Bool) (result : TypeId)
    (span : Span) : Flowing (compare op lhs rhs isUnsigned result span) := by
  refine (expectSameType_flows lhs rhs span).bind fun _ => (Flowing.body lhs.type).bind fun t => ?_
  dsimp only
  split_ifs
  · exact (Flowing.pure _).bind (.ofOption (.abort _) fun _ => .push _ _)
  · exact (Flowing.pure _).bind (.ofOption (.abort _) fun _ => .push _ _)
  · exact (Flowing.ref lhs.type).bind fun _ =>
      (Flowing.abort _).bind (.ofOption (.abort _) fun _ => .push _ _)

theorem equal_flows (lhs rhs : Value) (span : Span) : Flowing (equal lhs rhs span) :=
  (Flowing.typing Typing.bool_grows).bind fun _ => compare_flows _ _ _ _ _ _

theorem unsupportedBinary_flows {α : Type} (op : BinaryOp) (type : TypeId) (span : Span) :
    Flowing (unsupportedBinary op type span : Lower α) :=
  (Flowing.ref type).bind fun _ => .abort _

theorem shift_flows (ctx : Context) (op : BinaryOp) (lhs rhs : Value) (left : Mark) (span : Span) :
    Flowing (shift ctx op lhs rhs left span) := by
  refine (Flowing.body lhs.type).bind fun shifted => (Flowing.body rhs.type).bind fun counting => ?_
  have hopcode : Flowing (shiftOpcode ctx op left) := by
    unfold shiftOpcode
    split
    · exact .pure _
    · exact (unsigned_flows ctx left).bind fun _ => .pure _
  have hpush : ∀ count, Flowing (do
      let opcode ← shiftOpcode ctx op left
      Lower.push lhs.type (.binary opcode lhs count)) :=
    fun count => hopcode.bind fun _ => .push _ _
  split
  · dsimp only
    split_ifs
    · exact (Flowing.push _ _).bind hpush
    · exact (Flowing.push _ _).bind hpush
    · exact (Flowing.pure rhs).bind hpush
  · exact unsupportedBinary_flows _ _ _

theorem arithmetic_flows (ctx : Context) (op : BinaryOp) (lhs rhs : Value) (left : Mark)
    (span : Span) : Flowing (arithmetic ctx op lhs rhs left span) := by
  refine (expectSameType_flows lhs rhs span).bind fun _ => (Flowing.body lhs.type).bind fun t => ?_
  split
  · refine (unsigned_flows ctx left).bind fun isUnsigned => ?_
    split
    · exact (Flowing.push _ _).bind fun _ => .push _ _
    · split
      · exact .push _ _
      · exact unsupportedBinary_flows _ _ _
  · split
    · split
      · exact .push _ _
      · exact unsupportedBinary_flows _ _ _
    · exact unsupportedBinary_flows _ _ _

theorem binary_flows (ctx : Context) (m : Mark) (op : BinaryOp) (left : Mark) (lhs rhs : Value) :
    Flowing (binary ctx m op left lhs rhs) := by
  unfold binary
  split_ifs
  · exact (unsigned_flows ctx left).bind fun _ => (boolType_flows ctx m).bind fun _ =>
      compare_flows _ _ _ _ _ _
  · exact shift_flows _ _ _ _ _ _
  · exact arithmetic_flows _ _ _ _ _ _

theorem callee_flows (ctx : FnContext) (m : Mark) (e : Expr) : Flowing (callee ctx m e) := by
  unfold callee
  split
  · exact .abort _
  · split
    · exact .pure _
    · split_ifs
      · exact .abort _
      · exact .abort _
      · exact .report _

theorem call_flows (name : String) (sig : Signature) (args : List Value) :
    Flowing (call name sig args) := by
  refine (Flowing.body sig.ret).bind fun t => ?_
  split_ifs
  · exact .pushVoid _ _
  · exact .push _ _

theorem shortCircuit_flows (ctx : Context) (m : Mark) (op : BinaryOp) (lhs : Value)
    {right : Lower Value} (hright : Flowing right) :
    Flowing (shortCircuit ctx m op lhs right) := by
  intro σ hc
  have hopened : σ.Flows (σ.on σ.builder.opened) :=
    ⟨⟨TypeStore.le_refl _, .opened hc⟩, fun _ => Builder.open_opened hc⟩
  have hopen := Builder.open_opened hc
  generalize hb : σ.builder.opened = b at hopened hopen
  have hlt := hopen.lt_size
  rw [shortCircuit]
  refine .next (runOn_ensureOpen hc) (.next (runOn_createBlock _) (.next (runOn_createBlock _) ?_))
  simp only [FnState.on_builder, FnState.on_on, hb, Builder.size_withBlock]
  have hsucc : ∀ j ∈ (branchOn op lhs ⟨b.size⟩ ⟨b.size + 1⟩).successors,
      j = ⟨b.size⟩ ∨ j = ⟨b.size + 1⟩ := fun j hj => successors_branchOn.mp hj
  generalize branchOn op lhs ⟨b.size⟩ ⟨b.size + 1⟩ = t at hsucc
  refine .next (runOn_terminate (σ := σ.on b.withBlock.withBlock) (Builder.open_withBlock_of_open
    (Builder.open_withBlock_of_open hopen)) t) (.next (runOn_switchTo _ _) ?_)
  have hfork : (σ.on (b.forked t)).OnBlock := (Builder.open_forked hlt (.inl rfl)).lt_size
  obtain ⟨r, τ, hrun⟩ : ∃ r τ, runOn right (σ.on (b.forked t)) = (r, τ) := ⟨_, _, rfl⟩
  have hr := hright _ hfork r τ hrun
  have hflows : (σ.on (b.forked t)).Flows τ := by
    cases r with
    | ok a => exact hr
    | error f => exact hr.2
  have hopenτ := hflows.opened (Builder.open_forked hlt (.inl rfl))
  obtain ⟨hmet, hopenm⟩ := Builder.Confined.met hopen hsucc hflows.code hopenτ
  have hmeet : σ.Flows (τ.on (τ.builder.met ⟨b.size + 1⟩)) :=
    ⟨⟨hflows.types, hopened.code.trans hmet⟩, fun _ => hopenm⟩
  have hout : runOn (outcome right) (σ.on (b.forked t)) = (.ok r, τ) := by
    rw [runOn_outcome, hrun]
  refine .next hout ?_
  refine .next (runOn_ensureOpen hflows.onBlock) ?_
  rw [Builder.opened_of_open hopenτ]
  refine .next (runOn_terminate hopenτ _) (.next (runOn_switchTo _ _) ?_)
  refine Ends.bind (P := fun _ υ => σ.Flows υ) (F := fun υ => σ.Flows υ) ?_ (fun v υ _ hυ => ?_)
    fun _ h => h
  · cases r with
    | ok v => exact .of_ok (runOn_ofOutcome _ _) hmeet
    | error f => exact .of_error (runOn_ofOutcome _ _) hr.1 hmeet
  · refine (((boolType_flows ctx m).bind fun _ => .push _ _) υ hυ.onBlock).mono ?_ ?_
    · exact fun _ _ h => hυ.trans h
    · exact fun _ h => hυ.trans h

end Lower

/-! ## Expressions -/

namespace Expr

open Lower

mutual

theorem lower_flows (ctx : FnContext) (e : Expr) : Flowing (e.lower ctx) := by
  cases e with
  | lit m kind text =>
    rw [lower]
    exact literal_flows ctx m kind text
  | ident m x =>
    rw [lower]
    exact name_flows ctx m x
  | paren m inner =>
    rw [lower]
    exact lower_flows ctx inner
  | unary m op operand =>
    rw [lower]
    split
    · exact (Flowing.abort _).bind fun _ =>
        (lower_flows ctx operand).bind fun v => unary_flows m op v
    · exact (lower_flows ctx operand).bind fun v => unary_flows m op v
  | binary m op left right =>
    rw [lower]
    split
    · have hright : Flowing (do
          let rhs ← right.lower ctx
          Lower.expectBool rhs right.span
          return rhs) :=
        (lower_flows ctx right).bind fun v => (expectBool_flows v right.span).bind fun _ => .pure v
      exact (lower_flows ctx left).bind fun v => (expectBool_flows v left.span).bind fun _ =>
        shortCircuit_flows ctx.toContext m op v hright
    · exact (lower_flows ctx left).bind fun v => (lower_flows ctx right).bind fun w =>
        binary_flows ctx.toContext m op left.mark v w
  | call m callee args =>
    rw [lower]
    refine (callee_flows ctx m callee).bind fun c => ?_
    have hcall : Flowing (do
        let values ← lowerArgs ctx args c.2.params
        Lower.call c.1 c.2 values) :=
      (lowerArgs_flows ctx args c.2.params).bind fun vs => call_flows c.1 c.2 vs
    dsimp only
    split
    · exact (Flowing.report _).bind fun _ => hcall
    · exact hcall
  | selector | index | deref | composite | funcLit =>
    rw [lower]
    exact .abort _

theorem lowerArgs_flows (ctx : FnContext) (args : List Expr) (params : List TypeId) :
    Flowing (lowerArgs ctx args params) := by
  cases args with
  | nil =>
    rw [lowerArgs]
    · exact .pure _
    · simp
  | cons arg args =>
    cases params with
    | nil => exact .pure _
    | cons param params =>
      rw [lowerArgs]
      exact (lower_flows ctx arg).bind fun v => (expectParamType_flows param v arg.span).bind
        fun _ => (lowerArgs_flows ctx args params).bind fun _ => .pure _

end

end Expr

end Midend
