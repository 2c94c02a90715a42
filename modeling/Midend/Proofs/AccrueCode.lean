import Midend.Proofs.Accrue
import Midend.Proofs.FrameStmt
import Midend.Proofs.Function

/-!
# Midend.Proofs.AccrueCode

Lowering a declared function adds to the types and errors of the unit only what code can add
(`Pass.functions_accrues`), also where the run is ended by an abort. The statements and expressions
below it follow their recursion, each a sequence of steps that do so.
-/

namespace Midend

open Ir

namespace Lower

variable {ctx : FnContext} {wordBits : Nat}

theorem expectBool_accrues (v : Value) (span : Span) :
    Accruing wordBits LowerError.InCode (expectBool v span) := by
  refine (body_accrues v.type).bind fun t => ?_
  split
  · exact .pure ()
  · exact .report fun _ => ⟨trivial, trivial⟩

theorem runOn_ref_cases (id : TypeId) (σ : FnState) :
    (∃ text, σ.types.ref? id = some text ∧ runOn (ref id) σ = (.ok text, σ)) ∨
      runOn (ref id) σ = (.error (.breach (.noType id)), σ) := by
  rw [ref, runOn_typing, Typing.ref, Typing.runOn_ask, TypeStore.ref]
  cases h : σ.types.ref? id with
  | none => exact .inr rfl
  | some text => exact .inl ⟨text, rfl, rfl⟩

/-- The texts of two types that are not the same, for an error about them. -/
theorem texts_accrue {α : Type} {i j : TypeId} (hne : i ≠ j) (span : Span)
    {f : String → String → Lower α} (hf : ∀ lhs rhs, Accruing wordBits
      (fun s e => e.InCode s ∨ e = .typeMismatch lhs rhs span) (f lhs rhs)) :
    Accruing wordBits LowerError.InCode (do f (← ref i) (← ref j)) := by
  intro σ r τ hrun
  rcases runOn_ref_cases i σ with ⟨lhs, hlhs, hi⟩ | hi
  · rcases runOn_ref_cases j σ with ⟨rhs, hrhs, hj⟩ | hj
    · rw [runOn_bind_ok hi, runOn_bind_ok hj] at hrun
      refine (hf lhs rhs).absorb ?_ hrun
      rintro e rfl
      exact .here ⟨trivial, i, j, hne, hlhs, hrhs⟩
    · rw [runOn_bind_ok hi, runOn_bind_error hj] at hrun
      cases hrun
      exact ⟨.refl _, by simp⟩
  · rw [runOn_bind_error hi] at hrun
    cases hrun
    exact ⟨.refl _, by simp⟩

theorem typeMismatch_accrues {α : Type} {i j : TypeId} (hne : i ≠ j) (span : Span) :
    Accruing wordBits LowerError.InCode
      (do throw (.report (.typeMismatch (← ref i) (← ref j) span)) : Lower α) :=
  texts_accrue hne span fun _ _ => .report fun _ => .inr rfl

theorem expectSameType_accrues (lhs rhs : Value) (span : Span) :
    Accruing wordBits LowerError.InCode (expectSameType lhs rhs span) := by
  unfold expectSameType
  split
  · exact .pure ()
  · rename_i hne
    exact typeMismatch_accrues hne _

theorem expectParamType_accrues (param : TypeId) (v : Value) (span : Span) :
    Accruing wordBits LowerError.InCode (expectParamType param v span) := by
  unfold expectParamType
  split
  · exact .pure ()
  · rename_i hne
    exact typeMismatch_accrues (Ne.symm hne) _

theorem literal_accrues (ctx : FnContext) (m : Mark) (kind : LiteralKind) (text : String) :
    Accruing ctx.config.wordBits LowerError.InCode (literal ctx m kind text) := by
  refine (exprType_accrues ctx.toContext m).bind fun type => ?_
  split
  · refine (Accruing.abort _).bind fun _ => (body_accrues type).bind fun t => ?_
    split
    · exact .pure _
    · exact .report fun _ => ⟨trivial, trivial⟩
  · refine (body_accrues type).bind fun t => ?_
    split
    · exact .pure _
    · exact .report fun _ => ⟨trivial, trivial⟩

theorem name_accrues (ctx : FnContext) (m : Mark) (x : String) :
    Accruing ctx.config.wordBits LowerError.InCode (name ctx m x) := by
  have hconst : ∀ c, Accruing ctx.config.wordBits LowerError.InCode
      (do return .ofConst c (← exprType ctx.toContext m) : Lower Value) :=
    fun _ => (exprType_accrues ctx.toContext m).bind fun _ => .pure _
  unfold name
  split
  · exact .pure _
  · split_ifs
    · exact hconst _
    · exact hconst _
    · exact hconst _
    · exact .abort _
    · exact .report fun _ => ⟨trivial, trivial⟩

theorem unary_accrues (m : Mark) (op : UnaryOp) (value : Value) :
    Accruing wordBits LowerError.InCode (unary m op value) := by
  have hunsupported : Accruing wordBits LowerError.InCode (unary.unsupported m op value) :=
    (ref_accrues value.type).bind fun _ => .abort _
  refine (body_accrues value.type).bind fun t => ?_
  cases op with
  | plus => exact .pure value
  | addr | recv => exact hunsupported
  | neg | not | bitNot =>
    dsimp only
    split_ifs <;> first | exact push_accrues _ _ | exact hunsupported

theorem compare_accrues (op : BinaryOp) (lhs rhs : Value) (isUnsigned : Bool) (result : TypeId)
    (span : Span) :
    Accruing wordBits LowerError.InCode (compare op lhs rhs isUnsigned result span) := by
  refine (expectSameType_accrues lhs rhs span).bind fun _ =>
    (body_accrues lhs.type).bind fun t => ?_
  dsimp only
  split_ifs
  · exact (Accruing.pure _).bind (.ofOption (.abort _) fun _ => push_accrues _ _)
  · exact (Accruing.pure _).bind (.ofOption (.abort _) fun _ => push_accrues _ _)
  · exact (ref_accrues lhs.type).bind fun _ =>
      (Accruing.abort _).bind (.ofOption (.abort _) fun _ => push_accrues _ _)

theorem equal_accrues (lhs rhs : Value) (span : Span) :
    Accruing wordBits LowerError.InCode (equal lhs rhs span) :=
  (Accruing.typing Typing.bool_accrues).bind fun _ => compare_accrues _ _ _ _ _ _

theorem unsupportedBinary_accrues {α : Type} (op : BinaryOp) (type : TypeId) (span : Span) :
    Accruing wordBits LowerError.InCode (unsupportedBinary op type span : Lower α) :=
  (ref_accrues type).bind fun _ => .abort _

theorem shift_accrues (ctx : Context) (op : BinaryOp) (lhs rhs : Value) (left : Mark)
    (span : Span) :
    Accruing ctx.config.wordBits LowerError.InCode (shift ctx op lhs rhs left span) := by
  refine (body_accrues lhs.type).bind fun shifted => (body_accrues rhs.type).bind fun counting => ?_
  have hopcode : Accruing ctx.config.wordBits LowerError.InCode (shiftOpcode ctx op left) := by
    unfold shiftOpcode
    split
    · exact .pure _
    · exact (unsigned_accrues ctx left).bind fun _ => .pure _
  have hpush : ∀ count, Accruing ctx.config.wordBits LowerError.InCode (do
      let opcode ← shiftOpcode ctx op left
      Lower.push lhs.type (.binary opcode lhs count)) :=
    fun count => hopcode.bind fun _ => push_accrues _ _
  split
  · dsimp only
    split_ifs
    · exact (push_accrues _ _).bind hpush
    · exact (push_accrues _ _).bind hpush
    · exact (Accruing.pure rhs).bind hpush
  · exact unsupportedBinary_accrues _ _ _

theorem arithmetic_accrues (ctx : Context) (op : BinaryOp) (lhs rhs : Value) (left : Mark)
    (span : Span) :
    Accruing ctx.config.wordBits LowerError.InCode (arithmetic ctx op lhs rhs left span) := by
  refine (expectSameType_accrues lhs rhs span).bind fun _ =>
    (body_accrues lhs.type).bind fun t => ?_
  split
  · refine (unsigned_accrues ctx left).bind fun isUnsigned => ?_
    split
    · exact (push_accrues _ _).bind fun _ => push_accrues _ _
    · split
      · exact push_accrues _ _
      · exact unsupportedBinary_accrues _ _ _
  · split
    · split
      · exact push_accrues _ _
      · exact unsupportedBinary_accrues _ _ _
    · exact unsupportedBinary_accrues _ _ _

theorem binary_accrues (ctx : Context) (m : Mark) (op : BinaryOp) (left : Mark) (lhs rhs : Value) :
    Accruing ctx.config.wordBits LowerError.InCode (binary ctx m op left lhs rhs) := by
  unfold binary
  split_ifs
  · exact (unsigned_accrues ctx left).bind fun _ => (boolType_accrues ctx m).bind fun _ =>
      compare_accrues _ _ _ _ _ _
  · exact shift_accrues _ _ _ _ _ _
  · exact arithmetic_accrues _ _ _ _ _ _

theorem callee_accrues (ctx : FnContext) (m : Mark) (e : Expr) :
    Accruing ctx.config.wordBits LowerError.InCode (callee ctx m e) := by
  unfold callee
  split
  · exact .abort _
  · split
    · exact .pure _
    · split_ifs
      · exact .abort _
      · exact .abort _
      · exact .report fun _ => ⟨trivial, trivial⟩

theorem call_accrues (name : String) (sig : Signature) (args : List Value) :
    Accruing wordBits LowerError.InCode (call name sig args) := by
  refine (body_accrues sig.ret).bind fun t => ?_
  split
  · exact .build
  · exact push_accrues _ _

/-- The error of the right operand is dealt with where both ways meet. -/
theorem shortCircuit_accrues (ctx : Context) (m : Mark) (op : BinaryOp) (lhs : Value)
    {right : Lower Value} (hright : Accruing ctx.config.wordBits LowerError.InCode right) :
    Accruing ctx.config.wordBits LowerError.InCode (shortCircuit ctx m op lhs right) := by
  refine .bind .build fun _ => .bind .build fun _ => .bind .build fun _ => .bind .build fun _ =>
    .bind .build fun _ => hright.outcome fun r => ?_
  refine .bind .build fun _ => .bind .build fun _ => .bind .build fun _ => ?_
  exact Accruing.ofOutcome.bind fun _ =>
    ((boolType_accrues ctx m).mono fun _ _ => .inl).bind fun _ => push_accrues _ _

end Lower

namespace Expr

open Lower

mutual

theorem lower_accrues (ctx : FnContext) (e : Expr) :
    Accruing ctx.config.wordBits LowerError.InCode (e.lower ctx) := by
  cases e with
  | lit m kind text =>
    rw [lower]
    exact literal_accrues ctx m kind text
  | ident m x =>
    rw [lower]
    exact name_accrues ctx m x
  | paren m inner =>
    rw [lower]
    exact lower_accrues ctx inner
  | unary m op operand =>
    rw [lower]
    have hoperand := (lower_accrues ctx operand).bind fun v => unary_accrues m op v
    split
    · exact (Accruing.abort _).bind fun _ => hoperand
    · exact hoperand
  | binary m op left right =>
    rw [lower]
    split
    · have hright : Accruing ctx.config.wordBits LowerError.InCode (do
          let rhs ← right.lower ctx
          Lower.expectBool rhs right.span
          return rhs) :=
        (lower_accrues ctx right).bind fun v =>
          (expectBool_accrues v right.span).bind fun _ => .pure v
      exact (lower_accrues ctx left).bind fun v => (expectBool_accrues v left.span).bind fun _ =>
        shortCircuit_accrues ctx.toContext m op v hright
    · exact (lower_accrues ctx left).bind fun v => (lower_accrues ctx right).bind fun w =>
        binary_accrues ctx.toContext m op left.mark v w
  | call m callee args =>
    rw [lower]
    refine (callee_accrues ctx m callee).bind fun c => ?_
    have hcall : Accruing ctx.config.wordBits LowerError.InCode (do
        let values ← lowerArgs ctx args c.2.params
        Lower.call c.1 c.2 values) :=
      (lowerArgs_accrues ctx args c.2.params).bind fun vs => call_accrues c.1 c.2 vs
    dsimp only
    split
    · exact (Accruing.report fun _ => ⟨trivial, trivial⟩).bind fun _ => hcall
    · exact hcall
  | selector | index | deref | composite | funcLit =>
    rw [lower]
    exact .abort _

theorem lowerArgs_accrues (ctx : FnContext) (args : List Expr) (params : List TypeId) :
    Accruing ctx.config.wordBits LowerError.InCode (lowerArgs ctx args params) := by
  cases args with
  | nil =>
    rw [lowerArgs]
    · exact .pure _
    · simp
  | cons arg args =>
    cases params with
    | nil => exact .pure _
    | cons param params =>
      rw [lowerArgs]
      exact (lower_accrues ctx arg).bind fun v => (expectParamType_accrues param v arg.span).bind
        fun _ => (lowerArgs_accrues ctx args params).bind fun _ => .pure _

end

end Expr

namespace Lower

variable {ctx : FnContext} {wordBits : Nat}

/-! ## Statements -/

theorem condition_accrues (ctx : FnContext) (e : Expr) :
    Accruing ctx.config.wordBits LowerError.InCode (condition ctx e) := by
  refine (Expr.lower_accrues ctx e).recover.bind fun r => ?_
  cases r with
  | none => exact .pure _
  | some v =>
    refine (expectBool_accrues v e.span).recover.bind fun r => ?_
    cases r <;> exact .pure _

theorem openEnd_accrues {P : TypeStore → LowerError → Prop} : Accruing wordBits P openEnd := by
  refine .get fun s => Accruing.build.bind fun o => ?_
  split <;> exact .pure _

theorem joinAt_accrues {P : TypeStore → LowerError → Prop} (follow : BlockId)
    (ends : List (Option BlockId)) :
    Accruing wordBits P (joinAt follow ends) := by
  induction ends with
  | nil => exact .pure _
  | cons last rest ih =>
    cases last with
    | none => exact ih
    | some last => exact Accruing.build.bind fun _ => ih

theorem branchOrNext_accrues {P : TypeStore → LowerError → Prop} (cond : Value) (clause : BlockId) :
    Accruing wordBits P (branchOrNext cond clause) :=
  Accruing.build.bind fun _ => Accruing.build.bind fun _ => Accruing.build.bind fun _ => .build

theorem disjunction_accrues {P : TypeStore → LowerError → Prop} (lhs rhs : Value) :
    Accruing wordBits P (disjunction lhs rhs) := by
  unfold disjunction
  split
  · exact (Accruing.pure _).bind fun _ => push_accrues _ _
  · exact (Accruing.typing Typing.bool_accrues).bind fun _ => push_accrues _ _

theorem anyOf_accrues (before : Option Value) (values : List Expr) :
    Accruing ctx.config.wordBits LowerError.InCode (anyOf ctx before values) := by
  induction values generalizing before with
  | nil => exact .pure _
  | cons e rest ih =>
    refine (condition_accrues ctx e).bind fun r => ?_
    cases r with
    | none => exact ih before
    | some cond =>
      cases before with
      | none => exact ih (some cond)
      | some lhs => exact (disjunction_accrues lhs cond).bind fun both => ih (some both)

theorem query_accrues (q : Query) :
    Accruing ctx.config.wordBits LowerError.InCode (q.lower ctx) := by
  cases q with
  | value tag e =>
    refine (Expr.lower_accrues ctx e).recover.bind fun r => ?_
    cases r with
    | none => exact .pure _
    | some v => exact (equal_accrues tag v e.span).recover
  | anyOf values => exact anyOf_accrues none values

theorem ask_accrues (q : Question) :
    Accruing ctx.config.wordBits LowerError.InCode (q.ask ctx) := by
  cases q with
  | test query entry =>
    refine Accruing.build.bind fun _ => (query_accrues query).bind fun r => ?_
    cases r with
    | none => exact .pure _
    | some cond => exact branchOrNext_accrues cond entry
  | default entry => exact Accruing.build.bind fun _ => .build

theorem testClauses_accrues (tag : Option Value) (pairs : List (Clause × BlockId)) :
    Accruing ctx.config.wordBits LowerError.InCode (testClauses ctx tag pairs) := by
  rw [testClauses_eq]
  induction questions tag pairs with
  | nil => exact .pure _
  | cons q rest ih => exact (ask_accrues q).bind fun _ => ih

theorem createEntries_accrues {P : TypeStore → LowerError → Prop} (clauses : List Clause) :
    Accruing wordBits P (createEntries clauses) := by
  induction clauses with
  | nil => exact .pure _
  | cons clause rest ih => exact Accruing.build.bind fun _ => ih.bind fun _ => .pure _

theorem switchTag_accrues (tag : Option Expr) :
    Accruing ctx.config.wordBits LowerError.InCode (switchTag ctx tag) := by
  cases tag with
  | none => exact .pure _
  | some e => exact (Expr.lower_accrues ctx e).recover.bind fun _ => .pure _

theorem loopCondition_accrues (cond : Option Expr) :
    Accruing ctx.config.wordBits LowerError.InCode (loopCondition ctx cond) := by
  cases cond with
  | none => exact .pure _
  | some e => exact condition_accrues ctx e

theorem results_accrues (es : List Expr) :
    Accruing ctx.config.wordBits LowerError.InCode (results ctx es) := by
  induction es with
  | nil => exact .pure _
  | cons e rest ih =>
    refine (Expr.lower_accrues ctx e).recover.bind fun r => ?_
    cases r with
    | none => exact .pure _
    | some v =>
      refine ih.bind fun r => ?_
      cases r <;> exact .pure _

theorem seal_accrues {P : TypeStore → LowerError → Prop} (t : Terminator) :
    Accruing wordBits P (do let _ ← build (Build.terminateIfOpen t)) :=
  Accruing.build.bind fun _ => .pure _

theorem returnValue_accrues (span : Span) (v : Value) :
    Accruing wordBits LowerError.InCode (returnValue span v) := by
  refine .get fun s => (body_accrues _).bind fun t => ?_
  split_ifs
  · exact seal_accrues _
  · exact seal_accrues _
  · rename_i hne
    exact texts_accrue (Ne.symm hne) span fun _ _ =>
      (Accruing.reported fun _ => .inr rfl).bind fun _ => seal_accrues _

theorem returnStmt_accrues (span : Span) (es : List Expr) :
    Accruing ctx.config.wordBits LowerError.InCode (returnStmt ctx span es) := by
  refine Accruing.build.bind fun _ => (results_accrues es).bind fun r => ?_
  split
  · exact seal_accrues _
  · refine .get fun s => (body_accrues _).bind fun t => ?_
    split_ifs
    · exact seal_accrues _
    · exact .abort _
  · exact returnValue_accrues span _
  · exact ((Accruing.typing (Typing.struct_accrues _)).bind fun _ => push_accrues _ _).bind
      fun v => returnValue_accrues span v

section

variable {P : TypeStore → LowerError → Prop}

theorem elseCode_accrues {other : Option (Lower Unit)} (ho : ∀ m ∈ other, Accruing wordBits P m) :
    Accruing wordBits P (elseCode other) := by
  cases other with
  | none => exact .pure _
  | some m =>
    exact Accruing.build.bind fun _ => Accruing.build.bind fun _ => (ho m rfl).bind fun _ =>
      openEnd_accrues.bind fun _ => .pure _

theorem branch_accrues {m : Lower Unit} {other : Option (Lower Unit)} (hm : Accruing wordBits P m)
    (ho : ∀ m ∈ other, Accruing wordBits P m) (cond : Value) :
    Accruing wordBits P (branch cond m (elseCode other)) := by
  refine Accruing.build.bind fun _ => Accruing.build.bind fun _ => Accruing.build.bind fun _ =>
    hm.bind fun _ => openEnd_accrues.bind fun _ => (elseCode_accrues ho).bind fun r =>
      Accruing.build.bind fun _ => ?_
  cases r with
  | none => exact (joinAt_accrues _ _).bind fun _ => Accruing.build.bind fun _ => .build
  | some => exact (joinAt_accrues _ _).bind fun _ => Accruing.build.bind fun _ => .build

theorem loop_accrues {init body post : Lower Unit} {cond : Lower (Option Value)}
    (hi : Accruing wordBits P init) (hc : Accruing wordBits P cond) (hb : Accruing wordBits P body)
    (hp : Accruing wordBits P post) : Accruing wordBits P (loop init cond body post) := by
  refine Accruing.build.bind fun _ => Accruing.build.bind fun _ => Accruing.build.bind fun _ =>
    Accruing.build.bind fun _ => Accruing.build.bind fun _ => Accruing.build.bind fun _ =>
    Accruing.build.bind fun _ => Accruing.build.bind fun _ => hi.bind fun _ => ?_
  refine Accruing.build.bind fun _ => Accruing.build.bind fun _ => hc.bind fun _ => ?_
  refine Accruing.build.bind fun _ => Accruing.build.bind fun _ => hb.bind fun _ => ?_
  refine Accruing.build.bind fun _ => Accruing.build.bind fun _ => hp.bind fun _ => ?_
  exact Accruing.build.bind fun _ => .build

end

end Lower

namespace Stmt

open Lower

mutual

theorem lower_accrues (ctx : FnContext) (s : Stmt) :
    Accruing ctx.config.wordBits LowerError.InCode (s.lower ctx) := by
  cases s with
  | block m body =>
    rw [lower]
    exact lowerAll_accrues ctx body
  | empty m =>
    rw [lower]
    exact .pure _
  | expr m e =>
    rw [lower]
    exact Accruing.build.bind fun _ => (Expr.lower_accrues ctx e).recover.bind fun _ => .pure _
  | ifElse m init cond thenBranch other =>
    rw [lower_ifElse]
    refine (lowerOption_accrues ctx init).bind fun _ => Accruing.build.bind fun _ =>
      (condition_accrues ctx cond).bind fun r => ?_
    cases r with
    | none => exact .pure _
    | some v =>
      refine branch_accrues (lower_accrues ctx thenBranch) ?_ v
      cases other with
      | none => simp [elseBranch]
      | some s =>
        rintro _ ⟨rfl⟩
        exact lower_accrues ctx s
  | loop m init cond post body =>
    rw [lower_loop]
    exact loop_accrues (lowerOption_accrues ctx init) (loopCondition_accrues cond)
      (lower_accrues ctx body) (lowerOption_accrues ctx post)
  | switch m init tag clauses =>
    rw [lower_switch]
    refine (lowerOption_accrues ctx init).bind fun _ => Accruing.build.bind fun _ =>
      (switchTag_accrues tag).bind fun r => ?_
    cases r with
    | none => exact .pure _
    | some tag =>
      exact (createEntries_accrues clauses).bind fun entries =>
        (testClauses_accrues tag _).bind fun _ => openEnd_accrues.bind fun _ =>
          (lowerClauses_accrues ctx clauses entries).bind fun _ => Accruing.build.bind fun _ =>
            (joinAt_accrues _ _).bind fun _ => .build
  | ret m results =>
    rw [lower]
    exact returnStmt_accrues m.span results
  | assign | incDec | jump | varDecl | labeled | defer | go | range =>
    rw [lower]
    exact .abort _

theorem lowerAll_accrues (ctx : FnContext) (body : List Stmt) :
    Accruing ctx.config.wordBits LowerError.InCode (lowerAll ctx body) := by
  cases body with
  | nil =>
    rw [lowerAll]
    exact .pure _
  | cons s rest =>
    rw [lowerAll]
    exact (lower_accrues ctx s).bind fun _ => lowerAll_accrues ctx rest

theorem lowerOption_accrues (ctx : FnContext) (s : Option Stmt) :
    Accruing ctx.config.wordBits LowerError.InCode (lowerOption ctx s) := by
  cases s with
  | none =>
    rw [lowerOption]
    exact .pure _
  | some s =>
    rw [lowerOption]
    exact lower_accrues ctx s

theorem lowerClauses_accrues (ctx : FnContext) (clauses : List Clause) (entries : List BlockId) :
    Accruing ctx.config.wordBits LowerError.InCode (lowerClauses ctx clauses entries) := by
  cases clauses with
  | nil =>
    rw [lowerClauses]
    · exact .pure _
    · simp
  | cons clause rest =>
    obtain ⟨values, body, span⟩ := clause
    cases entries with
    | nil => exact .pure _
    | cons entry entries =>
      rw [lowerClauses]
      exact Accruing.build.bind fun _ => (lowerAll_accrues ctx body).bind fun _ =>
        openEnd_accrues.bind fun _ => (lowerClauses_accrues ctx rest entries).bind fun _ => .pure _

end

end Stmt

theorem Lower.finishBody_accrues {wordBits : Nat} (function : String) (span : Span) :
    Accruing wordBits LowerError.InCode (Lower.finishBody function span) := by
  refine .get fun s => Accruing.build.bind fun o => ?_
  split
  · refine (body_accrues _).bind fun t => ?_
    split
    · exact .build
    · split
      · exact (Accruing.reported fun _ => ⟨trivial, trivial⟩).bind fun _ => .build
      · exact .build
  · exact .pure _

theorem Lower.functionBody_accrues (ctx : Context) (decl : FuncDecl) (sig : Signature) (body : Stmt)
    (span : Span) :
    Accruing ctx.config.wordBits LowerError.InCode (Lower.functionBody ctx decl sig body span) :=
  Accruing.build.bind fun _ => (Stmt.lower_accrues _ body).bind fun _ =>
    Lower.finishBody_accrues decl.name span

namespace Pass

theorem function_accrues (ctx : Context) (decl : FuncDecl) (span : Span) :
    Accruing ctx.config.wordBits LowerError.InCode (Pass.function ctx decl span) := by
  rcases function_cases ctx decl span with hnone | ⟨body, sig, hbody, hsig⟩
  · rw [hnone]
    exact .pure _
  · intro s r t hrun
    rw [runOn_function span hbody hsig] at hrun
    obtain ⟨r₁, σ, hrun₁⟩ := exists_runOn (Lower.functionBody ctx decl sig body span)
      ⟨s.types, s.errors, Builder.start decl.name sig.ret⟩
    obtain ⟨hacc, he⟩ := Lower.functionBody_accrues ctx decl sig body span _ r₁ σ hrun₁
    rw [hrun₁] at hrun
    cases r₁ with
    | ok _ =>
      cases hrun
      exact ⟨hacc, by simp⟩
    | error f =>
      cases hrun
      exact ⟨hacc, fun e h => he e (by cases h; rfl)⟩

theorem functions_accrues (ctx : Context) (kept : List (FuncDecl × Span)) :
    Accruing ctx.config.wordBits LowerError.InCode (Pass.functions ctx kept) := by
  induction kept with
  | nil => exact .pure _
  | cons d rest ih =>
    exact (function_accrues ctx d.1 d.2).bind fun _ => ih.bind fun _ => .pure _

end Pass

end Midend
