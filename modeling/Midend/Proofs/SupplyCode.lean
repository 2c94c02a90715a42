import Midend.Proofs.FrameStmt
import Midend.Proofs.Function
import Midend.Proofs.LiteralValue
import Midend.Proofs.Supply

/-!
# Midend.Proofs.SupplyCode

Where the constants in the code of a function come from (`Supplied`): each is that of a literal or
of a predeclared name in the body of the function, at the type recorded for it, or one that lowering
adds itself (`Pass.function_supplies`). The statements and expressions follow their recursion, and
errors on the way change nothing of it.
-/

namespace Midend

open Ir

namespace Expr

mutual

/-- The literals and names of an expression that may become values. -/
def leaves : Expr → List Expr
  | .lit m kind text => [.lit m kind text]
  | .ident m name => [.ident m name]
  | .paren _ inner => leaves inner
  | .unary _ _ operand => leaves operand
  | .binary _ _ left right => leaves left ++ leaves right
  | .call _ _ args => leavesAll args
  | .selector _ _ _ | .index _ _ _ | .deref _ _ | .composite _ _ _ | .funcLit _ => []

def leavesAll : List Expr → List Expr
  | [] => []
  | e :: rest => leaves e ++ leavesAll rest

end

end Expr

namespace Stmt

mutual

def leaves : Stmt → List Expr
  | .block _ body => leavesAll body
  | .expr _ e => e.leaves
  | .ifElse _ init cond thenBranch other =>
    leavesOption init ++ (cond.leaves ++ (leaves thenBranch ++ leavesOption other))
  | .loop _ init cond post body =>
    leavesOption init ++ (cond.elim [] Expr.leaves ++ (leavesOption post ++ leaves body))
  | .switch _ init tag clauses =>
    leavesOption init ++ (tag.elim [] Expr.leaves ++ leavesClauses clauses)
  | .ret _ results => Expr.leavesAll results
  | .empty _ | .assign _ _ _ _ | .incDec _ _ _ | .jump _ _ _ | .varDecl _ _ _ | .labeled _ _ _
  | .defer _ _ | .go _ _ | .range _ _ _ => []

def leavesAll : List Stmt → List Expr
  | [] => []
  | s :: rest => leaves s ++ leavesAll rest

def leavesOption : Option Stmt → List Expr
  | none => []
  | some s => leaves s

def leavesClauses : List Clause → List Expr
  | [] => []
  | .mk values body _ :: rest => Expr.leavesAll values ++ (leavesAll body ++ leavesClauses rest)

end

end Stmt

/-- The type is that of the node: it is found among the types for what the checker recorded. -/
def TypeTable.Gives (table : TypeTable) (wordBits : Nat) (types : TypeStore) (m : Mark)
    (type : TypeId) : Prop :=
  ∃ t, table.get? m.id = some t ∧
    runOn (Typing.ofChecked wordBits m.span t) types = (.ok type, types)

/-- The constant, of the type, is that of a literal or of a predeclared name among the leaves. -/
inductive Ir.Const.OfLeaf (table : TypeTable) (wordBits : Nat) (types : TypeStore)
    (leaves : List Expr) : Const → TypeId → Prop where
  | literal {m : Mark} {kind : LiteralKind} {text : String} {type : TypeId} {ty : Ty}
      {w : Literal.Denoted} :
      .lit m kind text ∈ leaves → table.Gives wordBits types m type → types.body? type = some ty →
      Literal.Denotes kind text w → ty.Accepts w →
      OfLeaf table wordBits types leaves (w.const ty) type
  | truth {m : Mark} {b : Bool} {type : TypeId} :
      .ident m (if b then "true" else "false") ∈ leaves → table.Gives wordBits types m type →
      OfLeaf table wordBits types leaves (.bool b) type
  | null {m : Mark} {type : TypeId} :
      .ident m "nil" ∈ leaves → table.Gives wordBits types m type →
      OfLeaf table wordBits types leaves .null type

/-- A constant, of the type, that lowering adds. -/
inductive Ir.Const.Added (types : TypeStore) : Const → TypeId → Prop where
  /-- What a number is subtracted from to negate it. -/
  | zero {type : TypeId} : types.IsInt type → Added types (.int 0) type
  /-- All bits, to complement the others. -/
  | ones {type : TypeId} : types.IsInt type → Added types (.int (-1)) type
  /-- What negates a truth value, or is the result of an operator that has only looked at one. -/
  | bit {b : Bool} {type : TypeId} : types.IsBool type → Added types (.bool b) type
  /-- What a call leaves that returns nothing. -/
  | nothing {type : TypeId} : types.IsVoid type → Added types .void type

/-- The value is a local, or a constant from the leaves, or one that lowering adds. -/
def Supplied (ctx : Context) (types : TypeStore) (leaves : List Expr) (v : Value) : Prop :=
  ∀ c, v.operand = .const c →
    c.OfLeaf ctx.table ctx.config.wordBits types leaves v.type ∨ c.Added types v.type

theorem Ir.TypeStore.isInt_of_body? {s : TypeStore} {id : TypeId} {t : Ty} (h : s.body? id = some t)
    (hint : t.isInt = true) : s.IsInt id := by
  obtain ⟨bits, rfl⟩ := Ty.isInt_iff.mp hint
  exact ⟨bits, h⟩

namespace Supplied

variable {ctx : Context} {F : TypeStore} {S : List Expr}

theorem ofLocal (id : LocalId) (type : TypeId) : Supplied ctx F S (.ofLocal id type) := nofun

theorem ofLeaf {c : Const} {type : TypeId}
    (h : c.OfLeaf ctx.table ctx.config.wordBits F S type) : Supplied ctx F S (.ofConst c type) := by
  rintro _ ⟨rfl⟩
  exact .inl h

theorem added {c : Const} {type : TypeId} (h : c.Added F type) :
    Supplied ctx F S (.ofConst c type) := by
  rintro _ ⟨rfl⟩
  exact .inr h

end Supplied

namespace Lower

variable {ctx : FnContext} {F : TypeStore} {S : List Expr} {J : Inst → Prop} {H : Prop}

theorem checkedType_supplies {P : Value → Prop} (ctx : Context) (m : Mark) :
    Supplying F P J H (checkedType ctx m) fun t => ctx.table.get? m.id = some t := by
  unfold checkedType
  split
  · exact .pure fun _ => ‹_›
  · exact .throw _

theorem exprType_supplies {P : Value → Prop} (ctx : Context) (m : Mark) :
    Supplying F P J H (exprType ctx m) (ctx.table.Gives ctx.config.wordBits F m) :=
  (checkedType_supplies ctx m).bind fun t =>
    (Supplying.lasting (Typing.ofChecked_grows _ _ t) (Typing.ofChecked_lasting _ _ t)).mono
      (fun h => h) fun h _ htype => ⟨t, h.2, htype⟩

theorem unsigned_supplies {P : Value → Prop} (ctx : Context) (m : Mark) :
    Supplying F P J H (unsigned ctx m) fun _ => True :=
  (checkedType_supplies ctx m).bind fun _ => .pure fun _ => trivial

theorem boolType_supplies {P : Value → Prop} (ctx : Context) (m : Mark) :
    Supplying F P J H (boolType ctx m) F.IsBool := by
  unfold boolType
  split
  · exact .bool
  · rename_i t _
    refine (Supplying.growing (Typing.Grows.attempt (Typing.ofChecked_grows _ _ t))).bind
      fun r => ?_
    cases r with
    | none => exact .bool
    | some id =>
      refine (Supplying.body id).bind fun ty => ?_
      split
      · rename_i hbool
        obtain rfl := Ty.isBool_iff.mp hbool
        exact .pure And.right
      · exact .bool

theorem expectBool_supplies {P : Value → Prop} (v : Value) (span : Span) :
    Supplying F P J H (expectBool v span) fun _ => True := by
  refine (Supplying.body v.type).bind fun t => ?_
  split
  · exact .pure fun _ => trivial
  · exact .throw _

theorem typeMismatch_supplies {α : Type} {P : Value → Prop} {Q : α → Prop} (i j : TypeId)
    (span : Span) : Supplying F P J H
      (do throw (.report (.typeMismatch (← ref i) (← ref j) span)) : Lower α) Q :=
  (Supplying.ref i).bind fun _ => (Supplying.ref j).bind fun _ => .throw _

theorem expectSameType_supplies {P : Value → Prop} (lhs rhs : Value) (span : Span) :
    Supplying F P J H (expectSameType lhs rhs span) fun _ => lhs.type = rhs.type := by
  unfold expectSameType
  split
  · exact .pure fun _ => ‹_›
  · exact typeMismatch_supplies _ _ _

theorem expectParamType_supplies {P : Value → Prop} (param : TypeId) (v : Value) (span : Span) :
    Supplying F P J H (expectParamType param v span) fun _ => True := by
  unfold expectParamType
  split
  · exact .pure fun _ => trivial
  · exact typeMismatch_supplies _ _ _

theorem push_supplies {type : TypeId} {operation : Operation} (hplain : H → ¬ operation.Mixed)
    (h : H → ∀ v ∈ operation.operands, Supplied ctx.toContext F S v) :
    Supplying F (Supplied ctx.toContext F S) J H (push type operation)
      (Supplied ctx.toContext F S) := by
  refine (Supplying.push h fun hh hmixed => absurd hmixed (hplain hh)).mono (fun h => h)
    fun _ v hv => ?_
  obtain ⟨id, rfl⟩ := hv
  exact .ofLocal id type

theorem push_one {type : TypeId} {operation : Operation} {v : Value}
    (hop : operation.operands = [v]) (hplain : H → ¬ operation.Mixed)
    (hv : H → Supplied ctx.toContext F S v) :
    Supplying F (Supplied ctx.toContext F S) J H (push type operation)
      (Supplied ctx.toContext F S) :=
  push_supplies hplain fun h => hop ▸ List.forall_mem_singleton.mpr (hv h)

theorem push_two {type : TypeId} {operation : Operation} {v w : Value}
    (hop : operation.operands = [v, w]) (hplain : H → ¬ operation.Mixed)
    (hv : H → Supplied ctx.toContext F S v) (hw : H → Supplied ctx.toContext F S w) :
    Supplying F (Supplied ctx.toContext F S) J H (push type operation)
      (Supplied ctx.toContext F S) :=
  push_supplies hplain fun h =>
    hop ▸ List.forall_mem_cons.mpr ⟨hv h, List.forall_mem_singleton.mpr (hw h)⟩

theorem literal_supplies {m : Mark} {kind : LiteralKind} {text : String}
    (hleaf : .lit m kind text ∈ S) :
    Supplying F (Supplied ctx.toContext F S) J H (literal ctx m kind text)
      (Supplied ctx.toContext F S) := by
  have hconst : ∀ {type : TypeId} {ty : Ty} {c : Const}, literalConst? ty kind text = some c →
      ctx.table.Gives ctx.config.wordBits F m type → F.body? type = some ty →
      Supplied ctx.toContext F S (.ofConst c type) := by
    intro type ty c hc hgives hbody
    obtain ⟨w, hw, haccepts, rfl⟩ := literalConst?_eq_some_iff.mp hc
    exact .ofLeaf (.literal hleaf hgives hbody hw haccepts)
  refine (exprType_supplies ctx.toContext m).bind fun type => ?_
  split
  · refine (Supplying.throw (Q := fun _ => True) _).bind fun _ =>
      (Supplying.body type).bind fun ty => ?_
    cases hc : literalConst? ty kind text with
    | none => exact .throw _
    | some c => exact .pure fun h => hconst hc h.1.1.2 h.2
  · refine (Supplying.body type).bind fun ty => ?_
    cases hc : literalConst? ty kind text with
    | none => exact .throw _
    | some c => exact .pure fun h => hconst hc h.1.2 h.2

theorem name_supplies {m : Mark} {x : String}
    (hscope : ∀ y v, ctx.scope.lookup y = some v → Supplied ctx.toContext F S v)
    (hleaf : .ident m x ∈ S) :
    Supplying F (Supplied ctx.toContext F S) J H (name ctx m x) (Supplied ctx.toContext F S) := by
  have hconst : ∀ c, (∀ type, ctx.table.Gives ctx.config.wordBits F m type →
        Const.OfLeaf ctx.table ctx.config.wordBits F S c type) →
      Supplying F (Supplied ctx.toContext F S) J H
        (do return .ofConst c (← exprType ctx.toContext m) : Lower Value)
        (Supplied ctx.toContext F S) := fun c hc =>
    (exprType_supplies ctx.toContext m).bind fun type => .pure fun h => .ofLeaf (hc type h.2)
  unfold name
  split
  · rename_i v hv
    exact .pure fun _ => hscope x v hv
  · split_ifs with htrue hfalse hnil
    · exact hconst _ fun _ => .truth (b := true) (htrue ▸ hleaf)
    · exact hconst _ fun _ => .truth (b := false) (hfalse ▸ hleaf)
    · exact hconst _ fun _ => .null (hnil ▸ hleaf)
    · exact .throw _
    · exact .throw _

theorem unary_supplies (m : Mark) (op : UnaryOp) {v : Value}
    (hv : H → Supplied ctx.toContext F S v) :
    Supplying F (Supplied ctx.toContext F S) J H (unary m op v) (Supplied ctx.toContext F S) := by
  have hunsupported : ∀ {H' : Prop}, Supplying F (Supplied ctx.toContext F S) J H'
      (unary.unsupported m op v) (Supplied ctx.toContext F S) :=
    (Supplying.ref v.type).bind fun _ => .throw _
  refine (Supplying.body v.type).bind fun t => ?_
  cases op with
  | plus => exact .pure fun h => hv h.1
  | addr | recv => exact hunsupported
  | neg =>
    dsimp only
    split_ifs with hint
    · exact push_two rfl (fun _ => nofun)
        (fun h => .added (.zero (TypeStore.isInt_of_body? h.2 hint))) fun h => hv h.1
    · exact push_one rfl (fun _ => nofun) fun h => hv h.1
    · exact hunsupported
  | not =>
    dsimp only
    split_ifs with hbool
    · obtain rfl := Ty.isBool_iff.mp hbool
      exact push_two rfl (fun _ => nofun) (fun h => hv h.1) fun h => .added (.bit h.2)
    · exact hunsupported
  | bitNot =>
    dsimp only
    split_ifs with hint
    · exact push_two rfl (fun _ => nofun) (fun h => hv h.1)
        fun h => .added (.ones (TypeStore.isInt_of_body? h.2 hint))
    · exact hunsupported

theorem compare_supplies (op : BinaryOp) {lhs rhs : Value} (isUnsigned : Bool) (result : TypeId)
    (span : Span) (hl : H → Supplied ctx.toContext F S lhs)
    (hr : H → Supplied ctx.toContext F S rhs) :
    Supplying F (Supplied ctx.toContext F S) J H (compare op lhs rhs isUnsigned result span)
      (Supplied ctx.toContext F S) := by
  have hpush : ∀ {H' : Prop} (operation : Operation),
      (H' → H ∧ operation.operands = [lhs, rhs] ∧ ¬ operation.Mixed) →
      Supplying F (Supplied ctx.toContext F S) J H' (push result operation)
        (Supplied ctx.toContext F S) := by
    intro H' operation hh
    refine push_supplies (fun h => (hh h).2.2) fun h => ?_
    rw [(hh h).2.1]
    exact List.forall_mem_cons.mpr ⟨hl (hh h).1, List.forall_mem_singleton.mpr (hr (hh h).1)⟩
  -- Which comparison it is does not matter, as long as it reads these two.
  have hreads : ∀ {γ : Type} {H' : Prop} (p : Option γ) (f : γ → Operation),
      (∀ a, (f a).operands = [lhs, rhs] ∧ ¬ (f a).Mixed) →
      Supplying F (Supplied ctx.toContext F S) J H' (pure (p.map f)) fun o =>
        ∀ operation, o = some operation →
          operation.operands = [lhs, rhs] ∧ ¬ operation.Mixed := by
    refine fun p f hf => .pure fun _ operation hop => ?_
    obtain ⟨a, -, rfl⟩ := Option.map_eq_some_iff.mp hop
    exact hf a
  refine (expectSameType_supplies lhs rhs span).bind fun _ =>
    (Supplying.body lhs.type).bind fun t => ?_
  dsimp only
  split_ifs
  · exact (hreads (intPredicate? op isUnsigned) (.icmp · lhs rhs) fun _ => ⟨rfl, nofun⟩).bind
      (.ofOption (.throw _) fun operation => hpush operation fun h => ⟨h.1.1.1, h.2 operation rfl⟩)
  · exact (hreads (floatPredicate? op) (.fcmp · lhs rhs) fun _ => ⟨rfl, nofun⟩).bind
      (.ofOption (.throw _) fun operation => hpush operation fun h => ⟨h.1.1.1, h.2 operation rfl⟩)
  · exact (Supplying.ref lhs.type).bind fun _ => (Supplying.throw (Q := fun _ => False) _).bind
      (.ofOption (.throw _) fun operation => hpush operation fun h => h.2.elim)

theorem equal_supplies {lhs rhs : Value} (span : Span) (hl : H → Supplied ctx.toContext F S lhs)
    (hr : H → Supplied ctx.toContext F S rhs) :
    Supplying F (Supplied ctx.toContext F S) J H (equal lhs rhs span)
      (Supplied ctx.toContext F S) :=
  Supplying.bool.bind fun _ =>
    compare_supplies _ _ _ _ (fun h => hl h.1) fun h => hr h.1

theorem unsupportedBinary_supplies {α : Type} {P : Value → Prop} {Q : α → Prop} (op : BinaryOp)
    (type : TypeId) (span : Span) :
    Supplying F P J H (unsupportedBinary op type span : Lower α) Q :=
  (Supplying.ref type).bind fun _ => .throw _

theorem shift_supplies (op : BinaryOp) {lhs rhs : Value} (left : Mark) (span : Span)
    (hl : H → Supplied ctx.toContext F S lhs) (hr : H → Supplied ctx.toContext F S rhs) :
    Supplying F (Supplied ctx.toContext F S) J H (shift ctx.toContext op lhs rhs left span)
      (Supplied ctx.toContext F S) := by
  have hopcode : ∀ {H' : Prop}, Supplying F (Supplied ctx.toContext F S) J H'
      (shiftOpcode ctx.toContext op left) fun opcode => opcode ≠ .or := by
    unfold shiftOpcode
    split
    · exact .pure fun _ => nofun
    · exact (unsigned_supplies _ left).bind fun isUnsigned => .pure fun _ => by
        cases isUnsigned <;> nofun
  have hpush : ∀ {H' : Prop} (count : Value), (H' → H) →
      Supplying F (Supplied ctx.toContext F S) J (H' ∧ Supplied ctx.toContext F S count) (do
        let opcode ← shiftOpcode ctx.toContext op left
        Lower.push lhs.type (.binary opcode lhs count)) (Supplied ctx.toContext F S) :=
    fun count hh => hopcode.bind fun _ =>
      push_two rfl (fun h hmixed => h.2 hmixed.of_binary.1) (fun h => hl (hh h.1.1)) fun h => h.1.2
  refine (Supplying.body lhs.type).bind fun shifted =>
    (Supplying.body rhs.type).bind fun counting => ?_
  split
  · dsimp only
    split_ifs
    · exact Supplying.bind (push_one rfl (fun _ => nofun) fun h => hr h.1.1) fun count =>
        hpush count fun h => h.1.1
    · exact Supplying.bind (push_one rfl (fun _ => nofun) fun h => hr h.1.1) fun count =>
        hpush count fun h => h.1.1
    · exact (Supplying.pure fun h => hr h.1.1).bind fun count => hpush count fun h => h.1.1
  · exact unsupportedBinary_supplies _ _ _

theorem arithmetic_supplies (op : BinaryOp) {lhs rhs : Value} (left : Mark) (span : Span)
    (hl : H → Supplied ctx.toContext F S lhs) (hr : H → Supplied ctx.toContext F S rhs) :
    Supplying F (Supplied ctx.toContext F S) J H (arithmetic ctx.toContext op lhs rhs left span)
      (Supplied ctx.toContext F S) := by
  refine (expectSameType_supplies lhs rhs span).bind fun _ =>
    (Supplying.body lhs.type).bind fun t => ?_
  split
  · rename_i hint
    refine (unsigned_supplies _ left).bind fun isUnsigned => ?_
    split
    · refine Supplying.bind (push_two rfl (fun _ => nofun) (fun h => hr h.1.1.1)
        fun h => .added (.ones (TypeStore.isInt_of_body? h.1.2 hint))) fun inverted => ?_
      exact push_two rfl (fun _ => nofun) (fun h => hl h.1.1.1.1) And.right
    · split
      · exact push_two rfl (fun h hmixed => hmixed.of_binary.2 h.1.1.2) (fun h => hl h.1.1.1)
          fun h => hr h.1.1.1
      · exact unsupportedBinary_supplies _ _ _
  · split
    · split
      · exact push_two rfl (fun h hmixed => hmixed.of_binary.2 h.1.2) (fun h => hl h.1.1)
          fun h => hr h.1.1
      · exact unsupportedBinary_supplies _ _ _
    · exact unsupportedBinary_supplies _ _ _

theorem binary_supplies (m : Mark) (op : BinaryOp) (left : Mark) {lhs rhs : Value}
    (hl : H → Supplied ctx.toContext F S lhs) (hr : H → Supplied ctx.toContext F S rhs) :
    Supplying F (Supplied ctx.toContext F S) J H (binary ctx.toContext m op left lhs rhs)
      (Supplied ctx.toContext F S) := by
  unfold binary
  split_ifs
  · exact (unsigned_supplies _ left).bind fun _ => (boolType_supplies _ m).bind fun _ =>
      compare_supplies _ _ _ _ (fun h => hl h.1.1) fun h => hr h.1.1
  · exact shift_supplies _ _ _ hl hr
  · exact arithmetic_supplies _ _ _ hl hr

theorem callee_supplies {P : Value → Prop} (m : Mark) (e : Expr) :
    Supplying F P J H (callee ctx m e) fun _ => True := by
  unfold callee
  split
  · exact .throw _
  · split
    · exact .pure fun _ => trivial
    · split_ifs <;> exact .throw _

theorem call_supplies (name : String) (sig : Signature) {args : List Value}
    (hargs : H → ∀ v ∈ args, Supplied ctx.toContext F S v) :
    Supplying F (Supplied ctx.toContext F S) J H (call name sig args)
      (Supplied ctx.toContext F S) := by
  refine (Supplying.body sig.ret).bind fun t => ?_
  split
  · rename_i hvoid
    obtain rfl := Ty.isVoid_iff.mp hvoid
    have hreads : H → ∀ v ∈ (Operation.call name args).operands,
        Supplied ctx.toContext F S v := hargs
    refine (Supplying.pushVoid hreads fun _ => nofun).mono And.left fun h v hv => ?_
    rw [hv]
    exact .added (.nothing h.2)
  · exact push_supplies (fun _ => nofun) fun h => hargs h.1

/-- A result that is decided by the left operand alone comes from there with its own truth value. -/
theorem shortCircuit_supplies (m : Mark) (op : BinaryOp) {lhs : Value} {right : Lower Value}
    (hl : H → Supplied ctx.toContext F S lhs)
    (hright : ∀ {H' : Prop}, Supplying F (Supplied ctx.toContext F S) J H' right
      (Supplied ctx.toContext F S)) :
    Supplying F (Supplied ctx.toContext F S) J H (shortCircuit ctx.toContext m op lhs right)
      (Supplied ctx.toContext F S) := by
  have hbranch : ∀ {H' : Prop} {rhsBlock merge : BlockId}, (H' → H) → H' →
      ∀ v ∈ (branchOn op lhs rhsBlock merge).operands, Supplied ctx.toContext F S v := by
    intro H' rhsBlock merge hh h
    rw [operands_branchOn]
    exact List.forall_mem_singleton.mpr (hl (hh h))
  refine Supplying.ensureOpen.bind fun lhsEnd => Supplying.createBlock.bind fun rhsBlock =>
    Supplying.createBlock.bind fun merge =>
    (Supplying.terminate (hbranch fun h => h.1.1.1)).bind fun _ =>
    (Supplying.switchTo _).bind fun _ =>
    hright.outcome.bind fun r => Supplying.ensureOpen.bind fun rhsEnd =>
    (Supplying.terminate (t := .br merge) fun _ => nofun).bind fun _ =>
    (Supplying.switchTo _).bind fun _ =>
    (Supplying.ofOutcome fun h => h.1.1.1.2).bind fun rhs =>
    (boolType_supplies _ m).bind fun type => ?_
  exact push_two rfl (fun _ => nofun) (fun h => .added (.bit h.2)) fun h => h.1.2

end Lower

/-- The values of the parameters are locals. -/
def FnContext.Opens (ctx : FnContext) : Prop :=
  ∀ name v, ctx.scope.lookup name = some v → ∃ id type, v = .ofLocal id type

/-! ## Expressions -/

namespace Expr

open Lower

variable {ctx : FnContext} {F : TypeStore} {S : List Expr} {J : Inst → Prop}

mutual

theorem lower_supplies (hctx : ctx.Opens) (e : Expr) (hleaves : ∀ x ∈ e.leaves, x ∈ S) {H : Prop} :
    Supplying F (Supplied ctx.toContext F S) J H (e.lower ctx) (Supplied ctx.toContext F S) := by
  cases e with
  | lit m kind text =>
    rw [lower]
    exact literal_supplies (hleaves _ (by simp [leaves]))
  | ident m x =>
    rw [lower]
    refine name_supplies (fun y v hv => ?_) (hleaves _ (by simp [leaves]))
    obtain ⟨id, type, rfl⟩ := hctx y v hv
    exact .ofLocal id type
  | paren m inner =>
    rw [lower]
    rw [leaves] at hleaves
    exact lower_supplies hctx inner hleaves
  | unary m op operand =>
    rw [lower]
    rw [leaves] at hleaves
    have hoperand : ∀ {H' : Prop}, Supplying F (Supplied ctx.toContext F S) J H' (do
        let v ← operand.lower ctx
        Lower.unary m op v) (Supplied ctx.toContext F S) :=
      (lower_supplies hctx operand hleaves).bind fun v => unary_supplies m op And.right
    split
    · exact (Supplying.throw (Q := fun _ => True) _).bind fun _ => hoperand
    · exact hoperand
  | binary m op left right =>
    rw [lower]
    rw [leaves, List.forall_mem_append] at hleaves
    split
    · have hright : ∀ {H' : Prop}, Supplying F (Supplied ctx.toContext F S) J H' (do
          let rhs ← right.lower ctx
          Lower.expectBool rhs right.span
          return rhs) (Supplied ctx.toContext F S) :=
        (lower_supplies hctx right hleaves.2).bind fun v =>
          (expectBool_supplies v right.span).bind fun _ => .pure fun h => h.1.2
      exact (lower_supplies hctx left hleaves.1).bind fun v =>
        (expectBool_supplies v left.span).bind fun _ =>
          shortCircuit_supplies m op (fun h => h.1.2) hright
    · exact (lower_supplies hctx left hleaves.1).bind fun v =>
        (lower_supplies hctx right hleaves.2).bind fun w =>
          binary_supplies m op left.mark (fun h => h.1.2) And.right
  | call m callee args =>
    rw [lower]
    rw [leaves] at hleaves
    refine (callee_supplies m callee).bind fun c => ?_
    have hcall : ∀ {H' : Prop}, Supplying F (Supplied ctx.toContext F S) J H' (do
        let values ← lowerArgs ctx args c.2.params
        Lower.call c.1 c.2 values) (Supplied ctx.toContext F S) :=
      (lowerArgs_supplies hctx args c.2.params hleaves).bind fun vs =>
        call_supplies c.1 c.2 And.right
    dsimp only
    split
    · exact (Supplying.throw (Q := fun _ => True) _).bind fun _ => hcall
    · exact hcall
  | selector | index | deref | composite | funcLit =>
    rw [lower]
    exact .throw _

theorem lowerArgs_supplies (hctx : ctx.Opens) (args : List Expr) (params : List TypeId)
    (hleaves : ∀ x ∈ leavesAll args, x ∈ S) {H : Prop} :
    Supplying F (Supplied ctx.toContext F S) J H (lowerArgs ctx args params)
      fun vs => ∀ v ∈ vs, Supplied ctx.toContext F S v := by
  cases args with
  | nil =>
    rw [lowerArgs]
    · exact .pure fun _ => nofun
    · simp
  | cons arg args =>
    cases params with
    | nil => exact .pure fun _ => nofun
    | cons param params =>
      rw [lowerArgs]
      rw [leavesAll, List.forall_mem_append] at hleaves
      exact (lower_supplies hctx arg hleaves.1).bind fun v =>
        (expectParamType_supplies param v arg.span).bind fun _ =>
          (lowerArgs_supplies hctx args params hleaves.2).bind fun vs =>
            .pure fun h => List.forall_mem_cons.mpr ⟨h.1.1.2, h.2⟩

end

end Expr

namespace Lower

variable {ctx : FnContext} {F : TypeStore} {S : List Expr} {J : Inst → Prop} {H : Prop}

/-! ## Statements -/

theorem condition_supplies (hctx : ctx.Opens) (e : Expr) (hleaves : ∀ x ∈ e.leaves, x ∈ S) :
    Supplying F (Supplied ctx.toContext F S) J H (condition ctx e)
      fun o => ∀ v, o = some v → Supplied ctx.toContext F S v := by
  refine (Expr.lower_supplies hctx e hleaves).recover.bind fun r => ?_
  cases r with
  | none => exact .pure fun _ => nofun
  | some v =>
    refine (expectBool_supplies v e.span).recover.bind fun r => ?_
    cases r with
    | none => exact .pure fun _ => nofun
    | some _ => exact .pure fun h => h.1.2

theorem exprStmt_supplies (hctx : ctx.Opens) (e : Expr) (hleaves : ∀ x ∈ e.leaves, x ∈ S) :
    Supplying F (Supplied ctx.toContext F S) J H (do
      let _ ← build Build.ensureOpen
      let _ ← recover (e.lower ctx)) fun _ => True :=
  Supplying.ensureOpen.bind fun _ => (Expr.lower_supplies hctx e hleaves).recover.bind fun _ =>
    .pure fun _ => trivial

theorem openEnd_supplies {P : Value → Prop} : Supplying F P J H openEnd fun _ => True := by
  refine .get fun s => (Supplying.cursorIsOpen _).bind fun o => ?_
  split <;> exact .pure fun _ => trivial

theorem joinAt_supplies {P : Value → Prop} (follow : BlockId) (ends : List (Option BlockId)) :
    ∀ {H : Prop}, Supplying F P J H (joinAt follow ends) fun _ => True := by
  induction ends with
  | nil => exact .pure fun _ => trivial
  | cons last rest ih =>
    intro H
    cases last with
    | none => exact ih
    | some last => exact (Supplying.terminateBlock last fun _ => nofun).bind fun _ => ih

theorem branchOrNext_supplies {cond : Value} (clause : BlockId)
    (hcond : H → Supplied ctx.toContext F S cond) :
    Supplying F (Supplied ctx.toContext F S) J H (branchOrNext cond clause) fun _ => True :=
  Supplying.createBlock.bind fun _ => Supplying.ensureOpen.bind fun _ =>
    (Supplying.terminate (t := .condBr cond clause _)
      fun h => List.forall_mem_singleton.mpr (hcond h.1.1)).bind fun _ => .switchTo _

theorem disjunction_supplies (hJ : ∀ inst, J inst) {lhs rhs : Value}
    (hl : H → Supplied ctx.toContext F S lhs) (hr : H → Supplied ctx.toContext F S rhs) :
    Supplying F (Supplied ctx.toContext F S) J H (disjunction lhs rhs)
      (Supplied ctx.toContext F S) := by
  have hpush : ∀ {H' : Prop} (type : TypeId), (H' → H) →
      Supplying F (Supplied ctx.toContext F S) J H' (push type (.binary .or lhs rhs))
        (Supplied ctx.toContext F S) := by
    intro H' type hh
    have hreads : H' → ∀ v ∈ (Operation.binary .or lhs rhs).operands,
        Supplied ctx.toContext F S v := fun h =>
      List.forall_mem_cons.mpr ⟨hl (hh h), List.forall_mem_singleton.mpr (hr (hh h))⟩
    refine (Supplying.push hreads fun _ _ => hJ).mono (fun h => h) fun _ v hv => ?_
    obtain ⟨id, rfl⟩ := hv
    exact .ofLocal id type
  unfold disjunction
  split
  · exact (Supplying.pure (Q := fun _ => True) fun _ => trivial).bind fun _ => hpush _ And.left
  · exact Supplying.bool.bind fun _ => hpush _ And.left

theorem anyOf_supplies (hJ : ∀ inst, J inst) (hctx : ctx.Opens) (before : Option Value)
    (values : List Expr) (hleaves : ∀ x ∈ Expr.leavesAll values, x ∈ S) :
    ∀ {H : Prop}, (H → ∀ v, before = some v → Supplied ctx.toContext F S v) →
      Supplying F (Supplied ctx.toContext F S) J H (anyOf ctx before values)
        fun o => ∀ v, o = some v → Supplied ctx.toContext F S v := by
  induction values generalizing before with
  | nil => exact fun hbefore => .pure hbefore
  | cons e rest ih =>
    intro H hbefore
    rw [Expr.leavesAll, List.forall_mem_append] at hleaves
    refine (condition_supplies hctx e hleaves.1).bind fun r => ?_
    cases r with
    | none => exact ih before hleaves.2 fun h => hbefore h.1
    | some cond =>
      cases before with
      | none => exact ih (some cond) hleaves.2 And.right
      | some lhs =>
        refine (disjunction_supplies hJ (fun h => hbefore h.1 lhs rfl) fun h => h.2 cond rfl).bind
          fun both => ih (some both) hleaves.2 fun h v hv => ?_
        exact Option.some.inj hv ▸ h.2

theorem testValue_supplies (hctx : ctx.Opens) {tag : Value} (clause : BlockId) (e : Expr)
    (hleaves : ∀ x ∈ e.leaves, x ∈ S) (htag : H → Supplied ctx.toContext F S tag) :
    Supplying F (Supplied ctx.toContext F S) J H (testValue ctx tag clause e) fun _ => True := by
  refine Supplying.ensureOpen.bind fun _ =>
    (Expr.lower_supplies hctx e hleaves).recover.bind fun r => ?_
  cases r with
  | none => exact .pure fun _ => trivial
  | some v =>
    refine (equal_supplies e.span (fun h => htag h.1.1) fun h => h.2 v rfl).recover.bind fun r => ?_
    cases r with
    | none => exact .pure fun _ => trivial
    | some cond => exact branchOrNext_supplies clause fun h => h.2 cond rfl

theorem testValues_supplies (hctx : ctx.Opens) {tag : Value} (clause : BlockId) (values : List Expr)
    (hleaves : ∀ x ∈ Expr.leavesAll values, x ∈ S) :
    ∀ {H : Prop}, (H → Supplied ctx.toContext F S tag) →
      Supplying F (Supplied ctx.toContext F S) J H
        (testValues ctx tag clause values) fun _ => True := by
  induction values with
  | nil => exact fun _ => .pure fun _ => trivial
  | cons e rest ih =>
    intro H htag
    rw [Expr.leavesAll, List.forall_mem_append] at hleaves
    exact (testValue_supplies hctx clause e hleaves.1 htag).bind fun _ =>
      ih hleaves.2 fun h => htag h.1

theorem testConditions_supplies (hJ : ∀ inst, J inst) (hctx : ctx.Opens) (clause : BlockId)
    (values : List Expr) (hleaves : ∀ x ∈ Expr.leavesAll values, x ∈ S) :
    Supplying F (Supplied ctx.toContext F S) J H (testConditions ctx clause values)
      fun _ => True := by
  refine Supplying.ensureOpen.bind fun _ =>
    (anyOf_supplies hJ hctx none values hleaves fun _ => nofun).bind fun r => ?_
  cases r with
  | none => exact .pure fun _ => trivial
  | some cond => exact branchOrNext_supplies clause fun h => h.2 cond rfl

theorem testClauses_supplies (hctx : ctx.Opens) (tag : Option Value)
    (pairs : List (Clause × BlockId)) (hJ : tag = none → ∀ inst, J inst)
    (hleaves : ∀ p ∈ pairs, ∀ x ∈ Expr.leavesAll p.1.values, x ∈ S) :
    ∀ {H : Prop}, (H → ∀ v, tag = some v → Supplied ctx.toContext F S v) →
      Supplying F (Supplied ctx.toContext F S) J H (testClauses ctx tag pairs) fun _ => True := by
  induction pairs with
  | nil => exact fun _ => .pure fun _ => trivial
  | cons p rest ih =>
    intro H htag
    obtain ⟨clause, entry⟩ := p
    obtain ⟨hclause, hrest⟩ := List.forall_mem_cons.mp hleaves
    rw [testClauses.eq_def]
    dsimp only
    split
    · exact Supplying.ensureOpen.bind fun _ =>
        (Supplying.terminate (t := .br entry) fun _ => List.forall_mem_nil _).bind fun _ =>
          ih hrest fun h => htag h.1.1
    · cases tag with
      | none =>
        exact (testConditions_supplies (hJ rfl) hctx entry clause.values hclause).bind fun _ =>
          ih hrest fun _ => by simp
      | some tag =>
        exact (testValues_supplies hctx entry clause.values hclause fun h => htag h tag rfl).bind
          fun _ => ih hrest fun h => htag h.1

theorem createEntries_supplies {P : Value → Prop} (clauses : List Clause) :
    ∀ {H : Prop}, Supplying F P J H (createEntries clauses) fun _ => True := by
  induction clauses with
  | nil => exact .pure fun _ => trivial
  | cons clause rest ih =>
    intro H
    exact Supplying.createBlock.bind fun _ => ih.bind fun _ => .pure fun _ => trivial

theorem switchTag_supplies (hctx : ctx.Opens) (tag : Option Expr)
    (hleaves : ∀ x ∈ tag.elim [] Expr.leaves, x ∈ S) :
    Supplying F (Supplied ctx.toContext F S) J H (switchTag ctx tag)
      fun r => ∀ o, r = some o → ∀ v, o = some v → Supplied ctx.toContext F S v := by
  cases tag with
  | none =>
    refine .pure fun _ o ho v hv => ?_
    rw [← Option.some.inj ho] at hv
    cases hv
  | some e =>
    refine (Expr.lower_supplies hctx e hleaves).recover.bind fun r => .pure fun h o ho v hv => ?_
    obtain ⟨w, hw, rfl⟩ := Option.map_eq_some_iff.mp ho
    exact Option.some.inj hv ▸ h.2 w hw

theorem loopCondition_supplies (hctx : ctx.Opens) (cond : Option Expr)
    (hleaves : ∀ x ∈ cond.elim [] Expr.leaves, x ∈ S) :
    Supplying F (Supplied ctx.toContext F S) J H (loopCondition ctx cond)
      fun o => ∀ v, o = some v → Supplied ctx.toContext F S v := by
  cases cond with
  | none => exact .pure fun _ => nofun
  | some e => exact condition_supplies hctx e hleaves

theorem results_supplies (hctx : ctx.Opens) (es : List Expr)
    (hleaves : ∀ x ∈ Expr.leavesAll es, x ∈ S) :
    ∀ {H : Prop}, Supplying F (Supplied ctx.toContext F S) J H (results ctx es)
      fun o => ∀ vs, o = some vs → ∀ v ∈ vs, Supplied ctx.toContext F S v := by
  induction es with
  | nil =>
    refine .pure fun _ vs hvs => ?_
    obtain rfl := Option.some.inj hvs
    nofun
  | cons e rest ih =>
    intro H
    rw [Expr.leavesAll, List.forall_mem_append] at hleaves
    refine (Expr.lower_supplies hctx e hleaves.1).recover.bind fun r => ?_
    cases r with
    | none => exact .pure fun _ => nofun
    | some v =>
      refine (ih hleaves.2).bind fun r => ?_
      cases r with
      | none => exact .pure fun _ => nofun
      | some vs =>
        refine .pure fun h ws hws => ?_
        obtain rfl := Option.some.inj hws
        exact List.forall_mem_cons.mpr ⟨h.1.2 v rfl, h.2 vs rfl⟩

theorem seal_supplies {P : Value → Prop} {t : Terminator} (h : H → ∀ v ∈ t.operands, P v) :
    Supplying F P J H (do let _ ← build (Build.terminateIfOpen t)) fun _ => True :=
  (Supplying.terminateIfOpen h).bind fun _ => .pure fun _ => trivial

theorem returnValue_supplies (span : Span) {v : Value} (hv : H → Supplied ctx.toContext F S v) :
    Supplying F (Supplied ctx.toContext F S) J H (returnValue span v) fun _ => True := by
  refine .get fun s => (Supplying.body _).bind fun t => ?_
  split_ifs
  · exact seal_supplies fun _ => nofun
  · exact seal_supplies (t := .ret (some v)) fun h => List.forall_mem_singleton.mpr (hv h.1)
  · exact (Supplying.ref _).bind fun _ => (Supplying.ref _).bind fun _ =>
      (Supplying.report _).bind fun _ => seal_supplies fun _ => nofun

theorem returnStmt_supplies (hctx : ctx.Opens) (span : Span) (es : List Expr)
    (hleaves : ∀ x ∈ Expr.leavesAll es, x ∈ S) :
    Supplying F (Supplied ctx.toContext F S) J H (returnStmt ctx span es) fun _ => True := by
  refine Supplying.ensureOpen.bind fun _ => (results_supplies hctx es hleaves).bind fun r => ?_
  split
  · exact seal_supplies fun _ => nofun
  · refine .get fun s => (Supplying.body _).bind fun t => ?_
    split_ifs
    · exact seal_supplies fun _ => nofun
    · exact .throw _
  · rename_i v
    exact returnValue_supplies span fun h => h.2 [v] rfl v (List.mem_singleton_self v)
  · rename_i vs _ _
    refine Supplying.bind ?_ fun v => returnValue_supplies span And.right
    exact (Supplying.growing (Typing.struct_grows _)).bind fun _ =>
      push_supplies (fun _ => nofun) fun h => h.1.2 vs rfl

section

variable {P : Value → Prop}

theorem elseCode_supplies {other : Option (Lower Unit)}
    (ho : ∀ m ∈ other, ∀ {H : Prop}, Supplying F P J H m fun _ => True) :
    Supplying F P J H (elseCode other) fun _ => True := by
  cases other with
  | none => exact .pure fun _ => trivial
  | some m =>
    exact Supplying.createBlock.bind fun _ => (Supplying.switchTo _).bind fun _ =>
      (ho m rfl).bind fun _ => openEnd_supplies.bind fun _ => .pure fun _ => trivial

theorem branch_supplies {m : Lower Unit} {other : Option (Lower Unit)} {cond : Value}
    (hm : ∀ {H : Prop}, Supplying F P J H m fun _ => True)
    (ho : ∀ m ∈ other, ∀ {H : Prop}, Supplying F P J H m fun _ => True) (hcond : H → P cond) :
    Supplying F P J H (branch cond m (elseCode other)) fun _ => True := by
  have hsealed : ∀ {H' : Prop} {i k k' : BlockId}, (H' → H) →
      Supplying F P J H' (build (Build.terminateBlock i (.condBr cond k k'))) fun _ => True :=
    fun hh => .terminateBlock _ fun h => List.forall_mem_singleton.mpr (hcond (hh h))
  refine Supplying.ensureOpen.bind fun _ => Supplying.createBlock.bind fun _ =>
    (Supplying.switchTo _).bind fun _ => hm.bind fun _ => openEnd_supplies.bind fun _ =>
    (elseCode_supplies ho).bind fun r => Supplying.createBlock.bind fun _ => ?_
  cases r with
  | none =>
    exact (joinAt_supplies _ _).bind fun _ => (hsealed fun h => h.1.1.1.1.1.1.1.1).bind fun _ =>
      .switchTo _
  | some =>
    exact (joinAt_supplies _ _).bind fun _ => (hsealed fun h => h.1.1.1.1.1.1.1.1).bind fun _ =>
      .switchTo _

theorem loop_supplies {init body post : Lower Unit} {cond : Lower (Option Value)}
    (hi : ∀ {H : Prop}, Supplying F P J H init fun _ => True)
    (hc : ∀ {H : Prop}, Supplying F P J H cond fun o => ∀ v, o = some v → P v)
    (hb : ∀ {H : Prop}, Supplying F P J H body fun _ => True)
    (hp : ∀ {H : Prop}, Supplying F P J H post fun _ => True) :
    Supplying F P J H (loop init cond body post) fun _ => True := by
  have hleave : ∀ {H' : Prop} {o : Option Value} {k k' : BlockId},
      (H' ∧ ∀ v, o = some v → P v) → ∀ v ∈ (leaveLoop k k' o).operands, P v := by
    intro H' o k k' h
    cases o with
    | none => nofun
    | some v => exact List.forall_mem_singleton.mpr (h.2 v rfl)
  refine Supplying.createBlock.bind fun _ => Supplying.createBlock.bind fun _ =>
    Supplying.createBlock.bind fun _ => Supplying.createBlock.bind fun _ =>
    Supplying.createBlock.bind fun _ => Supplying.ensureOpen.bind fun _ =>
    (Supplying.terminate fun _ => nofun).bind fun _ => (Supplying.switchTo _).bind fun _ =>
    hi.bind fun _ => ?_
  refine (Supplying.terminateIfOpen fun _ => nofun).bind fun _ =>
    (Supplying.switchTo _).bind fun _ =>
    hc.bind fun _ => (Supplying.terminateIfOpen hleave).bind fun _ => ?_
  refine (Supplying.switchTo _).bind fun _ => hb.bind fun _ =>
    (Supplying.terminateIfOpen fun _ => nofun).bind fun _ => (Supplying.switchTo _).bind fun _ =>
    hp.bind fun _ => ?_
  exact (Supplying.terminateIfOpen fun _ => nofun).bind fun _ => .switchTo _

end

end Lower

namespace Stmt

open Lower

variable {ctx : FnContext} {F : TypeStore} {S : List Expr}

theorem leaves_of_mem_clauses {clause : Clause} {clauses : List Clause} (h : clause ∈ clauses)
    {x : Expr} (hx : x ∈ Expr.leavesAll clause.values) : x ∈ leavesClauses clauses := by
  induction clauses with
  | nil => cases h
  | cons c rest ih =>
    obtain ⟨values, body, span⟩ := c
    rw [leavesClauses]
    rcases List.mem_cons.mp h with rfl | h
    · exact List.mem_append_left _ hx
    · exact List.mem_append_right _ (List.mem_append_right _ (ih h))

mutual

theorem lower_supplies (hctx : ctx.Opens) (s : Stmt) (hleaves : ∀ x ∈ s.leaves, x ∈ S) {H : Prop} :
    Supplying F (Supplied ctx.toContext F S) (fun _ => True) H (s.lower ctx) fun _ => True := by
  cases s with
  | block m body =>
    rw [lower]
    rw [leaves] at hleaves
    exact lowerAll_supplies hctx body hleaves
  | empty m =>
    rw [lower]
    exact .pure fun _ => trivial
  | expr m e =>
    rw [lower]
    rw [leaves] at hleaves
    exact exprStmt_supplies hctx e hleaves
  | ifElse m init cond thenBranch other =>
    rw [lower_ifElse]
    simp only [leaves, List.forall_mem_append] at hleaves
    obtain ⟨hinit, hcond, hthen, hother⟩ := hleaves
    refine (lowerOption_supplies hctx init hinit).bind fun _ => Supplying.ensureOpen.bind fun _ =>
      (condition_supplies hctx cond hcond).bind fun r => ?_
    cases r with
    | none => exact .pure fun _ => trivial
    | some v =>
      refine branch_supplies (lower_supplies hctx thenBranch hthen) ?_ fun h => h.2 v rfl
      cases other with
      | none => simp [elseBranch]
      | some s =>
        rw [leavesOption] at hother
        rintro _ ⟨rfl⟩
        exact lower_supplies hctx s hother
  | loop m init cond post body =>
    rw [lower_loop]
    simp only [leaves, List.forall_mem_append] at hleaves
    obtain ⟨hinit, hcond, hpost, hbody⟩ := hleaves
    exact loop_supplies (lowerOption_supplies hctx init hinit)
      (loopCondition_supplies hctx cond hcond)
      (lower_supplies hctx body hbody) (lowerOption_supplies hctx post hpost)
  | switch m init tag clauses =>
    rw [lower_switch]
    simp only [leaves, List.forall_mem_append] at hleaves
    obtain ⟨hinit, htag, hclauses⟩ := hleaves
    refine (lowerOption_supplies hctx init hinit).bind fun _ => Supplying.ensureOpen.bind fun _ =>
      (switchTag_supplies hctx tag htag).bind fun r => ?_
    cases r with
    | none => exact .pure fun _ => trivial
    | some tag =>
      refine (createEntries_supplies clauses).bind fun entries =>
        (testClauses_supplies hctx tag _ (fun _ _ => trivial) (fun p hp x hx => ?_)
          fun h => h.1.2 tag rfl).bind fun _ =>
          openEnd_supplies.bind fun _ =>
          (lowerClauses_supplies hctx clauses entries hclauses).bind fun _ =>
          Supplying.createBlock.bind fun _ => (joinAt_supplies _ _).bind fun _ => .switchTo _
      exact hclauses x (leaves_of_mem_clauses (List.of_mem_zip hp).1 hx)
  | ret m results =>
    rw [lower]
    rw [leaves] at hleaves
    exact returnStmt_supplies hctx m.span results hleaves
  | assign | incDec | jump | varDecl | labeled | defer | go | range =>
    rw [lower]
    exact .throw _

theorem lowerAll_supplies (hctx : ctx.Opens) (body : List Stmt)
    (hleaves : ∀ x ∈ leavesAll body, x ∈ S) {H : Prop} :
    Supplying F (Supplied ctx.toContext F S) (fun _ => True) H
      (lowerAll ctx body) fun _ => True := by
  cases body with
  | nil =>
    rw [lowerAll]
    exact .pure fun _ => trivial
  | cons s rest =>
    rw [lowerAll]
    rw [leavesAll, List.forall_mem_append] at hleaves
    exact (lower_supplies hctx s hleaves.1).bind fun _ => lowerAll_supplies hctx rest hleaves.2

theorem lowerOption_supplies (hctx : ctx.Opens) (s : Option Stmt)
    (hleaves : ∀ x ∈ leavesOption s, x ∈ S) {H : Prop} :
    Supplying F (Supplied ctx.toContext F S) (fun _ => True) H
      (lowerOption ctx s) fun _ => True := by
  cases s with
  | none =>
    rw [lowerOption]
    exact .pure fun _ => trivial
  | some s =>
    rw [lowerOption]
    rw [leavesOption] at hleaves
    exact lower_supplies hctx s hleaves

theorem lowerClauses_supplies (hctx : ctx.Opens) (clauses : List Clause) (entries : List BlockId)
    (hleaves : ∀ x ∈ leavesClauses clauses, x ∈ S) {H : Prop} :
    Supplying F (Supplied ctx.toContext F S) (fun _ => True) H
      (lowerClauses ctx clauses entries) fun _ => True := by
  cases clauses with
  | nil =>
    rw [lowerClauses]
    · exact .pure fun _ => trivial
    · simp
  | cons clause rest =>
    obtain ⟨values, body, span⟩ := clause
    cases entries with
    | nil => exact .pure fun _ => trivial
    | cons entry entries =>
      rw [lowerClauses]
      simp only [leavesClauses, List.forall_mem_append] at hleaves
      obtain ⟨-, hbody, hrest⟩ := hleaves
      exact (Supplying.switchTo _).bind fun _ => (lowerAll_supplies hctx body hbody).bind fun _ =>
        openEnd_supplies.bind fun _ => (lowerClauses_supplies hctx rest entries hrest).bind fun _ =>
          .pure fun _ => trivial

end

end Stmt

theorem Lower.finishBody_supplies {F : TypeStore} {P : Value → Prop} {H : Prop} (function : String)
    (span : Span) : Supplying F P J H (Lower.finishBody function span) fun _ => True := by
  refine .get fun s => (Supplying.cursorIsOpen _).bind fun o => ?_
  split
  · refine (Supplying.body _).bind fun t => ?_
    split
    · exact .terminate fun _ => nofun
    · split
      · exact (Supplying.report _).bind fun _ => .terminate fun _ => nofun
      · exact .terminate fun _ => nofun
  · exact .pure fun _ => trivial

theorem FnContext.opens_bindParams (ctx : Context) (ps : List (Option String × TypeId)) :
    FnContext.Opens { ctx with scope := bindParams 0 ps [] } := by
  intro name v hv
  obtain ⟨before, after, hsplit, -⟩ := List.lookup_eq_some_iff.mp hv
  have hmem : (name, v) ∈ bindParams 0 ps [] := by
    show (name, v) ∈ FnContext.scope { ctx with scope := bindParams 0 ps [] }
    rw [hsplit]
    exact List.mem_append_right _ List.mem_cons_self
  obtain ⟨i, type, hlocal, -⟩ := @bindParams_ofLocal (ps.map Prod.snd) 0 ps []
    (fun i p hp => by simp [hp]) (by simp) (name, v) hmem
  exact ⟨⟨i⟩, type, hlocal⟩

theorem Lower.bodyCode_supplies {ctx : FnContext} (hctx : ctx.Opens) (body : Stmt)
    (function : String) (span : Span) {F : TypeStore} {H : Prop} :
    Supplying F (Supplied ctx.toContext F body.leaves) (fun _ => True) H (do
      body.lower ctx
      Lower.finishBody function span) fun _ => True :=
  (Stmt.lower_supplies hctx body fun _ h => h).bind fun _ => Lower.finishBody_supplies function span

namespace Pass

variable {ctx : Context} {decl : FuncDecl} {span : Span} {s t : Session} {F : TypeStore}

/-- In the code of a function that is lowered, constants are those of the leaves of its body, and
those that lowering adds. -/
theorem function_supplies {fn : Function}
    (hrun : runOn (Pass.function ctx decl span) s = (.ok (some fn), t)) (hF : t.types ≤ F) :
    ∃ body, decl.body = some body ∧ ∀ v ∈ fn.operands, Supplied ctx F body.leaves v := by
  obtain ⟨body, sig, hbody, hsig⟩ := exists_body hrun
  refine ⟨body, hbody, ?_⟩
  obtain ⟨b, hadd, hhead, -, -⟩ := Lower.run_addParams
    (((Field.flatten decl.params).map Prod.fst).zip sig.params)
    (Builder.Headed.start decl.name sig.ret) []
  have hreads : b.Reads (Supplied ctx F body.leaves) := by
    intro i blk hblk v hv
    obtain ⟨-, rfl⟩ := hhead.block?_eq hblk
    cases hv
  have hcode := Lower.bodyCode_supplies (F := F) (H := True) (FnContext.opens_bindParams ctx
    (((Field.flatten decl.params).map Prod.fst).zip sig.params)) body decl.name span
  rw [runOn_function span hbody hsig, Lower.functionBody,
    runOn_bind_ok (Lower.runOn_build_ok hadd)] at hrun
  split at hrun
  · rename_i τ hall
    cases hrun
    exact (((hcode _ _ τ hall).2 hF trivial).1.reads hreads).finish
  · cases hrun

end Pass

end Midend
