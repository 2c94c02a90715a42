import Midend.Proofs.Link
import Midend.Proofs.ShortCircuit

/-!
# Midend.Proofs.LinkExpr

Lowering an expression in two runs (`Expr.lower_agrees`). Every question that is asked on the way,
of a type, of its text or of whether two types are the same, has the same answer in both.
-/

namespace Midend

open Ir Ir.TypeStore

/-- Two runs in which the same can be named: the functions have the same signatures, the parameters
the same types. -/
structure SameContext (L : Link) (s t : TypeStore) (ctx ctx' : FnContext) : Prop where
  config : ctx'.config = ctx.config
  table : ctx'.table = ctx.table
  /-- The table names no type of an untyped constant. -/
  names : ∀ id c, ctx.table.get? id = some c → ∀ name ∈ c.names, Declarable name
  unsigned : ∀ c, isUnsigned ctx'.declared c = isUnsigned ctx.declared c
  declared : ∀ name, (ctx'.declared.lookup name).isSome = (ctx.declared.lookup name).isSome
  functions : ∀ name, Option.Rel (Typing.SameSignature s t) (ctx.functions.lookup name)
    (ctx'.functions.lookup name)
  scope : ∀ name, Option.Rel (L.Value s t) (ctx.scope.lookup name) (ctx'.scope.lookup name)

theorem Typing.SameSignature.mono {s t s' t' : TypeStore} {sig sig' : Signature}
    (h : SameSignature s t sig sig') (hr : ∀ i j, Alike s t i j → Alike s' t' i j) :
    SameSignature s' t' sig sig' := ⟨h.params.imp hr, hr _ _ h.ret⟩

variable {L : Link} {ctx ctx' : FnContext} {σ σ' τ τ' : FnState}

theorem SameContext.extend {s t s' t' : TypeStore} (hc : SameContext L s t ctx ctx')
    (h : Twin Declarable s t) (hs : Extends Declarable s s') (ht : Extends Declarable t t') :
    SameContext L s' t' ctx ctx' :=
  { hc with
    functions := fun name => (hc.functions name).imp fun _ _ hsig =>
      hsig.mono fun _ _ hij => h.alike hs ht hij
    scope := fun name => (hc.scope name).imp fun _ _ hv => ⟨hv.operand, h.alike hs ht hv.type⟩ }

theorem SameContext.onward (hc : SameContext L σ.types σ'.types ctx ctx') (h : L.Paired σ σ')
    (hon : L.Onward σ σ' τ τ') : SameContext L τ.types τ'.types ctx ctx' :=
  hc.extend h.twin hon.left hon.right

namespace Lower

section

variable (h : L.Paired σ σ')

include h

theorem typeMismatch_agrees {α β : Type} {i j i' j' : TypeId} (hij : Alike σ.types σ'.types i j)
    (hij' : Alike σ.types σ'.types i' j') (span : Span)
    {Q : TypeStore → TypeStore → α → β → Prop} :
    Agrees L (do throw (.report (.typeMismatch (← ref i) (← ref i') span)))
      (do throw (.report (.typeMismatch (← ref j) (← ref j') span))) σ σ' Q := by
  refine (ref_agrees h hij).bind fun text _ τ τ' hon heq => ?_
  obtain rfl := heq
  refine (ref_agrees hon.paired (hon.alike h hij')).bind fun text' _ υ υ' hon' heq => ?_
  obtain rfl := heq
  exact .throw hon'.paired

theorem expectBool_agrees {v v' : Value} (hv : L.Value σ.types σ'.types v v') (span : Span) :
    Agrees L (expectBool v span) (expectBool v' span) σ σ' fun _ _ _ _ => True := by
  refine (body_agrees h hv.type).bind fun a b τ τ' hon hm => ?_
  rw [← hm.isBool]
  split
  · exact .pure hon.paired trivial
  · exact .throw hon.paired

theorem expectSameType_agrees {v v' w w' : Value} (hv : L.Value σ.types σ'.types v v')
    (hw : L.Value σ.types σ'.types w w') (span : Span) :
    Agrees L (expectSameType v w span) (expectSameType v' w' span) σ σ'
      fun _ _ _ _ => v.type = w.type ∧ v'.type = w'.type := by
  have hiff := h.twin.eq_iff hv.type hw.type
  unfold expectSameType
  by_cases heq : v.type = w.type
  · rw [if_pos heq, if_pos (hiff.mp heq)]
    exact .pure h ⟨heq, hiff.mp heq⟩
  · rw [if_neg heq, if_neg (mt hiff.mpr heq)]
    exact typeMismatch_agrees h hv.type hw.type span

theorem expectParamType_agrees {i j : TypeId} (hij : Alike σ.types σ'.types i j) {v v' : Value}
    (hv : L.Value σ.types σ'.types v v') (span : Span) :
    Agrees L (expectParamType i v span) (expectParamType j v' span) σ σ'
      fun _ _ _ _ => True := by
  have hiff := h.twin.eq_iff hv.type hij
  unfold expectParamType
  by_cases heq : v.type = i
  · rw [if_pos heq, if_pos (hiff.mp heq)]
    exact .pure h trivial
  · rw [if_neg heq, if_neg (mt hiff.mpr heq)]
    exact typeMismatch_agrees h hij hv.type span

variable (hc : SameContext L σ.types σ'.types ctx ctx')

include hc

theorem checkedType_agrees (m : Mark) :
    Agrees L (checkedType ctx.toContext m) (checkedType ctx'.toContext m) σ σ'
      fun _ _ c c' => c = c' ∧ ∀ name ∈ c.names, Declarable name := by
  unfold checkedType
  rw [hc.table]
  cases hget : ctx.table.get? m.id with
  | some c => exact .pure h ⟨rfl, hc.names _ _ hget⟩
  | none => exact .throw h

theorem exprType_agrees (m : Mark) :
    Agrees L (exprType ctx.toContext m) (exprType ctx'.toContext m) σ σ'
      fun s t => Alike s t := by
  refine (checkedType_agrees h hc m).bind fun c c' τ τ' hon hcs => ?_
  obtain ⟨rfl, hnames⟩ := hcs
  rw [hc.config]
  refine .typing hon.paired
    (Typing.ofChecked_agrees (fun name hname hdecl => hdecl hname) _ _ c hnames hon.paired.twin)

theorem unsigned_agrees (m : Mark) :
    Agrees L (unsigned ctx.toContext m) (unsigned ctx'.toContext m) σ σ'
      fun _ _ o o' => o = o' := by
  refine (checkedType_agrees h hc m).bind fun c c' τ τ' hon hcs => ?_
  obtain ⟨rfl, _⟩ := hcs
  exact .pure hon.paired (hc.unsigned c).symm

theorem boolType_agrees (m : Mark) :
    Agrees L (boolType ctx.toContext m) (boolType ctx'.toContext m) σ σ'
      fun s t => Alike s t := by
  have hbool : ∀ {τ τ'}, L.Paired τ τ' → Agrees L (typing Typing.bool) (typing Typing.bool) τ τ'
      fun s t => Alike s t := fun hp => .typing hp (Typing.bool_agrees hp.twin)
  unfold boolType
  rw [hc.table, hc.config]
  cases hget : ctx.table.get? m.id with
  | none => exact hbool h
  | some c =>
    have hfound := Typing.ofChecked_agrees (N := Declarable) (fun name hname hdecl => hdecl hname)
      ctx.config.wordBits m.span c (hc.names _ _ hget) h.twin
    refine (Agrees.typing h (Typing.attempt_agrees hfound)).bind fun r r' τ τ' hon hr => ?_
    obtain ⟨i, j, rfl, rfl, hij⟩ | ⟨rfl, rfl⟩ := hr
    · refine (body_agrees hon.paired hij).bind fun a b υ υ' hon' hm => ?_
      rw [← hm.isBool]
      split
      · exact .pure hon'.paired (hon'.alike hon.paired hij)
      · exact hbool hon'.paired
    · exact hbool hon.paired

omit h hc

theorem literalConst?_eq {R : TypeId → TypeId → Prop} {a b : Ty} (hm : a.Matches R b)
    (kind : LiteralKind) (text : String) :
    literalConst? a kind text = literalConst? b kind text := by
  have hnumber : literalConst?.number a = literalConst?.number b := by
    funext n
    simp only [literalConst?.number, hm.isInt, hm.isFloat]
  unfold literalConst?
  rw [hnumber, hm.isInt, hm.isFloat]

include h hc

theorem literal_agrees (m : Mark) (kind : LiteralKind) (text : String) :
    Agrees L (literal ctx m kind text) (literal ctx' m kind text) σ σ' L.Value := by
  refine (exprType_agrees h hc m).bind fun i j τ τ' hon hij => ?_
  by_cases hkind : kind = .imaginary
  · simp only [if_pos hkind]
    exact .throw hon.paired
  · simp only [if_neg hkind]
    refine (body_agrees hon.paired hij).bind fun a b υ υ' hon' hm => ?_
    rw [← literalConst?_eq hm]
    split
    · exact .pure hon'.paired (L.const _ (hon'.alike hon.paired hij))
    · exact .throw hon'.paired

theorem name_agrees (m : Mark) (x : String) :
    Agrees L (name ctx m x) (name ctx' m x) σ σ' L.Value := by
  have hconst : ∀ c, Agrees L (do return .ofConst c (← exprType ctx.toContext m))
      (do return .ofConst c (← exprType ctx'.toContext m)) σ σ' L.Value := fun c =>
    (exprType_agrees h hc m).bind fun i j τ τ' hon hij => .pure hon.paired (L.const c hij)
  unfold name
  cases hv : ctx.scope.lookup x with
  | some v =>
    obtain ⟨v', hv', hvs⟩ := (hc.scope x).some_left hv
    rw [hv']
    exact .pure h hvs
  | none =>
    simp only [(hc.scope x).none_left hv, ← (hc.functions x).isSome_eq]
    split
    · exact hconst _
    split
    · exact hconst _
    split
    · exact hconst _
    split
    · exact .throw h
    · exact .throw h

theorem shiftOpcode_agrees (op : BinaryOp) (left : Mark) :
    Agrees L (shiftOpcode ctx.toContext op left) (shiftOpcode ctx'.toContext op left) σ σ'
      fun _ _ o o' => o = o' := by
  unfold shiftOpcode
  split
  · exact .pure h rfl
  · refine (unsigned_agrees h hc left).bind fun o o' τ τ' hon heq => ?_
    obtain rfl := heq
    exact .pure hon.paired rfl

omit hc

theorem unsupportedBinary_agrees {α β : Type} (op : BinaryOp) {i j : TypeId}
    (hij : Alike σ.types σ'.types i j) (span : Span) {Q : TypeStore → TypeStore → α → β → Prop} :
    Agrees L (unsupportedBinary op i span) (unsupportedBinary op j span) σ σ' Q := by
  refine (ref_agrees h hij).bind fun text _ τ τ' hon heq => ?_
  obtain rfl := heq
  exact .throw hon.paired

theorem unary_agrees (m : Mark) (op : UnaryOp) {v v' : Value}
    (hv : L.Value σ.types σ'.types v v') :
    Agrees L (unary m op v) (unary m op v') σ σ' L.Value := by
  refine (body_agrees h hv.type).bind fun a b τ τ' hon hm => ?_
  have hp := hon.paired
  have hv := hon.value h hv
  have hconst : ∀ c, L.Value τ.types τ'.types (.ofConst c v.type) (.ofConst c v'.type) := fun c =>
    L.const c hv.type
  have hunsupported :
      Agrees L (unary.unsupported m op v) (unary.unsupported m op v') τ τ' L.Value := by
    refine (ref_agrees hp hv.type).bind fun text _ υ υ' hon' heq => ?_
    obtain rfl := heq
    exact .throw hon'.paired
  cases op with
  | plus => exact .pure hp hv
  | neg =>
    dsimp only
    rw [← hm.isInt, ← hm.isFloat]
    split
    · exact push_agrees hp hv.type (.binary _ (hconst _) hv)
    split
    · exact push_agrees hp hv.type (.fneg hv)
    · exact hunsupported
  | not =>
    dsimp only
    rw [← hm.isBool]
    split
    · exact push_agrees hp hv.type (.binary _ hv (hconst _))
    · exact hunsupported
  | bitNot =>
    dsimp only
    rw [← hm.isInt]
    split
    · exact push_agrees hp hv.type (.binary _ hv (hconst _))
    · exact hunsupported
  | addr | recv => exact hunsupported

theorem compare_agrees (op : BinaryOp) {l l' r r' : Value} (hl : L.Value σ.types σ'.types l l')
    (hr : L.Value σ.types σ'.types r r') (unsigned : Bool) {i j : TypeId}
    (hij : Alike σ.types σ'.types i j) (span : Span) :
    Agrees L (compare op l r unsigned i span) (compare op l' r' unsigned j span) σ σ' L.Value := by
  refine (expectSameType_agrees h hl hr span).bind fun _ _ τ τ' hon _ => ?_
  refine (body_agrees hon.paired (hon.alike h hl.type)).bind fun a b υ υ' hon₁ hm => ?_
  have hon₂ := hon.trans hon₁
  have hl := hon₂.value h hl
  have hr := hon₂.value h hr
  have hij := hon₂.alike h hij
  rw [← hm.isInt, ← hm.isFloat]
  split
  · cases intPredicate? op unsigned with
    | some p => exact push_agrees hon₁.paired hij (.icmp p hl hr)
    | none => exact .throw hon₁.paired
  split
  · cases floatPredicate? op with
    | some p => exact push_agrees hon₁.paired hij (.fcmp p hl hr)
    | none => exact .throw hon₁.paired
  · refine (ref_agrees hon₁.paired hl.type).bind fun text _ τ₂ τ₂' hon' heq => ?_
    obtain rfl := heq
    exact .throw hon'.paired

theorem equal_agrees {l l' r r' : Value} (hl : L.Value σ.types σ'.types l l')
    (hr : L.Value σ.types σ'.types r r') (span : Span) :
    Agrees L (equal l r span) (equal l' r' span) σ σ' L.Value :=
  (Agrees.typing h (Typing.bool_agrees h.twin)).bind fun _ _ _ _ hon hij =>
    compare_agrees hon.paired _ (hon.value h hl) (hon.value h hr) _ hij span

include hc

theorem shift_agrees (op : BinaryOp) {l l' r r' : Value} (hl : L.Value σ.types σ'.types l l')
    (hr : L.Value σ.types σ'.types r r') (left : Mark) (span : Span) :
    Agrees L (shift ctx.toContext op l r left span) (shift ctx'.toContext op l' r' left span) σ σ'
      L.Value := by
  refine (body_agrees h hl.type).bind fun a b τ τ' hon hm => ?_
  refine (body_agrees hon.paired (hon.alike h hr.type)).bind fun a₂ b₂ υ υ' hon₁ hm₂ => ?_
  have hon₂ := hon.trans hon₁
  have hl := hon₂.value h hl
  have hr := hon₂.value h hr
  have hshift : ∀ c c' φ φ', L.Onward υ υ' φ φ' → L.Value φ.types φ'.types c c' →
      Agrees L (shiftOpcode ctx.toContext op left >>= fun o => push l.type (.binary o l c))
        (shiftOpcode ctx'.toContext op left >>= fun o => push l'.type (.binary o l' c')) φ φ'
          L.Value := by
    intro c c' φ φ' hon' hcount
    refine (shiftOpcode_agrees hon'.paired (hc.onward h (hon₂.trans hon')) op left).bind
      fun o _ ψ ψ' hon₃ heq => ?_
    obtain rfl := heq
    have hl := (hon'.trans hon₃).value hon₁.paired hl
    exact push_agrees hon₃.paired hl.type (.binary o hl (hon₃.value hon'.paired hcount))
  rw [← hm.intBits?, ← hm₂.intBits?]
  split
  · split
    · exact (push_agrees hon₁.paired hl.type (.cast _ hr)).bind fun c c' φ φ' hon' hcount =>
        hshift c c' φ φ' hon' hcount
    split
    · exact (push_agrees hon₁.paired hl.type (.cast _ hr)).bind fun c c' φ φ' hon' hcount =>
        hshift c c' φ φ' hon' hcount
    · exact hshift _ _ _ _ (.refl hon₁.paired) hr
  · exact unsupportedBinary_agrees hon₁.paired op hl.type span

theorem arithmetic_agrees (op : BinaryOp) {l l' r r' : Value} (hl : L.Value σ.types σ'.types l l')
    (hr : L.Value σ.types σ'.types r r') (left : Mark) (span : Span) :
    Agrees L (arithmetic ctx.toContext op l r left span)
      (arithmetic ctx'.toContext op l' r' left span) σ σ' L.Value := by
  refine (expectSameType_agrees h hl hr span).bind fun _ _ τ τ' hon _ => ?_
  refine (body_agrees hon.paired (hon.alike h hl.type)).bind fun a b υ υ' hon₁ hm => ?_
  have hon₂ := hon.trans hon₁
  have hp := hon₁.paired
  have hl := hon₂.value h hl
  have hr := hon₂.value h hr
  rw [← hm.isInt, ← hm.isFloat]
  split
  · refine (unsigned_agrees hp (hc.onward h hon₂) left).bind fun o _ φ φ' hon' heq => ?_
    obtain rfl := heq
    have hl := hon'.value hp hl
    have hr := hon'.value hp hr
    split
    · have hconst : ∀ c, L.Value φ.types φ'.types (.ofConst c l.type) (.ofConst c l'.type) :=
        fun c => L.const c hl.type
      refine (push_agrees hon'.paired hl.type (.binary _ hr (hconst _))).bind
        fun w w' ψ ψ' hon₃ hw => ?_
      have hl := hon₃.value hon'.paired hl
      exact push_agrees hon₃.paired hl.type (.binary _ hl hw)
    · cases intOpcode? op o with
      | some opcode => exact push_agrees hon'.paired hl.type (.binary _ hl hr)
      | none => exact unsupportedBinary_agrees hon'.paired op hl.type span
  split
  · cases floatOpcode? op with
    | some opcode => exact push_agrees hp hl.type (.binary _ hl hr)
    | none => exact unsupportedBinary_agrees hp op hl.type span
  · exact unsupportedBinary_agrees hp op hl.type span

theorem binary_agrees (m : Mark) (op : BinaryOp) (left : Mark) {l l' r r' : Value}
    (hl : L.Value σ.types σ'.types l l') (hr : L.Value σ.types σ'.types r r') :
    Agrees L (binary ctx.toContext m op left l r) (binary ctx'.toContext m op left l' r') σ σ'
      L.Value := by
  unfold binary
  split
  · refine (unsigned_agrees h hc left).bind fun o _ τ τ' hon heq => ?_
    obtain rfl := heq
    refine (boolType_agrees hon.paired (hc.onward h hon) m).bind fun i j υ υ' hon₁ hij => ?_
    have hon₂ := hon.trans hon₁
    exact compare_agrees hon₁.paired op (hon₂.value h hl) (hon₂.value h hr) o hij m.span
  split
  · exact shift_agrees h hc op hl hr left m.span
  · exact arithmetic_agrees h hc op hl hr left m.span

theorem callee_agrees (m : Mark) (e : Expr) :
    Agrees L (callee ctx m e) (callee ctx' m e) σ σ' fun s t c c' =>
      c.1 = c'.1 ∧ Typing.SameSignature s t c.2 c'.2 := by
  have hname : calleeName? ctx'.scope e = calleeName? ctx.scope e := by
    unfold calleeName?
    split
    · rw [(hc.scope _).isSome_eq]
    · rfl
  unfold callee
  rw [hname]
  split
  · exact .throw h
  · next x _ =>
    cases hf : ctx.functions.lookup x with
    | some sig =>
      obtain ⟨sig', hf', hsame⟩ := (hc.functions x).some_left hf
      rw [hf']
      exact .pure h ⟨rfl, hsame⟩
    | none =>
      simp only [(hc.functions x).none_left hf, hc.declared x]
      split
      · exact .throw h
      split
      · exact .throw h
      · exact .throw h

omit hc

theorem call_agrees (x : String) {sig sig' : Signature}
    (hsig : Typing.SameSignature σ.types σ'.types sig sig') {vs vs' : List Value}
    (hvs : List.Forall₂ (L.Value σ.types σ'.types) vs vs') :
    Agrees L (call x sig vs) (call x sig' vs') σ σ' L.Value := by
  refine (body_agrees h hsig.ret).bind fun a b τ τ' hon hm => ?_
  have hret := hon.alike h hsig.ret
  have hop := Operation.Matches.call (K := L.block) x (hon.values h hvs)
  rw [← hm.isVoid]
  split
  · exact (Agrees.build hon.paired (L.pushVoid hret hop)).mono fun v v' υ υ' hon' hv =>
      hon'.value hon.paired hv
  · exact push_agrees hon.paired hret hop

end

end Lower

/-! ## Expressions -/

namespace Expr

open Lower

def pickResult (ctx : Context) (m : Mark) (op : BinaryOp) (lhsEnd merge : BlockId)
    (rhs : Except Fault Value) : Lower Value := do
  let rhsEnd ← Lower.build Build.ensureOpen
  Lower.build (Build.terminate (.br merge))
  Lower.build (Build.switchTo merge)
  let rhs ← Lower.ofOutcome rhs
  let type ← Lower.boolType ctx m
  let decided : Value := .ofConst (.bool (op = .logicalOr)) type
  Lower.push type (.phi [(decided, lhsEnd), (rhs, rhsEnd)])

/-- `&&` and `||` after the left operand. An error in the right operand is reported when both blocks
are sealed. -/
theorem shortCircuit_agrees (h : L.Paired σ σ') (hc : SameContext L σ.types σ'.types ctx ctx')
    (m : Mark) (op : BinaryOp) {l l' : Value} (hl : L.Value σ.types σ'.types l l')
    {right right' : Lower Value}
    (hright : ∀ {τ τ'}, L.Paired τ τ' → SameContext L τ.types τ'.types ctx ctx' →
      Agrees L right right' τ τ' L.Value) :
    Agrees L (shortCircuit ctx.toContext m op l right) (shortCircuit ctx'.toContext m op l' right')
      σ σ' L.Value := by
  refine (Agrees.build h L.ensureOpen).bind fun k k' τ₁ τ₁' hon₁ hk => ?_
  refine (Agrees.build hon₁.paired L.createBlock).bind fun r r' τ₂ τ₂' hon₂ hr => ?_
  refine (Agrees.build hon₂.paired L.createBlock).bind fun j j' τ₃ τ₃' hon₃ hj => ?_
  have hon := (hon₁.trans hon₂).trans hon₃
  have hbranch : (branchOn op l r j).Matches (L.Value τ₃.types τ₃'.types) L.block
      (branchOn op l' r' j') := by
    unfold branchOn
    split
    · exact .condBr (hon.value h hl) hr hj
    · exact .condBr (hon.value h hl) hj hr
  refine (Agrees.build hon₃.paired (L.terminate hbranch)).bind fun _ _ τ₄ τ₄' hon₄ _ => ?_
  refine (Agrees.build hon₄.paired (L.switchTo hr)).bind fun _ _ τ₅ τ₅' hon₅ _ => ?_
  have hon := (hon.trans hon₄).trans hon₅
  -- What happens once the right operand has ended, in whatever way.
  have hmerge : ∀ {o o' : Except Fault Value} {υ υ'}, L.Onward σ σ' υ υ' →
      (∀ φ φ', L.Onward υ υ' φ φ' → Agrees L (ofOutcome o) (ofOutcome o') φ φ' L.Value) →
      Agrees L (pickResult ctx.toContext m op k j o) (pickResult ctx'.toContext m op k' j' o') υ υ'
        L.Value := by
    intro o o' υ υ' hup houtcome
    refine (Agrees.build hup.paired L.ensureOpen).bind fun e e' φ₁ φ₁' up₁ he => ?_
    refine (Agrees.build up₁.paired (L.terminate (.br hj))).bind fun _ _ φ₂ φ₂' up₂ _ => ?_
    refine (Agrees.build up₂.paired (L.switchTo hj)).bind fun _ _ φ₃ φ₃' up₃ _ => ?_
    have up := (up₁.trans up₂).trans up₃
    refine (houtcome φ₃ φ₃' up).bind fun v v' φ₄ φ₄' up₄ hv => ?_
    have hc := hc.onward h ((hup.trans up).trans up₄)
    refine (boolType_agrees up₄.paired hc m).bind fun i i' φ₅ φ₅' up₅ hi => ?_
    refine push_agrees up₅.paired hi (.phi (.cons ⟨L.const _ hi, hk⟩ (.cons ⟨?_, he⟩ .nil)))
    exact up₅.value up₄.paired hv
  have hbreaks : ∀ (ctx : Context) k j (e : Breach), ¬ e.OnTypes → ∀ υ,
      Breaks (pickResult ctx m op k j (.error (.breach e))) υ := fun ctx k j e he υ =>
    .build_bind .ensureOpen fun _ _ => .build_bind (.terminate _) fun _ _ =>
      .build_bind (.switchTo _) fun _ υ => .bind ⟨e, he, υ, runOn_ofOutcome _ υ⟩
  refine Agrees.outcome_bind (hright hon₅.paired (hc.onward h hon)) (hbreaks _ _ _) (hbreaks _ _ _)
    (fun v v' υ υ' up hv => hmerge (hon.trans up) fun φ φ' up' => ?_)
    fun e υ υ' up => hmerge (hon.trans up) fun φ φ' up' => .ofOutcome_error up'.paired e
  exact .pure up'.paired (up'.value up.paired hv)

mutual

theorem lower_agrees (e : Expr) {σ σ' : FnState} (h : L.Paired σ σ')
    (hc : SameContext L σ.types σ'.types ctx ctx') :
    Agrees L (e.lower ctx) (e.lower ctx') σ σ' L.Value := by
  cases e with
  | lit m kind text =>
    rw [lower, lower]
    exact literal_agrees h hc m kind text
  | ident m x =>
    rw [lower, lower]
    exact name_agrees h hc m x
  | paren m inner =>
    rw [lower, lower]
    exact lower_agrees inner h hc
  | unary m op operand =>
    rw [lower, lower]
    by_cases hop : op = .addr ∨ op = .recv
    · simp only [if_pos hop]
      exact .throw h
    · simp only [if_neg hop]
      exact (lower_agrees operand h hc).bind fun v v' τ τ' hon hv => unary_agrees hon.paired m op hv
  | binary m op left right =>
    rw [lower, lower]
    split
    · refine (lower_agrees left h hc).bind fun l l' τ₁ τ₁' hon₁ hl => ?_
      refine (expectBool_agrees hon₁.paired hl left.span).bind fun _ _ τ₂ τ₂' hon₂ _ => ?_
      refine shortCircuit_agrees hon₂.paired (hc.onward h (hon₁.trans hon₂)) m op
        (hon₂.value hon₁.paired hl) fun hp hc => ?_
      refine (lower_agrees right hp hc).bind fun r r' υ υ' up hr => ?_
      refine (expectBool_agrees up.paired hr right.span).bind fun _ _ φ φ' up' _ => ?_
      exact .pure up'.paired (up'.value up.paired hr)
    · refine (lower_agrees left h hc).bind fun l l' τ τ' hon hl => ?_
      refine (lower_agrees right hon.paired (hc.onward h hon)).bind fun r r' υ υ' hon₁ hr => ?_
      exact binary_agrees hon₁.paired (hc.onward h (hon.trans hon₁)) m op left.mark
        (hon₁.value hon.paired hl) hr
  | call m callee args =>
    rw [lower, lower]
    refine (callee_agrees h hc m callee).bind fun c c' τ τ' hon hcallee => ?_
    obtain ⟨x, sig⟩ := c
    obtain ⟨x', sig'⟩ := c'
    obtain ⟨heq, hsig⟩ := hcallee
    cases heq
    dsimp only
    rw [hsig.params.length_eq]
    by_cases hlen : args.length ≠ sig'.params.length
    · simp only [if_pos hlen]
      exact .throw hon.paired
    · simp only [if_neg hlen]
      refine (lowerArgs_agrees args hon.paired (hc.onward h hon) hsig.params).bind
        fun vs vs' υ υ' hon₁ hvs => ?_
      exact call_agrees hon₁.paired x (hsig.mono fun _ _ hij => hon₁.alike hon.paired hij) hvs
  | selector | index | deref | composite | funcLit =>
    rw [lower, lower]
    exact .throw h

theorem lowerArgs_agrees (args : List Expr) {σ σ' : FnState} (h : L.Paired σ σ')
    (hc : SameContext L σ.types σ'.types ctx ctx') {is js : List TypeId}
    (hij : List.Forall₂ (Alike σ.types σ'.types) is js) :
    Agrees L (lowerArgs ctx args is) (lowerArgs ctx' args js) σ σ' fun s t =>
      List.Forall₂ (L.Value s t) := by
  cases args with
  | nil =>
    cases hij <;> exact .pure h .nil
  | cons arg args =>
    cases hij with
    | nil => exact .pure h .nil
    | cons hij hrest =>
      rw [lowerArgs, lowerArgs]
      refine (lower_agrees arg h hc).bind fun v v' τ τ' hon₁ hv => ?_
      refine (expectParamType_agrees hon₁.paired (hon₁.alike h hij) hv arg.span).bind
        fun _ _ υ υ' hon₂ _ => ?_
      have hon := hon₁.trans hon₂
      refine (lowerArgs_agrees args hon₂.paired (hc.onward h hon)
        (hrest.imp fun _ _ hij => hon.alike h hij)).bind fun vs vs' φ φ' hon₃ hvs => ?_
      exact .pure hon₃.paired (.cons ((hon₂.trans hon₃).value hon₁.paired hv) hvs)

end

end Expr

end Midend
