import Midend.Proofs.Operators

/-!
# Midend.Proofs.Eval

Lowering of expressions. Whatever becomes of it, the draft afterwards has all that a draft has; and
if there is a value, the code that was added computes what the expression means, with the same
calls.
-/

namespace Midend

open Ir

variable {ctx : FnContext} {g g₁ g' : Draft ctx} {v : Value}

/-- The code from one draft to the other computes in the value what the evaluation yields, with the
calls that the evaluation makes. -/
def Realizes (g g' : Draft ctx) (v : Value)
    (act : ∀ {V : Type}, Scene ctx V → Eval V (Datum V)) : Prop :=
  ∀ ⦃V : Type⦄ (s : Scene ctx V), s.Covers g' → ∀ env calls, s.Fits env →
    ∃ x calls', (act s).run calls = some (x, calls') ∧ s.Computes g g' env calls v x calls'

/-- The same for several values, computed in order. -/
def RealizesAll (g g' : Draft ctx) (vs : List Value)
    (act : ∀ {V : Type}, Scene ctx V → Eval V (List (Datum V))) : Prop :=
  ∀ ⦃V : Type⦄ (s : Scene ctx V), s.Covers g' → ∀ env calls, s.Fits env →
    ∃ xs calls', (act s).run calls = some (xs, calls') ∧
      ∃ env', s.Leads g g' env env' calls calls' ∧ Scene.HoldAll s env' vs xs

theorem Realizes.congr {act act' : ∀ {V : Type}, Scene ctx V → Eval V (Datum V)}
    (h : Realizes g g' v act) (he : ∀ {V : Type} (s : Scene ctx V), act' s = act s) :
    Realizes g g' v act' := by
  intro V s hc env calls hfits
  obtain ⟨x, calls', hx, hrun⟩ := h s hc env calls hfits
  refine ⟨x, calls', ?_, hrun⟩
  show (act' s).run calls = some (x, calls')
  rw [he s]
  exact hx

theorem exprType_evals (m : Mark) (hopen : g.Open g.cur) :
    Evals (Lower.exprType ctx.toContext m) g fun id g' => g'.types.Proper id ∧
      g'.builder = g.builder ∧ ∀ {V : Type} (s : Scene ctx V), s.Covers g' →
        ∀ t, g'.types.body? id = some t → s.world.typeOf m = some t := by
  rw [Lower.exprType, Lower.checkedType]
  cases hchecked : ctx.table.get? m.id with
  | none => exact .throw_bind hopen (f := .report (.missingType m.span)) trivial
  | some checked =>
    rw [pure_bind]
    refine .typing hopen (Typing.ofChecked_adds ctx.config.wordBits m.span checked g.wf) ?_
    intro id types hle hw hid hagain
    refine ⟨hid, rfl, fun s hc t ht => ?_⟩
    have hbody : s.types.body? id = some t := TypeStore.body?_le hc.types ht
    simp [World.typeOf, hchecked, hagain s.types hc.types, hbody]

theorem constant_evals (m : Mark) (c : Const) (hopen : g.Open g.cur) :
    Evals (do return .ofConst c (← Lower.exprType ctx.toContext m)) g fun v g' => g'.Sees v ∧
      Realizes g g' v fun s => do return s.world.constant c (← s.world.typeOf m) := by
  refine (exprType_evals m hopen).bind ?_
  rintro id g₁ hstep ⟨hid, hb, htype⟩
  refine .pure hstep.opened ⟨Draft.sees_const hid, fun _ s hc env calls _ => ?_⟩
  obtain ⟨t, ht⟩ := hid.has
  refine ⟨s.world.constant c t, calls, ?_, .still hb (Scene.holds_const (hc.body? ht))⟩
  simp [htype s hc t ht]

theorem literal_evals (m : Mark) (kind : LiteralKind) (text : String) (hopen : g.Open g.cur) :
    Evals (Lower.literal ctx m kind text) g fun v g' => g'.Sees v ∧
      Realizes g g' v fun s => (Expr.lit m kind text).eval s.world s.names := by
  rw [Lower.literal]
  refine (exprType_evals m hopen).bind ?_
  rintro id g₁ hstep ⟨hid, hb, htype⟩
  have hopen₁ := hstep.opened
  obtain ⟨t, ht⟩ := hid.has
  by_cases hkind : kind = .imaginary
  · rw [if_pos hkind]
    exact .abort_bind hopen₁
  · rw [if_neg hkind]
    refine .body ht ?_
    cases hc : literalConst? t kind text with
    | none => exact .throw hopen₁ (f := .report (.invalidLiteral text m.span)) trivial
    | some c =>
      refine .pure hopen₁ ⟨Draft.sees_const hid, fun _ s hcov env calls _ => ?_⟩
      refine ⟨s.world.constant c t, calls, ?_, .still hb (Scene.holds_const (hcov.body? ht))⟩
      simp [Expr.eval, htype s hcov t ht, hc]

theorem name_evals (m : Mark) (name : String) (hopen : g.Open g.cur) :
    Evals (Lower.name ctx m name) g fun v g' => g'.Sees v ∧
      Realizes g g' v fun s => (Expr.ident m name).eval s.world s.names := by
  rw [Lower.name]
  cases hscope : ctx.scope.lookup name with
  | some v =>
    obtain ⟨hv, id, hid, hlt⟩ := g.scope name v hscope
    refine .pure hopen ⟨⟨hv, fun id' hid' => ?_⟩, fun _ s hc env calls hfits => ?_⟩
    · rw [hid] at hid'
      cases hid'
      exact .inl (g.flow.params g.cur id hlt)
    · obtain ⟨x, hx, id', hid', hlt', harg, htype⟩ := s.named name v hscope
      refine ⟨x, calls, by simp [Expr.eval, hx], .still rfl ⟨?_, htype⟩⟩
      rw [Machine.read, hid']
      exact (hfits id' hlt').trans harg
  | none =>
    have hnone : ∀ {V : Type} (s : Scene ctx V), s.names.lookup name = none :=
      fun s => s.unnamed name hscope
    have hconst : ∀ c, (∀ {V : Type} (s : Scene ctx V), (Expr.ident m name).eval s.world s.names =
        do return s.world.constant c (← s.world.typeOf m)) →
        Evals (do return .ofConst c (← Lower.exprType ctx.toContext m)) g fun v g' => g'.Sees v ∧
          Realizes g g' v fun s => (Expr.ident m name).eval s.world s.names := by
      intro c hmeaning
      exact (constant_evals m c hopen).mono fun v g' _ h => ⟨h.1, Realizes.congr h.2 hmeaning⟩
    by_cases htrue : name = "true"
    · subst htrue
      refine hconst (.bool true) fun s => ?_
      simp [Expr.eval, hnone s]
      rfl
    · rw [if_neg htrue]
      by_cases hfalse : name = "false"
      · subst hfalse
        refine hconst (.bool false) fun s => ?_
        simp [Expr.eval, hnone s]
        rfl
      · rw [if_neg hfalse]
        by_cases hnil : name = "nil"
        · subst hnil
          refine hconst .null fun s => ?_
          simp [Expr.eval, hnone s]
          rfl
        · rw [if_neg hnil]
          by_cases hfunction : (ctx.functions.lookup name).isSome
          · rw [if_pos hfunction]
            exact .abort hopen
          · rw [if_neg hfunction]
            exact .throw hopen (f := .report (.undefinedName name m.span)) trivial

theorem calledName?_eq {V : Type} (s : Scene ctx V) (callee : Expr) :
    calledName? s.names callee = Lower.calleeName? ctx.scope callee := by
  have hsame : ∀ name, (s.names.lookup name).isSome = (ctx.scope.lookup name).isSome := by
    intro name
    cases h : ctx.scope.lookup name with
    | some v =>
      obtain ⟨x, hx, _⟩ := s.named name v h
      simp [hx]
    | none => simp [s.unnamed name h]
  unfold calledName? Lower.calleeName?
  cases callee.unparen with
  | ident _ name => simp only [hsame name]
  | _ => rfl

theorem callee_evals (m : Mark) (callee : Expr) (hopen : g.Open g.cur) :
    Evals (Lower.callee ctx m callee) g fun called g' => g' = g ∧
      Lower.calleeName? ctx.scope callee = some called.1 ∧
        ctx.functions.lookup called.1 = some called.2 := by
  rw [Lower.callee]
  cases hname : Lower.calleeName? ctx.scope callee with
  | none => exact .abort hopen
  | some name =>
    dsimp only
    cases hsig : ctx.functions.lookup name with
    | some sig => exact .pure hopen ⟨rfl, rfl, hsig⟩
    | none =>
      dsimp only
      by_cases hbuiltin : name ∈ builtinNames
      · rw [if_pos hbuiltin]
        exact .abort hopen
      · rw [if_neg hbuiltin]
        split
        · exact .abort hopen
        · exact .throw hopen (f := .report (.undefinedName name callee.span)) trivial

theorem expectParamType_evals {β : Type} {f : Unit → Lower β} {R : β → Draft ctx → Prop}
    {param : TypeId} {span : Span} (hopen : g.Open g.cur) (hp : g.types.Has param)
    (hv : g.types.Has v.type) (hf : v.type = param → Evals (f ()) g R) :
    Evals (Lower.expectParamType param v span >>= f) g R := by
  by_cases hsame : v.type = param
  · refine .next (a := ()) ?_ (hf hsame)
    rw [Lower.expectParamType, if_pos hsame]
    rfl
  · refine .bind (P := fun _ _ => False) ?_ fun _ _ _ h => h.elim
    rw [Lower.expectParamType, if_neg hsame]
    exact .ref hp fun _ => .ref hv fun _ => .throw hopen trivial

theorem call_evals {name : String} {sig : Signature} {args : List Value} (hopen : g.Open g.cur)
    (hsig : ctx.functions.lookup name = some sig) (hargs : ∀ v ∈ args, g.Sees v)
    (htypes : args.map Value.type = sig.params) :
    Evals (Lower.call name sig args) g fun r g' => g'.Sees r ∧
      ∀ {V : Type} (s : Scene ctx V), s.Covers g' → ∀ env calls xs, Scene.HoldAll s env args xs →
        ∃ x calls', (s.world.call name xs).run calls = some (x, calls') ∧
          s.Computes g g' env calls r x calls' := by
  obtain ⟨t, ht⟩ := (g.functions name sig hsig).2
  rw [Lower.call]
  refine .body ht ?_
  by_cases hvoid : t.isVoid
  · rw [if_pos hvoid]
    obtain rfl := Ty.isVoid_iff.mp hvoid
    have hemits : g.Emits sig.ret (.call name args) :=
      .of_sees hopen (.call hsig htypes) rfl hargs
    refine Spec.of_run (g.run_pushVoid hemits ht) ⟨.emit rfl, ?_, ?_⟩
    · exact ⟨⟨⟨_, ht⟩, (fun id hid => by cases hid), fun _ => rfl⟩, fun id hid => by cases hid⟩
    · intro V s hc env calls xs hxs
      have hret : s.types.body? sig.ret = some .void := TypeStore.body?_le hc.types ht
      refine ⟨s.world.constant .void .void, _, ?_, env,
        Scene.leads_emit hc fun prev => Scene.perform_call hxs name prev,
        Scene.holds_const hret⟩
      simp [World.call, hsig, hret, Ty.isVoid]
  · rw [if_neg hvoid]
    have hne : t ≠ .void := fun h => hvoid (Ty.isVoid_iff.mpr h)
    refine (push_evals hopen (.call hsig htypes) rfl hargs ht hne).mono ?_
    rintro r g' hstep ⟨hsees, _, _, hrun⟩
    refine ⟨hsees, fun s hc env calls xs hxs => ?_⟩
    have hret : s.types.body? sig.ret = some t := (hc.of_since hstep.toSince).body? ht
    refine ⟨_, _, ?_, hrun s hc env calls _ _ fun prev => Scene.perform_call hxs name prev⟩
    simp [World.call, hsig, hret, hvoid]

end Midend
