import Midend.Proofs.ShortCircuit

/-!
# Midend.Proofs.Expr

Lowering of whole expressions, by induction on the expression.
-/

namespace Midend

open Ir

variable {ctx : FnContext} {g g₁ g₂ g' : Draft ctx} {v lhs rhs r : Value}

theorem Realizes.map {act : ∀ {V : Type}, Scene ctx V → Eval V (Datum V)}
    {f : ∀ {V : Type}, World V → Datum V → Option (Datum V)} (h : Realizes g g₁ v act)
    (hstep : g.EvalStep g₁) (hstep' : g₁.EvalStep g') (hm : Maps g₁ g' v r f) :
    Realizes g g' r fun s => (do
      let x ← act s
      f s.world x) := by
  intro V s hc env calls hfits
  obtain ⟨x, calls₁, hx, env₁, hlead, hholds⟩ :=
    h s (hc.of_since hstep'.toSince) env calls hfits
  obtain ⟨y, hy, hrun⟩ := hm s hc env₁ calls₁ x hholds
  refine ⟨y, calls₁, ?_, hrun.after hlead hstep.builder⟩
  simp [hx, hy]

theorem Realizes.join {act act' : ∀ {V : Type}, Scene ctx V → Eval V (Datum V)}
    {f : ∀ {V : Type}, World V → Datum V → Datum V → Option (Datum V)}
    (h : Realizes g g₁ lhs act) (hstep : g.EvalStep g₁) (hl : g₁.Sees lhs)
    (h' : Realizes g₁ g₂ rhs act') (hstep' : g₁.EvalStep g₂) (hstep'' : g₂.EvalStep g')
    (hj : Joins g₂ g' lhs rhs r f) :
    Realizes g g' r fun s => (do
      let x ← act s
      let y ← act' s
      f s.world x y) := by
  intro V s hc env calls hfits
  have hc₂ := hc.of_since hstep''.toSince
  have hc₁ := hc₂.of_since hstep'.toSince
  obtain ⟨x, calls₁, hx, env₁, hlead, hxv⟩ := h s hc₁ env calls hfits
  have hc₀ := hc₁.of_since hstep.toSince
  obtain ⟨y, calls₂, hy, env₂, hlead', hyv⟩ :=
    h' s hc₂ env₁ calls₁ (hlead.fits hc₀ hfits)
  obtain ⟨z, hz, hrun⟩ := hj s hc env₂ calls₂ x y (hlead'.holds hl.typed hxv) hyv
  refine ⟨z, calls₂, ?_,
    hrun.after (hlead.trans hlead' hstep.builder) (hstep.trans hstep').builder⟩
  simp [hx, hy, hz]

theorem RealizesAll.nil : RealizesAll g g [] fun s => Expr.evalAll s.world s.names [] :=
  fun _ _ _ env calls _ => ⟨[], calls, by simp [Expr.evalAll], env, .still rfl, .nil⟩

theorem RealizesAll.cons {e : Expr} {rest : List Expr} {vs : List Value} (hv : g₁.Sees v)
    (hstep : g.EvalStep g₁) (hstep' : g₁.EvalStep g')
    (h : Realizes g g₁ v fun s => e.eval s.world s.names)
    (hrest : RealizesAll g₁ g' vs fun s => Expr.evalAll s.world s.names rest) :
    RealizesAll g g' (v :: vs) fun s => Expr.evalAll s.world s.names (e :: rest) := by
  intro V s hc env calls hfits
  have hc₁ := hc.of_since hstep'.toSince
  obtain ⟨x, calls₁, hx, env₁, hlead, hxv⟩ := h s hc₁ env calls hfits
  obtain ⟨xs, calls₂, hxs, env₂, hlead₂, hxvs⟩ :=
    hrest s hc env₁ calls₁ (hlead.fits (hc₁.of_since hstep.toSince) hfits)
  exact ⟨x :: xs, calls₂, by simp [Expr.evalAll, hx, hxs], env₂,
    hlead.trans hlead₂ hstep.builder, .cons (hlead₂.holds hv.typed hxv) hxvs⟩

theorem expectBool_evals (span : Span) (hopen : g.Open g.cur) (hv : g.types.Has v.type) :
    Evals (Lower.expectBool v span) g fun _ g' => g' = g ∧ g.types.IsBool v.type := by
  obtain ⟨t, ht⟩ := hv
  rw [Lower.expectBool]
  refine .body ht ?_
  by_cases hbool : t.isBool
  · obtain rfl := Ty.isBool_iff.mp hbool
    rw [if_pos hbool]
    exact .pure hopen ⟨rfl, ht⟩
  · rw [if_neg hbool]
    exact .throw hopen (f := .report (.nonBoolCondition span)) trivial

theorem boolOperand_evals {α : Type} {m : Lower Value} {span : Span} {k : Value → Lower α}
    {act : ∀ {V : Type}, Scene ctx V → Eval V (Datum V)} {P : α → Draft ctx → Prop}
    (hm : Evals m g fun v g₁ => g₁.Sees v ∧ Realizes g g₁ v act)
    (hk : ∀ v g₁, g.EvalStep g₁ → g₁.Sees v → g₁.types.IsBool v.type → Realizes g g₁ v act →
      Evals (k v) g₁ P) :
    Evals (do
      let v ← m
      Lower.expectBool v span
      k v) g P := by
  refine hm.bind ?_
  rintro v g₁ hstep ⟨hsees, hrealizes⟩
  refine (expectBool_evals span hstep.opened hsees.typed.has).bind ?_
  rintro _ _ - ⟨rfl, hbool⟩
  exact hk v _ hstep hsees hbool hrealizes

namespace Expr

theorem realizes_logical {m : Mark} {op : BinaryOp} {left right : Expr}
    (hop : op = .logicalAnd ∨ op = .logicalOr) (hstep : g.EvalStep g₁) (hstep' : g₁.EvalStep g')
    (hleft : Realizes g g₁ lhs fun s => left.eval s.world s.names)
    (hright : RealizesShort g₁ g' op lhs r fun s => right.eval s.world s.names) :
    Realizes g g' r fun s => (binary m op left right).eval s.world s.names := by
  intro V s hc env calls hfits
  have hc₁ : s.Covers g₁ := hc.of_since hstep'.toSince
  obtain ⟨x, calls₁, hx, env₁, hlead, hxv⟩ := hleft s hc₁ env calls hfits
  have hrest := hright s hc env₁ calls₁ (hlead.fits (hc₁.of_since hstep.toSince) hfits) x hxv
  by_cases hdecided : s.interp.holds x.value = decide (op = .logicalOr)
  · rw [if_pos hdecided] at hrest
    refine ⟨_, calls₁, ?_, hrest.after hlead hstep.builder⟩
    rcases hop with rfl | rfl <;> simp_all [eval]
  · rw [if_neg hdecided] at hrest
    obtain ⟨y, calls₂, hy, hcomputes⟩ := hrest
    refine ⟨_, calls₂, ?_, hcomputes.after hlead hstep.builder⟩
    rcases hop with rfl | rfl <;> simp_all [eval]

theorem realizes_call {m : Mark} {callee : Expr} {args : List Expr} {name : String}
    {vs : List Value} (hname : Lower.calleeName? ctx.scope callee = some name)
    (hstep : g.EvalStep g₁) (hstep' : g₁.EvalStep g')
    (hargs : RealizesAll g g₁ vs fun s => evalAll s.world s.names args)
    (hcall : ∀ {V : Type} (s : Scene ctx V), s.Covers g' → ∀ env calls xs,
      Scene.HoldAll s env vs xs → ∃ x calls', (s.world.call name xs).run calls = some (x, calls') ∧
        s.Computes g₁ g' env calls r x calls') :
    Realizes g g' r fun s => (call m callee args).eval s.world s.names := by
  intro V s hc env calls hfits
  obtain ⟨xs, calls₁, hxs, env₁, hlead, hvs⟩ :=
    hargs s (hc.of_since hstep'.toSince) env calls hfits
  obtain ⟨x, calls₂, hx, hcomputes⟩ := hcall s hc env₁ calls₁ xs hvs
  have hcalled : calledName? s.names callee = some name := (calledName?_eq s callee).trans hname
  refine ⟨x, calls₂, ?_, hcomputes.after hlead hstep.builder⟩
  simp [eval, hcalled, hxs, hx]

mutual

theorem lower_evals (e : Expr) (g : Draft ctx) (hopen : g.Open g.cur) :
    Evals (e.lower ctx) g fun v g' => g'.Sees v ∧
      Realizes g g' v fun s => e.eval s.world s.names := by
  cases e with
  | lit m kind text => exact literal_evals m kind text hopen
  | ident m name => exact name_evals m name hopen
  | paren m inner =>
    rw [lower]
    refine (lower_evals inner g hopen).mono fun v g' _ h => ⟨h.1, Realizes.congr h.2 fun s => ?_⟩
    rw [eval]
  | unary m op operand =>
    rw [lower]
    by_cases hunsupported : op = .addr ∨ op = .recv
    · rw [if_pos hunsupported]
      exact .abort_bind hopen
    · rw [if_neg hunsupported]
      refine (lower_evals operand g hopen).bind ?_
      rintro v g₁ hstep ⟨hsees, hrealizes⟩
      refine (unary_evals m op hstep.opened hsees).mono fun r g' hstep' h => ⟨h.1, ?_⟩
      refine Realizes.congr (Realizes.map hrealizes hstep hstep' h.2) fun s => ?_
      rw [eval]
  | binary m op left right =>
    rw [lower]
    by_cases hop : op = .logicalAnd ∨ op = .logicalOr
    · rw [if_pos hop]
      have hright : ∀ g : Draft ctx, g.Open g.cur → Evals (do
          let rhs ← right.lower ctx
          Lower.expectBool rhs right.span
          return rhs) g fun v g' => g'.Sees v ∧ g'.types.IsBool v.type ∧
            Realizes g g' v fun s => right.eval s.world s.names :=
        fun g hopen => boolOperand_evals (lower_evals right g hopen)
          fun _ _ hstep hsees hbool hrealizes => .pure hstep.opened ⟨hsees, hbool, hrealizes⟩
      refine boolOperand_evals (lower_evals left g hopen)
        fun lhs g₁ hstep hsees hbool hrealizes => ?_
      refine (shortCircuit_evals hop hstep.opened hsees hbool hright).mono ?_
      rintro r g' hstep' ⟨hsees', hshort⟩
      exact ⟨hsees', realizes_logical hop hstep hstep' hrealizes hshort⟩
    · rw [if_neg hop]
      refine (lower_evals left g hopen).bind ?_
      rintro lhs g₁ hstep ⟨hsees, hrealizes⟩
      refine (lower_evals right g₁ hstep.opened).bind ?_
      rintro rhs g₂ hstep' ⟨hsees', hrealizes'⟩
      refine (binary_evals m op left.mark hstep'.opened (hstep'.seen hsees) hsees').mono ?_
      rintro r g' hstep'' ⟨hsees'', hjoins⟩
      refine ⟨hsees'', Realizes.congr
        (Realizes.join hrealizes hstep hsees hrealizes' hstep' hstep'' hjoins) fun s => ?_⟩
      rw [eval]
      cases op <;> first | rfl | simp at hop
  | call m callee args =>
    rw [lower]
    refine (callee_evals m callee hopen).bind ?_
    rintro ⟨name, sig⟩ g₁ hstep ⟨hg, hname, hsig⟩
    obtain rfl := hg
    by_cases hlength : args.length ≠ sig.params.length
    · simp only [if_pos hlength]
      exact .throw_bind hopen
        (f := .report (.argumentCount name sig.params.length args.length m.span)) trivial
    · simp only [if_neg hlength]
      have hparams : ∀ param ∈ sig.params, g₁.types.Has param :=
        fun param hp => ((g₁.functions name sig hsig).1 param hp).has
      refine (lowerArgs_evals args sig.params g₁ hopen (not_not.mp hlength) hparams).bind ?_
      rintro vs g₂ hstep₂ ⟨hsees, htypes, hrealizes⟩
      refine (call_evals hstep₂.opened hsig hsees htypes).mono ?_
      rintro r g' hstep' ⟨hsees', hrun⟩
      exact ⟨hsees', realizes_call hname hstep₂ hstep' hrealizes hrun⟩
  | selector m object field => rw [lower]; exact .abort hopen
  | index m object place => rw [lower]; exact .abort hopen
  | deref m pointer => rw [lower]; exact .abort hopen
  | composite m type elems => rw [lower]; exact .abort hopen
  | funcLit m => rw [lower]; exact .abort hopen

theorem lowerArgs_evals (args : List Expr) (params : List TypeId) (g : Draft ctx)
    (hopen : g.Open g.cur) (hlength : args.length = params.length)
    (hparams : ∀ param ∈ params, g.types.Has param) :
    Evals (lowerArgs ctx args params) g fun vs g' => (∀ v ∈ vs, g'.Sees v) ∧
      vs.map Value.type = params ∧ RealizesAll g g' vs fun s => evalAll s.world s.names args := by
  cases args with
  | nil =>
    cases params with
    | nil =>
      rw [lowerArgs]
      · exact .pure hopen ⟨by simp, rfl, .nil⟩
      · simp
    | cons param params => simp at hlength
  | cons arg args =>
    cases params with
    | nil => simp at hlength
    | cons param params =>
      rw [lowerArgs]
      refine (lower_evals arg g hopen).bind ?_
      rintro v g₁ hstep ⟨hsees, hrealizes⟩
      have hparams₁ : ∀ p ∈ param :: params, g₁.types.Has p :=
        fun p hp => (hparams p hp).le hstep.types
      refine expectParamType_evals hstep.opened (hparams₁ param (by simp)) hsees.typed.has
        fun htype => ?_
      refine (lowerArgs_evals args params g₁ hstep.opened (by simpa using hlength)
        fun p hp => hparams₁ p (by simp [hp])).bind ?_
      rintro vs g₂ hstep₂ ⟨hsees₂, htypes, hrealizes₂⟩
      refine .pure hstep₂.opened ⟨fun w hw => ?_, by simp [htype, htypes],
        .cons hsees hstep hstep₂ hrealizes hrealizes₂⟩
      rcases List.mem_cons.mp hw with rfl | hw
      · exact hstep₂.seen hsees
      · exact hsees₂ w hw

end

end Expr

theorem condition_evals (e : Expr) (g : Draft ctx) (hopen : g.Open g.cur) :
    Evals (Lower.condition ctx e) g fun r g' =>
      match r with
      | some v => g'.Sees v ∧ g'.types.IsBool v.type ∧
          Realizes g g' v fun s => e.eval s.world s.names
      | none => g'.errors ≠ g.errors := by
  rw [Lower.condition]
  refine (Evals.recover (Expr.lower_evals e g hopen)).bind ?_
  intro r g₁ hstep hr
  cases r with
  | none => exact .pure hstep.opened hr
  | some v =>
    obtain ⟨hsees, hrealizes⟩ := hr
    refine (Evals.recover (expectBool_evals e.span hstep.opened hsees.typed.has)).bind ?_
    intro r g₂ hstep₂ hr
    cases r with
    | none => exact .pure hstep₂.opened fun he => hr (hstep.toLe.errors_right hstep₂.toLe he)
    | some _ =>
      obtain ⟨rfl, hbool⟩ := hr
      exact .pure hstep.opened ⟨hsees, hbool, hrealizes⟩

end Midend
