import Midend.Proofs.Ends
import Midend.Proofs.Expr

/-!
# Midend.Proofs.Return

Returns. All results are computed, from left to right, before the function is left.
-/

namespace Midend

open Ir

variable {ctx : FnContext} {g g₁ g' : Draft ctx} {v : Value}

theorem results_evals (es : List Expr) (g : Draft ctx) (hopen : g.Open g.cur) :
    Evals (Lower.results ctx es) g fun r g' =>
      match r with
      | some vs => (∀ v ∈ vs, g'.Sees v) ∧
          RealizesAll g g' vs fun s => Expr.evalAll s.world s.names es
      | none => g'.errors ≠ g.errors := by
  induction es generalizing g with
  | nil => exact .pure hopen ⟨by simp, .nil⟩
  | cons e rest ih =>
    rw [Lower.results]
    refine (Evals.recover (Expr.lower_evals e g hopen)).bind ?_
    intro r g₁ hstep hr
    cases r with
    | none => exact .pure hstep.opened hr
    | some v =>
      obtain ⟨hsees, hrealizes⟩ := hr
      refine (ih g₁ hstep.opened).bind ?_
      intro r g₂ hstep₂ hr
      cases r with
      | none => exact .pure hstep₂.opened fun he => hr (hstep.toLe.errors_right hstep₂.toLe he)
      | some vs =>
        obtain ⟨hsees₂, hrealizes₂⟩ := hr
        refine .pure hstep₂.opened ⟨fun w hw => ?_, .cons hsees hstep hstep₂ hrealizes hrealizes₂⟩
        rcases List.mem_cons.mp hw with rfl | hw
        · exact hstep₂.seen hsees
        · exact hsees₂ w hw

theorem packed_evals {vs : List Value} (hopen : g.Open g.cur) (hvs : ∀ v ∈ vs, g.Sees v) :
    Evals (Lower.packed vs) g fun r g' => g'.Sees r ∧ r.operand ≠ .const .void ∧
      ∀ {V : Type} (s : Scene ctx V), s.Covers g' → ∀ env calls xs, Scene.HoldAll s env vs xs →
        ∃ x, x.value = s.interp.aggregate (xs.map Datum.value) ∧
          s.Computes g g' env calls r x calls := by
  rw [Lower.packed]
  have hfields : ∀ id ∈ vs.map Value.type, g.types.Has id := by
    intro id hid
    obtain ⟨v, hv, rfl⟩ := List.mem_map.mp hid
    exact (hvs v hv).typed.has
  refine Evals.bind (P := fun id g₁ => g₁.types.body? id = some (.struct (vs.map Value.type)) ∧
    g₁.builder = g.builder) (.typing hopen (Typing.struct_adds g.wf hfields) ?_) ?_
  · exact fun id types hle hw hid _ => ⟨hid, rfl⟩
  · rintro type g₁ hstep ⟨htype, hb⟩
    have hemits : g₁.Emits type (.aggregate vs) :=
      .of_sees hstep.opened (.aggregate htype) rfl fun v hv => hstep.seen (hvs v hv)
    refine .push hemits (Typing.proper_of_body? htype (by simp)) rfl
      ⟨Draft.sees_push, by simp [Value.ofLocal], fun s hc env calls xs hxs => ?_⟩
    refine ⟨⟨s.interp.aggregate (xs.map Datum.value), .struct (vs.map Value.type)⟩, rfl, ?_⟩
    exact (Scene.computes_push hc htype fun prev =>
      Scene.perform_aggregate hxs prev).of_still hb

/-- The value is returned, or nothing if the function returns nothing. -/
theorem returnValue_does (span : Span) (hopen : g.Open g.cur) (hv : g.Sees v) :
    Does (Lower.returnValue span v) g fun _ g' => g'.errors = g.errors → Draft.Falls g g' False ∧
      ∀ {V : Type} (s : Scene ctx V), s.Covers g' →
      (s.ret.isVoid = true → v.operand = .const .void) ∧
        ∀ env calls x, s.Holds env v x → ∀ prev, s.Returns (g.spot prev env calls)
          (if s.ret.isVoid then none else some x.value) calls := by
  obtain ⟨ret, hret⟩ := g.typed.ret
  rw [Lower.returnValue]
  refine Does.next (runOn_get _) (.refl g) (.body hret ?_)
  by_cases hnone : ret.isVoid = true ∧ v.operand = .const .void
  · obtain ⟨hvoid, hoperand⟩ := hnone
    obtain rfl := Ty.isVoid_iff.mp hvoid
    have hcloses : g.Closes g.cur (.ret none) := .retVoid hopen hret
    rw [if_pos (by simp [Ty.isVoid, hoperand])]
    refine Does.next (g.run_terminateIfOpen hcloses) .closeCur
      (.pure fun _ => ⟨.close (by simp) rfl, fun {V} s hc => ?_⟩)
    have hs : s.ret = .void := (hc.of_since Draft.Since.close).ret_eq hret
    refine ⟨fun _ => hoperand, fun env calls x _ prev => ?_⟩
    rw [hs]
    exact Scene.returns_none Draft.seals_close hc prev
  · rw [if_neg (by simpa using hnone)]
    by_cases hsame : v.type = g.builder.ret
    · have hne : ¬ g.types.IsVoid g.builder.ret := fun hvoid => hnone
        ⟨Ty.isVoid_iff.mpr (Option.some.inj (hret.symm.trans hvoid)),
          hv.typed.void (hsame ▸ hvoid)⟩
      have hcloses : g.Closes g.cur (.ret (some v)) := .ret hopen hne hsame hv
      rw [if_pos hsame]
      refine Does.next (g.run_terminateIfOpen hcloses) .closeCur
        (.pure fun _ => ⟨.close (by simp) rfl, fun {V} s hc => ?_⟩)
      have hs : s.ret = ret := (hc.of_since Draft.Since.close).ret_eq hret
      have hsvoid : ¬ s.ret.isVoid = true := by
        rw [hs]
        exact fun hvoid => hne (hret.trans (congrArg some (Ty.isVoid_iff.mp hvoid)))
      refine ⟨fun h => absurd h hsvoid, fun env calls x hx prev => ?_⟩
      rw [if_neg hsvoid]
      exact Scene.returns_some Draft.seals_close hc hx prev
    · rw [if_neg hsame]
      obtain ⟨text, htext⟩ := g.run_ref g.typed.ret
      obtain ⟨text', htext'⟩ := g.run_ref hv.typed.has
      refine Does.next htext (.refl g) (Does.next htext' (.refl g) ?_)
      have hplain : (LowerError.typeMismatch text text' span).Plain := trivial
      refine Does.next (g.run_report hplain.genuine) (.report hplain) ?_
      refine Does.next (Draft.run_terminateIfOpen (g.report _ hplain.genuine) (.unreachable hopen))
        .closeCur (.pure ?_)
      intro herr
      simp [Draft.close, Draft.report] at herr

/-- The results are computed, and what follows returns what is made of them. -/
theorem renders_results {es : List Expr} {vs : List Value}
    (h : RealizesAll g g₁ vs fun s => Expr.evalAll s.world s.names es) (hs : g.Le g₁)
    (hbefore : Draft.Falls g g₁ True)
    (hs' : g₁.Le g')
    (hfalls : g'.errors = g₁.errors → Draft.Falls g₁ g' False)
    (hreturns : g'.errors = g₁.errors → ∀ {V : Type} (s : Scene ctx V), s.Covers g' →
      ∀ env calls xs, Scene.HoldAll s env vs xs → ∀ prev, s.Returns (g₁.spot prev env calls)
        (returnedValue s.world s.ret xs) calls) :
    Renders g g' (fun s _ => do
      let xs ← Expr.evalAll s.world s.names es
      return .returned (returnedValue s.world s.ret xs)) False := by
  refine ⟨fun herr hopen V s hc fuel env calls hfits => ?_, fun herr =>
    (hbefore.trans (hfalls (hs.errors_right hs' herr))).congr (and_iff_right trivial)⟩
  obtain ⟨xs, calls₁, hxs, env₁, hlead, hvs⟩ :=
    h s (hc.of_draft_le hs') env calls hfits
  have hreaches : s.Reaches fuel g₁ g' env₁ calls₁
      (.returned (returnedValue s.world s.ret xs)) calls₁ :=
    fun prev => hreturns (hs.errors_right hs' herr) s hc env₁ calls₁ xs hvs prev
  exact ⟨_, calls₁, by simp [hxs], hreaches.after hlead hs.builder⟩

theorem returnStmt_does (span : Span) (es : List Expr) (g : Draft ctx) :
    Does (Lower.returnStmt ctx span es) g fun _ g' => Renders g g' (fun s _ => do
      let xs ← Expr.evalAll s.world s.names es
      return .returned (returnedValue s.world s.ret xs)) False := by
  rw [Lower.returnStmt]
  refine Does.ensureOpen fun g₁ hreopens => ?_
  refine (Does.of_evals (results_evals es g₁ hreopens.opened)).bind ?_
  rintro r g₂ - ⟨hstep, hr⟩
  have hopen := hstep.opened
  cases r with
  | none =>
    refine Does.next (g₂.run_terminateIfOpen (.unreachable hopen)) .closeCur (.pure ?_)
    exact .of_errors hr
  | some vs =>
    obtain ⟨hsees, hrealizes⟩ := hr
    match vs with
    | [] =>
      obtain ⟨ret, hret⟩ := g₂.typed.ret
      refine Does.next (runOn_get _) (.refl g₂) (.body hret ?_)
      by_cases hvoid : ret.isVoid = true
      · obtain rfl := Ty.isVoid_iff.mp hvoid
        rw [if_pos hvoid]
        refine Does.next (g₂.run_terminateIfOpen (.retVoid hopen hret)) .closeCur (.pure ?_)
        refine renders_results hrealizes hstep.toLe hstep.falls Draft.Since.close.toLe
          (fun _ => .close (by simp) rfl) ?_
        intro _ V s hc env calls xs hxs prev
        cases hxs
        exact Scene.returns_none Draft.seals_close hc prev
      · rw [if_neg hvoid]
        exact .abort
    | [v] =>
      refine (returnValue_does span hopen (hsees v (by simp))).mono fun _ g' hstep' h => ?_
      refine renders_results hrealizes hstep.toLe hstep.falls hstep'.toLe (fun he => (h he).1) ?_
      intro herr V s hc env calls xs hxs prev
      cases hxs with
      | cons hx hrest =>
        cases hrest
        exact ((h herr).2 s hc).2 env calls _ hx prev
    | v :: w :: rest =>
      refine (Does.of_evals (packed_evals hopen hsees)).bind ?_
      rintro r g₃ - ⟨hstep₃, hr, hoperand, hrun⟩
      refine (returnValue_does span hstep₃.opened hr).mono fun _ g' hstep' h => ?_
      refine renders_results hrealizes hstep.toLe hstep.falls (hstep₃.toLe.trans hstep'.toLe)
        (fun he => ?_) ?_
      · have hreturn := (h (hstep₃.toLe.errors_right hstep'.toLe he)).1
        exact (hstep₃.falls.trans hreturn).congr (and_iff_right trivial)
      intro herr V s hc env calls xs hxs prev
      obtain ⟨hvoid, hreturns⟩ := (h (hstep₃.toLe.errors_right hstep'.toLe herr)).2 s hc
      obtain ⟨x, hx, env', hlead, hholds⟩ := hrun s (hc.of_draft_le hstep'.toLe) env calls xs hxs
      obtain ⟨n, prev', hn⟩ := hlead.steps prev
      have hend := (hreturns env' calls x hholds prev').of_steps hn
      rw [if_neg fun h => hoperand (hvoid h), hx] at hend
      cases hxs with
      | cons _ hrest =>
        cases hrest
        exact hend

end Midend
