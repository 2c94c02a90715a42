import Midend.Proofs.Faithful

/-!
# Midend.Proofs.Function

Lowering of the functions of a unit, one after the other. Types and errors are only added, so what
is true of a function when it has been lowered is true of it in the finished module (`LoweredFrom`).
-/

namespace Midend

open Ir

/-- The function was lowered from the declaration. -/
def LoweredFrom (ctx : Context) (types : TypeStore) (errors : List LowerError) (decl : FuncDecl)
    (fn : Function) : Prop :=
  ∃ body sig b, decl.body = some body ∧ ctx.functions.lookup decl.name = some sig ∧
    fn = b.finish ∧ Lowered ctx decl sig types b ∧
    (errors = [] → ∀ i, b.Reached i → ¬ b.Stops i) ∧
    (errors = [] → ∀ types', types ≤ types' → ∀ {V : Type} (interp : Interp V) args past,
      args.length = sig.params.length →
        Implements ⟨fn, types', interp⟩ { ctx with types := types', interp := interp } decl body
          args past)

theorem LoweredFrom.mono {ctx : Context} {types types' : TypeStore}
    {errors errors' : List LowerError} {decl : FuncDecl} {fn : Function}
    (h : LoweredFrom ctx types errors decl fn) (ht : types ≤ types') (he : errors <+: errors') :
    LoweredFrom ctx types' errors' decl fn := by
  obtain ⟨body, sig, b, hbody, hsig, hfn, hlowered, hstops, himplements⟩ := h
  have herr : errors' = [] → errors = [] := fun hnil => List.prefix_nil.mp (hnil ▸ he)
  exact ⟨body, sig, b, hbody, hsig, hfn, hlowered.types_le ht, fun hnil => hstops (herr hnil),
    fun hnil types'' hle V => himplements (herr hnil) types'' (TypeStore.le_trans ht hle)⟩

/-- What the lowering of some functions comes to. -/
structure Goes (ctx : Context) (s s' : Session) : Prop where
  types : s.types ≤ s'.types
  errors : s.errors <+: s'.errors
  ready : Ready ctx s'.types s'.errors

theorem Goes.refl {ctx : Context} {s : Session} (h : Ready ctx s.types s.errors) : Goes ctx s s :=
  ⟨TypeStore.le_refl _, List.prefix_refl _, h⟩

theorem Goes.trans {ctx : Context} {s s₁ s₂ : Session} (h₁ : Goes ctx s s₁) (h₂ : Goes ctx s₁ s₂) :
    Goes ctx s s₂ :=
  ⟨TypeStore.le_trans h₁.types h₂.types, h₁.errors.trans h₂.errors, h₂.ready⟩

section

variable {ctx : Context} {decl : FuncDecl} {sig : Signature} {body : Stmt} {span : Span}
  {types : TypeStore} {errors : List LowerError}

/-- A body that is lowered goes from its parameters (`g₀`) over its statements (`g`) to its end
(`f`), where the new errors are reported. -/
structure Drafted (ctx : Context) (decl : FuncDecl) (sig : Signature) (body : Stmt) (span : Span)
    (types : TypeStore) (errors : List LowerError)
    (g₀ g f : Draft (bodyContext ctx decl sig)) (new : List LowerError) :
    Prop where
  types : g₀.types = types
  errors : g₀.errors = errors
  headed : g₀.builder.Headed sig.params
  name : g₀.builder.name = decl.name
  ret : g₀.builder.ret = sig.ret
  sight : ∀ i id, g₀.sight i id → id.index < g₀.builder.params.length
  lowers : g₀.Le g
  completes : g.Completes f
  reports : g.MissingErrors decl.name span new
  renders : Renders g₀ g (fun s fuel => body.exec s.world s.names s.ret fuel) (body.canFall = true)

namespace Drafted

variable {g₀ g f : Draft (bodyContext ctx decl sig)} {new : List LowerError}

theorem le (h : Drafted ctx decl sig body span types errors g₀ g f new) : g₀.Le f :=
  h.lowers.trans h.completes.toLe

theorem opened (h : Drafted ctx decl sig body span types errors g₀ g f new) : g₀.Open g₀.cur := by
  rw [show g₀.cur = ⟨0⟩ from h.headed.cursor]
  exact ⟨_, h.headed.block?_entry, rfl⟩

theorem missing_iff (h : Drafted ctx decl sig body span types errors g₀ g f new)
    (hsame : g.errors = errors) (hret : types.Proper sig.ret) :
    g.Missing ↔ body.canFall = true := by
  have hfalls := h.renders.falls (hsame.trans h.errors.symm)
  have hkeeps : Draft.Keeps g₀ g g.builder := fun _ _ _ _ => Iff.rfl
  have hstart : g₀.Live g.builder 0 := by
    refine ⟨h.opened, ?_⟩
    rw [show g₀.cur = ⟨0⟩ from h.headed.cursor]
    exact .entry
  constructor
  · rintro ⟨_, hopen, hreached⟩
    obtain ⟨n, hn⟩ := Builder.reached_iff.mp hreached
    exact (hfalls.back _ hkeeps n ⟨hopen, hn⟩).1
  · intro hcan
    obtain ⟨n, hopen, hn⟩ := hfalls.onward _ hkeeps hcan 0 hstart
    refine ⟨fun hvoid => ?_, hopen, Builder.reached_iff.mpr ⟨n, hn⟩⟩
    obtain ⟨t, ht, hne⟩ := hret.le (h.types ▸ h.lowers.types)
    rw [TypeStore.IsVoid, h.lowers.builder.ret, h.ret, ht] at hvoid
    exact hne (Option.some.inj hvoid)

theorem reporting (h : Drafted ctx decl sig body span types errors g₀ g f new) :
    Reporting errors f.errors := by
  rw [h.completes.silent, ← h.errors]
  exact h.lowers.errors

theorem not_stops (h : Drafted ctx decl sig body span types errors g₀ g f new)
    (hsame : f.errors = errors) (hnew : new = []) {i : BlockId} (hi : f.builder.Reached i) :
    ¬ f.builder.Stops i := by
  intro hstops
  have hmissing := h.reports.nil_iff.mp hnew
  have hsame' : g.errors = g₀.errors := h.completes.silent.symm.trans (hsame.trans h.errors.symm)
  have hstops' := (h.renders.falls hsame').stops i (h.completes.stops hmissing i hi hstops)
  obtain ⟨blk, hblk, ht⟩ := hstops'
  obtain ⟨_, rfl⟩ := h.headed.block?_eq hblk
  cases ht

end Drafted

/-- A body that cannot be lowered is drafted up to there. -/
theorem functionBody_spec (body : Stmt) (span : Span) (h : Ready ctx types errors)
    (hproper : ∀ t ∈ sig.params, types.Proper t) (hret : types.Has sig.ret)
    (hlength : sig.params.length = (Field.flatten decl.params).length) :
    (∃ g₀ g f new, runOn (Lower.functionBody ctx decl sig body span)
        ⟨types, errors, Builder.start decl.name sig.ret⟩ =
          (.ok (), ⟨f.types, f.errors ++ new, f.builder⟩) ∧
      Drafted ctx decl sig body span types errors g₀ g f new) ∨
    ∃ (f : Fault) (g : Draft (bodyContext ctx decl sig)),
      runOn (Lower.functionBody ctx decl sig body span)
        ⟨types, errors, Builder.start decl.name sig.ret⟩ = (.error f, g.toFnState) ∧ f.Tame := by
  have hnames : (((Field.flatten decl.params).map Prod.fst).zip sig.params).map Prod.snd =
      sig.params := List.map_snd_zip (by simp [hlength])
  obtain ⟨b, haddParams, hhead, hname, hbret⟩ := Lower.run_addParams
    (((Field.flatten decl.params).map Prod.fst).zip sig.params)
    (Builder.Headed.start decl.name sig.ret) []
  rw [hnames, List.nil_append] at hhead
  have hscope := @bindParams_ofLocal sig.params 0
    (((Field.flatten decl.params).map Prod.fst).zip sig.params) []
    (fun i p hp => by
      rw [Nat.zero_add]
      exact (List.getElem?_zip_eq_some.mp hp).2) (by simp)
  let g₀ : Draft (bodyContext ctx decl sig) :=
    .begin h b hhead (hbret ▸ hret) hproper hscope
  have hstart : runOn (Lower.build (Lower.addParams []
      (((Field.flatten decl.params).map Prod.fst).zip sig.params)))
      ⟨types, errors, Builder.start decl.name sig.ret⟩ =
      (.ok (bodyContext ctx decl sig).scope, g₀.toFnState) := by
    rw [Lower.runOn_build, haddParams]
    rfl
  have hwhole : runOn (Lower.functionBody ctx decl sig body span)
      ⟨types, errors, Builder.start decl.name sig.ret⟩ = runOn (do
        body.lower (bodyContext ctx decl sig)
        Lower.finishBody decl.name span) g₀.toFnState := by
    rw [Lower.functionBody, runOn_bind_ok hstart]
    rfl
  rw [hwhole]
  rcases Stmt.lower_sound body g₀ with ⟨_, g, hrun, hstep, hrenders⟩ | ⟨e, g, hrun, htame, _⟩
  · have halone : g.Alone := by
      intro i hi
      obtain ⟨⟨blk, hblk, _⟩, hne⟩ := (hstep.waiting i).mp hi
      exact hne ((hhead.block?_eq hblk).1.trans hhead.cursor.symm)
    obtain ⟨f, new, hfinish, hcompletes, hreports⟩ := finishBody_spec decl.name span halone
    rw [runOn_bind_ok hrun]
    exact .inl ⟨g₀, g, f, new, hfinish, rfl, rfl, hhead, hname, hbret, fun _ _ hid => hid,
      hstep.toLe, hcompletes, hreports, hrenders⟩
  · exact .inr ⟨e, g, by rw [runOn_bind_error hrun], htame⟩

theorem functionBody_wf (body : Stmt) (span : Span) (h : Ready ctx types errors)
    (hproper : ∀ t ∈ sig.params, types.Proper t) (hret : types.Has sig.ret)
    (hlength : sig.params.length = (Field.flatten decl.params).length) :
    (runOn (Lower.functionBody ctx decl sig body span)
      ⟨types, errors, Builder.start decl.name sig.ret⟩).2.types.WF := by
  rcases functionBody_spec body span h hproper hret hlength with
    ⟨_, _, f, _, hrun, _⟩ | ⟨_, g, hrun, _⟩
  · rw [hrun]
    exact f.wf
  · rw [hrun]
    exact g.wf

theorem Pass.runOn_function (span : Span) (hbody : decl.body = some body)
    (hsig : ctx.functions.lookup decl.name = some sig) (s : Session) :
    runOn (Pass.function ctx decl span) s =
      match runOn (Lower.functionBody ctx decl sig body span)
        ⟨s.types, s.errors, Builder.start decl.name sig.ret⟩ with
      | (.ok (), s') => (.ok (some s'.builder.finish), ⟨s'.types, s'.errors⟩)
      | (.error f, s') => (.error f, ⟨s'.types, s'.errors⟩) := by
  rw [Pass.function, hbody, hsig]
  rfl

/-- Only what has a body, and a name that is registered, is lowered to code. -/
theorem Pass.function_cases (ctx : Context) (decl : FuncDecl) (span : Span) :
    Pass.function ctx decl span = pure none ∨
      ∃ body sig, decl.body = some body ∧ ctx.functions.lookup decl.name = some sig := by
  unfold Pass.function
  split
  · exact .inr ⟨_, _, ‹_›, ‹_›⟩
  · exact .inl rfl

theorem Pass.exists_body {s s' : Session} {f : Function}
    (hrun : runOn (Pass.function ctx decl span) s = (.ok (some f), s')) :
    ∃ body sig, decl.body = some body ∧ ctx.functions.lookup decl.name = some sig := by
  refine (Pass.function_cases ctx decl span).resolve_left fun h => ?_
  rw [h] at hrun
  cases hrun

theorem Pass.function_comes {s : Session} (h : Ready ctx s.types s.errors)
    (hsig : ctx.functions.lookup decl.name = some sig)
    (hlength : sig.params.length = (Field.flatten decl.params).length) :
    (Pass.function ctx decl span).Comes s fun r s' =>
      Goes ctx s s' ∧ r.isSome = decl.body.isSome ∧
        ∀ fn ∈ r, LoweredFrom ctx s'.types s'.errors decl fn := by
  cases hbody : decl.body with
  | none =>
    rw [Pass.function, hbody]
    exact .pure ⟨.refl h, rfl, by simp⟩
  | some body =>
    obtain ⟨hproper, hret⟩ := h.functions _ _ hsig
    have hrun := Pass.runOn_function span hbody hsig s
    rcases functionBody_spec body span h hproper hret hlength with
      ⟨g₀, g, f, new, hf, hd⟩ | ⟨e, s', he, htame⟩
    · rw [hf] at hrun
      have hgrown : s.types ≤ f.types := hd.types ▸ hd.le.types
      have hgoes : Goes ctx s ⟨f.types, f.errors ++ new⟩ :=
        ⟨hgrown, hd.reporting.isPrefix.trans (List.prefix_append _ _), f.wf,
          fun e he => (List.mem_append.mp he).elim (f.genuine e) (hd.reports.genuine e),
          f.functions⟩
      refine .of_run hrun ⟨hgoes, rfl, ?_⟩
      rintro _ ⟨⟩
      have hnil : f.errors ++ new = [] → f.errors = s.errors ∧ new = [] := by
        intro herr
        obtain ⟨hf', hnew⟩ := List.append_eq_nil_iff.mp herr
        exact ⟨hf'.trans (List.prefix_nil.mp (hf' ▸ hd.reporting.isPrefix)).symm, hnew⟩
      refine ⟨body, sig, f.builder, hbody, hsig, rfl,
        .of_le hd.headed hd.name hd.ret hd.sight hd.le hd.completes.sealed,
        fun herr i hi => hd.not_stops (hnil herr).1 (hnil herr).2 hi,
        fun herr types' hle' V interp args past hargs => ?_⟩
      exact implements_of_performs hd.headed hsig hd.ret
        (fun id hid => ((hproper id hid).le hgrown).has) hd.renders.performs hd.lowers hd.completes
        ((hnil herr).1.trans hd.errors.symm) (hd.reports.nil_iff.mp (hnil herr).2) hle' interp args
        past hargs
    · rw [he] at hrun
      exact .inr ⟨_, _, hrun, htame⟩

end

theorem Pass.functions_comes {ctx : Context} (kept : List (FuncDecl × Span)) {s : Session}
    (h : Ready ctx s.types s.errors)
    (hkept : ∀ d ∈ kept, ∃ sig, ctx.functions.lookup d.1.name = some sig ∧
      sig.params.length = (Field.flatten d.1.params).length) :
    (Pass.functions ctx kept).Comes s fun fns s' =>
      Goes ctx s s' ∧ List.Forall₂ (LoweredFrom ctx s'.types s'.errors)
        ((kept.map Prod.fst).filter fun decl => decl.body.isSome) fns := by
  induction kept generalizing s with
  | nil => exact .pure ⟨.refl h, .nil⟩
  | cons d rest ih =>
    obtain ⟨decl, span⟩ := d
    obtain ⟨sig, hsig, hlength⟩ := hkept (decl, span) (by simp)
    refine (Pass.function_comes h hsig hlength).bind ?_
    rintro f? s₁ - ⟨hgoes, hsome, hlowered⟩
    refine (ih hgoes.ready fun d hd => hkept d (by simp [hd])).bind ?_
    rintro fs s₂ - ⟨hgoes', hall⟩
    refine .pure ⟨hgoes.trans hgoes', ?_⟩
    cases f? with
    | none =>
      have hnone : decl.body.isSome = false := hsome.symm
      simpa [hnone] using hall
    | some fn =>
      have hbody : decl.body.isSome = true := hsome.symm
      have hfn := (hlowered fn rfl).mono hgoes'.types hgoes'.errors
      simpa [hbody] using ⟨hfn, hall⟩

/-- Each function is lowered after those of some declarations, and before those of the others. -/
theorem Pass.mem_functions {ctx : Context} {kept : List (FuncDecl × Span)} {s s' : Session}
    {fns : List Function} (hrun : runOn (Pass.functions ctx kept) s = (.ok fns, s'))
    {fn : Function} (hfn : fn ∈ fns) : ∃ before d after firsts rest s₁ s₂,
      kept = before ++ d :: after ∧ runOn (Pass.functions ctx before) s = (.ok firsts, s₁) ∧
        runOn (Pass.function ctx d.1 d.2) s₁ = (.ok (some fn), s₂) ∧
          runOn (Pass.functions ctx after) s₂ = (.ok rest, s') := by
  induction kept generalizing s fns with
  | nil =>
    cases hrun
    simp at hfn
  | cons d kept ih =>
    rw [functions] at hrun
    obtain ⟨f?, s₁, hfirst, hrun⟩ := runOn_bind_eq_ok hrun
    obtain ⟨fs, s₂, hrest, hrun⟩ := runOn_bind_eq_ok hrun
    cases hrun
    rcases List.mem_append.mp hfn with hfn | hfn
    · obtain rfl := Option.mem_toList.mp hfn
      exact ⟨[], d, kept, [], fs, s, s₁, rfl, rfl, hfirst, hrest⟩
    · obtain ⟨before, d', after, firsts, rest, s₃, s₄, rfl, hbefore, hlater⟩ := ih hrest hfn
      refine ⟨d :: before, d', after, f?.toList ++ firsts, rest, s₃, s₄, rfl, ?_, hlater⟩
      rw [functions, runOn_bind_ok hfirst, runOn_bind_ok hbefore]
      rfl

end Midend
