import Midend.Proofs.Ssa

/-!
# Midend.Proofs.MissingReturn

Missing returns are found exactly (`SourceUnit.lower_missingReturn`). Lowering searches the code for
a way to the end of a body. There is one exactly if control can fall off the end as the form of the
body goes (`Stmt.canFall`). So in a unit without errors, control comes to no block that it must not
leave.
-/

namespace Midend

open Ir

section

variable {ctx : Context} {decl : FuncDecl} {sig : Signature} {body : Stmt} {span : Span}

/-- Where nothing but missing returns is reported, there is one if control can fall off the end. -/
theorem Drafted.reported_eq {types : TypeStore} {errors new reported : List LowerError}
    {g₀ g f : Draft (bodyContext ctx decl sig)}
    (h : Drafted ctx decl sig body span types errors g₀ g f new) (hret : types.Proper sig.ret)
    (hreported : f.errors ++ new = errors ++ reported)
    (honly : ∀ e ∈ reported, e = .missingReturn decl.name span) :
    reported = if body.canFall then [.missingReturn decl.name span] else [] := by
  obtain ⟨found, hfound, hplain⟩ := h.reporting
  rw [hfound, List.append_assoc, List.append_cancel_left_eq] at hreported
  -- What is found in the statements is never a missing return.
  have hnone : found = [] := by
    refine List.eq_nil_iff_forall_not_mem.mpr fun e he => ?_
    have hmissing := honly e (hreported ▸ List.mem_append_left new he)
    exact absurd (hplain e he) (by rw [hmissing]; exact id)
  rw [hnone, List.nil_append] at hreported
  have hsame : g.errors = errors := by
    rw [← h.completes.silent, hfound, hnone, List.append_nil]
  have hiff := h.missing_iff hsame hret
  rw [← hreported]
  rcases h.reports with ⟨hmissing, rfl⟩ | ⟨hmissing, rfl⟩
  · rw [if_neg (mt hiff.mpr hmissing)]
  · rw [if_pos (hiff.mp hmissing)]

theorem Pass.function_missingReturn {s s' : Session} {fn : Option Function}
    (h : Ready ctx s.types s.errors) (hsig : ctx.functions.lookup decl.name = some sig)
    (hlength : sig.params.length = (Field.flatten decl.params).length)
    (hret : s.types.Proper sig.ret) (hbody : decl.body = some body)
    (hrun : runOn (Pass.function ctx decl span) s = (.ok fn, s')) :
    ∃ reported, s'.errors = s.errors ++ reported ∧
      ((∀ e ∈ reported, e = .missingReturn decl.name span) →
        reported = if body.canFall then [.missingReturn decl.name span] else []) := by
  obtain ⟨hproper, hhas⟩ := h.functions _ _ hsig
  rw [Pass.runOn_function span hbody hsig s] at hrun
  rcases functionBody_spec body span h hproper hhas hlength with
    ⟨g₀, g, f, new, hf, hd⟩ | ⟨e, s₁, he, _⟩
  · rw [hf] at hrun
    cases hrun
    obtain ⟨found, hfound, _⟩ := hd.reporting
    have hall : f.errors ++ new = s.errors ++ (found ++ new) := by
      rw [hfound, List.append_assoc]
    exact ⟨found ++ new, hall, hd.reported_eq hret hall⟩
  · rw [he] at hrun
    cases hrun

end

theorem Ir.Builder.reached_of_arrives {b : Builder} {i : BlockId} {done : List Inst}
    (h : b.finish.Arrives i done) : b.Reached i := by
  induction h with
  | entry => exact .entry
  | edge _ hblk hj ih => exact .edge ih (Builder.edge_of_finish hblk hj)

namespace SourceUnit

/-- Lowering the unit comes to the declaration of a function: the types have been resolved, the
functions registered, and those before it lowered. -/
def ComesTo (config : Config) (u : SourceUnit) (ctx : Context) (decl : FuncDecl) (span : Span)
    (s : Session) : Prop :=
  ∃ types funcs s₁ s₂ before after fns,
    split u.decls = .ok (types, funcs) ∧
    runOn (Pass.resolveTypes config.wordBits types) ⟨.empty, []⟩ = (.ok ctx.declared, s₁) ∧
    runOn (Pass.declareFunctions config.wordBits [] funcs) s₁ =
      (.ok (ctx.functions, before ++ (decl, span) :: after), s₂) ∧
    ctx = ⟨config, u.types, ctx.declared, ctx.functions⟩ ∧
    runOn (Pass.functions ctx before) s₂ = (.ok fns, s)

variable {config : Config} {u : SourceUnit} {ctx : Context} {decl : FuncDecl} {span : Span}
  {s : Session}

theorem ComesTo.stages (h : u.ComesTo config ctx decl span s) : ∃ s₁ s₂ before after fns,
    ctx.table = u.types ∧ Resolved config.wordBits u.typeDecls s₁ ∧
    runOn (Pass.declareFunctions config.wordBits [] u.funcDecls) s₁ =
      (.ok (ctx.functions, before ++ (decl, span) :: after), s₂) ∧
    Ready ctx s₂.types s₂.errors ∧
    (∀ d ∈ before ++ (decl, span) :: after, ∃ sig, ctx.functions.lookup d.1.name = some sig ∧
      SignedAs config.wordBits s₂.types d.1 sig) ∧
    runOn (Pass.functions ctx before) s₂ = (.ok fns, s) := by
  obtain ⟨types, funcs, s₁, s₂, before, after, fns, hsplit, hresolve, hdeclare, hctx, hfns⟩ := h
  obtain ⟨htypes, hfuncs⟩ := split_ok u.decls hsplit
  obtain rfl : types = u.typeDecls := htypes
  obtain rfl : funcs = u.funcDecls := hfuncs
  obtain ⟨hdeclared, hresolved⟩ :=
    (Pass.resolveTypes_comes config.wordBits u.typeDecls).of_ok hresolve
  have hregistered := (Pass.declareFunctions_registers u.funcDecls hresolved.wf).of_ok hdeclare
  have hready := ready_of_registered hresolved hregistered
  rw [← hdeclared, ← hctx] at hready
  obtain ⟨_, _, ⟨new, hall, hentries⟩, hnodup, _⟩ := hregistered
  obtain rfl : ctx.functions = new := hall
  exact ⟨s₁, s₂, before, after, fns, by rw [hctx], hresolved, hdeclare, hready,
    fun d hd => lookup_of_registered hentries hnodup hd, hfns⟩

theorem ComesTo.ready (h : u.ComesTo config ctx decl span s) :
    Ready ctx s.types s.errors ∧ ∃ sig, ctx.functions.lookup decl.name = some sig ∧
      SignedAs config.wordBits s.types decl sig := by
  obtain ⟨s₁, s₂, before, after, fns, _, _, _, hready, hkept, hfns⟩ := h.stages
  have hgoes := ((Pass.functions_comes before hready fun d hd => by
    obtain ⟨sig, hsig, hsigned⟩ := hkept d (List.mem_append_left _ hd)
    exact ⟨sig, hsig, hsigned.length⟩).of_ok hfns).1
  obtain ⟨sig, hsig, hsigned⟩ := hkept (decl, span) (by simp)
  exact ⟨hgoes.ready, sig, hsig, hsigned.mono hgoes.types⟩

/-- Each function of the module is lowered where the unit comes to its declaration. -/
theorem Lowers.comesTo {kept : List (FuncDecl × Span)} {m : Module} {errors : List LowerError}
    (h : Lowers config u ctx kept m errors) {fn : Function} (hfn : fn ∈ m.functions) :
    ∃ d ∈ u.funcDecls, ∃ s s', u.ComesTo config ctx d.1 d.2 s ∧
      runOn (Pass.function ctx d.1 d.2) s = (.ok (some fn), s') ∧ s'.types ≤ m.types ∧
        LoweredFrom ctx m.types s'.errors d.1 fn := by
  obtain ⟨s₁, s₂, s₃, hsplit, hresolve, hdeclare, hfns, htypes⟩ := h.runs
  obtain ⟨before, d, after, firsts, rest, s, s', rfl, hbefore, hrun, hafter⟩ :=
    Pass.mem_functions hfns hfn
  have hcomes : u.ComesTo config ctx d.1 d.2 s :=
    ⟨u.typeDecls, u.funcDecls, s₁, s₂, before, after, firsts, hsplit, hresolve, hdeclare,
      by rw [h.context], hbefore⟩
  have hsigned : ∀ d' ∈ before ++ d :: after, ∃ sig, ctx.functions.lookup d'.1.name = some sig ∧
      sig.params.length = (Field.flatten d'.1.params).length := fun d' hd' => by
    obtain ⟨sig, hsig, hsigned⟩ := lookup_of_registered h.registered h.nodup hd'
    exact ⟨sig, hsig, hsigned.length⟩
  obtain ⟨sig, hsig, hlength⟩ := hsigned d (by simp)
  obtain ⟨hgoes, -, hlowered⟩ := (Pass.function_comes hcomes.ready.1 hsig hlength).of_ok hrun
  have hlater := ((Pass.functions_comes after hgoes.ready fun d' hd' =>
    hsigned d' (by simp [hd'])).of_ok hafter).1
  have hle : s'.types ≤ m.types := htypes ▸ hlater.types
  exact ⟨d, h.sublist.subset (by simp), s, s', hcomes, hrun, hle,
    (hlowered fn rfl).mono hle (List.prefix_refl _)⟩

/-- If nothing else is reported for a function with results, a missing return is reported exactly if
control can fall off the end of its body. In a unit without errors no block that control can get to
is one that it must not leave. -/
theorem lower_missingReturn (config : Config) (u : SourceUnit) :
    (∀ ctx decl span s, u.ComesTo config ctx decl span s → ∀ body fn s', decl.body = some body →
      decl.results ≠ [] → runOn (Pass.function ctx decl span) s = (.ok fn, s') →
        ∃ reported, s'.errors = s.errors ++ reported ∧
          ((∀ e ∈ reported, e = .missingReturn decl.name span) →
            reported = if body.canFall then [.missingReturn decl.name span] else [])) ∧
    ∀ m, u.lower config = (.ok m, []) → ∀ fn ∈ m.functions, ∀ i done blk, fn.Arrives i done →
      fn.block? i = some blk → blk.terminator ≠ some .unreachable := by
  refine ⟨fun ctx decl span s hcomes body fn s' hbody hresults hrun => ?_,
    fun m hlower fn hfn i done blk harrives hblk ht => ?_⟩
  · obtain ⟨hready, sig, hsig, hsigned⟩ := hcomes.ready
    exact Pass.function_missingReturn hready hsig hsigned.length (hsigned.returns hresults)
      hbody hrun
  · obtain ⟨ctx, kept, hlowers⟩ := lowers_of_lower hlower
    obtain ⟨decl, _, body, sig, b, _, _, rfl, _, hstops, _⟩ :=
      exists_left_of_forall₂ hlowers.functions hfn
    exact hstops rfl i (Builder.reached_of_arrives harrives)
      ⟨blk, Builder.block?_of_finish hblk, ht⟩

def partialBody : Stmt :=
  let a : Expr := .ident default "a"
  .ifElse default none a (.ret default [a]) none

def partialDecl : FuncDecl :=
  let bool : TypeExpr := .ident .empty "bool"
  ⟨"f", [.mk ["a"] bool .empty], [.mk [] bool .empty], some partialBody⟩

def partialSample : SourceUnit :=
  ⟨"sample", [.func default partialDecl], .ofList [(default, .basic .bool)]⟩

def partialContext : Context := ⟨⟨64, true⟩, partialSample.types, [], [("f", ⟨[⟨0⟩], ⟨0⟩⟩)]⟩

def partialSession : Session :=
  (runOn (Pass.declareFunctions 64 [] [(partialDecl, .empty)]) ⟨.empty, []⟩).2

theorem partialSample_comesTo :
    partialSample.ComesTo ⟨64, true⟩ partialContext partialDecl .empty partialSession := by
  have hregistered : ((runOn (Pass.declareFunctions 64 [] [(partialDecl, .empty)])
      ⟨.empty, []⟩).1.toOption.map fun r => (r.1, r.2.length)) =
        some (partialContext.functions, 1) := by decide +kernel
  obtain ⟨r, hrun⟩ : ∃ r, runOn (Pass.declareFunctions 64 [] [(partialDecl, .empty)])
      ⟨.empty, []⟩ = (r, partialSession) := ⟨_, rfl⟩
  rw [hrun] at hregistered
  cases r with
  | error f => cases hregistered
  | ok r =>
    obtain ⟨functions, kept⟩ := r
    obtain ⟨rfl, hlength⟩ := Prod.mk.inj (Option.some.inj hregistered)
    have hkept := (Pass.declareFunctions_registers _ TypeStore.WF.empty).of_ok hrun
    obtain rfl := hkept.sublist.eq_of_length hlength
    exact ⟨[], _, ⟨.empty, []⟩, _, [], [], [], rfl, rfl, hrun, rfl, rfl⟩

theorem lower_missingReturn_sample :
    (∃ fn s',
      runOn (Pass.function partialContext partialDecl .empty) partialSession = (.ok fn, s') ∧
      s'.errors = [.missingReturn "f" .empty]) ∧
    ∃ m, sample.lower ⟨64, true⟩ = (.ok m, []) ∧ m.functions.length = 1 ∧
      ∀ fn ∈ m.functions, ∀ i done blk, fn.Arrives i done → fn.block? i = some blk →
        blk.terminator ≠ some .unreachable := by
  refine ⟨?_, ?_⟩
  · have hok : (runOn (Pass.function partialContext partialDecl .empty)
        partialSession).1.toOption.isSome = true := by decide +kernel
    have honly : ∀ e ∈ (runOn (Pass.function partialContext partialDecl .empty)
        partialSession).2.errors, e = .missingReturn "f" .empty := by decide +kernel
    obtain ⟨r, s', hrun⟩ : ∃ r s', runOn (Pass.function partialContext partialDecl .empty)
        partialSession = (r, s') := ⟨_, _, rfl⟩
    rw [hrun] at hok honly
    cases r with
    | error f => cases hok
    | ok fn =>
      obtain ⟨reported, herrors, hexact⟩ := (lower_missingReturn ⟨64, true⟩ partialSample).1 _ _ _ _
        partialSample_comesTo partialBody fn s' rfl (by simp [partialDecl]) hrun
      have hcan : partialBody.canFall = true := by decide
      have hnil : s'.errors = reported := herrors
      refine ⟨fn, s', hrun, ?_⟩
      rw [hnil, hexact (hnil ▸ honly), if_pos hcan]
      rfl
  · obtain ⟨m, hlower, hone⟩ := sample_lowers
    exact ⟨m, hlower, hone, (lower_missingReturn ⟨64, true⟩ sample).2 m hlower⟩

end SourceUnit

end Midend
