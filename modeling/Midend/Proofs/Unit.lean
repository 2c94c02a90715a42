import Midend.Proofs.Signed
import Midend.Proofs.Verified

/-!
# Midend.Proofs.Unit

Lowering of a whole unit (`SourceUnit.lowers_of_lower`): what a module that comes out of it has to
do with the declarations of the unit, and with the errors that were reported.
-/

namespace Midend

open Ir

namespace SourceUnit

def typeDecls (u : SourceUnit) : List (TypeDecl × Span) :=
  u.decls.filterMap fun
    | .type m decl => some (decl, m.span)
    | _ => none

def funcDecls (u : SourceUnit) : List (FuncDecl × Span) :=
  u.decls.filterMap fun
    | .func m decl => some (decl, m.span)
    | _ => none

theorem split_ok (decls : List Decl) {types : List (TypeDecl × Span)}
    {funcs : List (FuncDecl × Span)} (h : split decls = .ok (types, funcs)) :
    types = decls.filterMap (fun
      | .type m decl => some (decl, m.span)
      | _ => none) ∧
    funcs = decls.filterMap (fun
      | .func m decl => some (decl, m.span)
      | _ => none) := by
  induction decls generalizing types funcs with
  | nil =>
    cases h
    exact ⟨rfl, rfl⟩
  | cons d rest ih =>
    cases d with
    | var m names type values isConst => cases h
    | type m decl =>
      rw [split] at h
      cases hrest : split rest with
      | error e =>
        rw [hrest] at h
        cases h
      | ok r =>
        obtain ⟨types', funcs'⟩ := r
        rw [hrest] at h
        cases h
        obtain ⟨rfl, rfl⟩ := ih hrest
        exact ⟨rfl, rfl⟩
    | func m decl =>
      rw [split] at h
      cases hrest : split rest with
      | error e =>
        rw [hrest] at h
        cases h
      | ok r =>
        obtain ⟨types', funcs'⟩ := r
        rw [hrest] at h
        cases h
        obtain ⟨rfl, rfl⟩ := ih hrest
        exact ⟨rfl, rfl⟩

/-- The unit comes to the module, whose functions have been registered in the context. -/
structure Lowers (config : Config) (u : SourceUnit) (ctx : Context) (kept : List (FuncDecl × Span))
    (m : Module) (errors : List LowerError) : Prop where
  context : ctx = ⟨config, u.types, declaredTypes u.typeDecls, ctx.functions⟩
  runs : ∃ s₁ s₂ s₃, split u.decls = .ok (u.typeDecls, u.funcDecls) ∧
    runOn (Pass.resolveTypes config.wordBits u.typeDecls) ⟨.empty, []⟩ = (.ok ctx.declared, s₁) ∧
    runOn (Pass.declareFunctions config.wordBits [] u.funcDecls) s₁ =
      (.ok (ctx.functions, kept), s₂) ∧
    runOn (Pass.functions ctx kept) s₂ = (.ok m.functions, s₃) ∧ s₃.types = m.types
  sublist : kept.Sublist u.funcDecls
  registered : List.Forall₂ (Registers config.wordBits m.types) kept ctx.functions
  nodup : (ctx.functions.map Prod.fst).Nodup
  complete : errors = [] → kept = u.funcDecls ∧ admitted [] u.typeDecls = u.typeDecls
  ready : Ready ctx m.types errors
  named : slottedNames u.typeDecls <+: m.types.named.map Prod.fst
  pending : m.types.pendingTypes = (unpopulated u.typeDecls).map fun d => .pendingType d.1.name
  reported : ∀ d ∈ slotted u.typeDecls,
    ∀ n ∈ d.1.undefined? (declaredTypes u.typeDecls) (slottedNames u.typeDecls),
      LowerError.undefinedType n.1 n.2 ∈ errors
  functions : List.Forall₂ (LoweredFrom ctx m.types errors)
    ((kept.map Prod.fst).filter fun decl => decl.body.isSome) m.functions

namespace Lowers

variable {config : Config} {u : SourceUnit} {ctx : Context} {kept : List (FuncDecl × Span)}
  {m : Module} {errors : List LowerError}

theorem verify_function (h : Lowers config u ctx kept m errors) :
    ∀ fn ∈ m.functions, fn.verify m.types = .ok [] := by
  intro fn hfn
  obtain ⟨decl, _, hlowered⟩ := exists_left_of_forall₂ h.functions hfn
  exact hlowered.verify_eq_nil

theorem verify_module (h : Lowers config u ctx kept m errors) :
    m.verify = .ok ((unpopulated u.typeDecls).map fun d => .pendingType d.1.name) := by
  rw [verify_eq_pendingTypes h.verify_function, h.pending]

theorem unpopulated_eq_nil (h : Lowers config u ctx kept m errors) (herr : errors = []) :
    unpopulated u.typeDecls = [] := by
  refine List.filter_eq_nil_iff.mpr fun d hd hsome => ?_
  obtain ⟨n, hn⟩ := Option.isSome_iff_exists.mp hsome
  have := h.reported d hd n hn
  rw [herr] at this
  cases this

end Lowers

end SourceUnit

theorem Pass.verify_nothing {m : Module} {s : Session}
    (h : s.errors = [] → m.verify = .ok []) : runOn (Pass.verify m) s = (.ok (), s) := by
  rw [Pass.verify, runOn_bind_ok (runOn_get s)]
  cases herr : s.errors with
  | nil =>
    rw [h herr]
    rfl
  | cons e rest => rfl

namespace SourceUnit

theorem ready_of_registered {config : Config} {u : SourceUnit} {s₁ s₂ : Session}
    {functions : Functions} {kept : List (FuncDecl × Span)}
    (hresolved : Resolved config.wordBits u.typeDecls s₁)
    (h : Registered config.wordBits [] u.funcDecls s₁ s₂ functions kept) :
    Ready ⟨config, u.types, declaredTypes u.typeDecls, functions⟩ s₂.types s₂.errors := by
  obtain ⟨_, hw, ⟨new, rfl, hentries⟩, _, _, es, hreports, _⟩ := h
  refine ⟨hw, fun e he => ?_, fun name sig hsig => ?_⟩
  · rw [hreports.errors] at he
    rcases List.mem_append.mp he with he | he
    · exact (resolveErrors_plain _ e (hresolved.errors ▸ he)).genuine
    · exact (hreports.plain e he).genuine
  · obtain ⟨d, _, _, hsigned⟩ := signed_of_lookup hentries hsig
    exact ⟨hsigned.params, hsigned.ret⟩

/-- The steps of lowering a unit, but for the verifier. -/
theorem lowerPass_comes (config : Config) (u : SourceUnit) :
    (u.lowerPass config).Comes ⟨.empty, []⟩ fun m s' =>
      ∃ ctx kept, Lowers config u ctx kept m s'.errors := by
  rw [lowerPass]
  cases hsplit : split u.decls with
  | error e => exact .abort
  | ok r =>
    obtain ⟨types, funcs⟩ := r
    obtain ⟨htypes, hfuncs⟩ := split_ok u.decls hsplit
    obtain rfl : types = u.typeDecls := htypes
    obtain rfl : funcs = u.funcDecls := hfuncs
    refine (Pass.resolveTypes_comes config.wordBits u.typeDecls).bind ?_
    rintro _ s₁ hresolve ⟨rfl, hresolved⟩
    refine (Pass.declareFunctions_registers u.funcDecls hresolved.wf).bind ?_
    rintro ⟨signatures, kept⟩ s₂ hdeclare hregistered
    have hready := ready_of_registered hresolved hregistered
    obtain ⟨hle₂, _, ⟨new, hall, hentries⟩, hnodup, hsub, es, hreports, hkept⟩ := hregistered
    obtain rfl : signatures = new := hall
    refine (Pass.functions_comes kept hready fun d hd => ?_).bind ?_
    · obtain ⟨sig, hsig, hsigned⟩ := lookup_of_registered hentries hnodup hd
      exact ⟨sig, hsig, hsigned.length⟩
    rintro fns s₃ hfns ⟨hgoes, hlowered⟩
    have hlowers : Lowers config u ⟨config, u.types, declaredTypes u.typeDecls, signatures⟩ kept
        ⟨u.name, s₃.types, fns⟩ s₃.errors := by
      refine ⟨rfl, ⟨s₁, s₂, s₃, hsplit, hresolve, hdeclare, hfns, rfl⟩, hsub, ?_, hnodup,
        fun herr => ?_, hgoes.ready, ?_, ?_, fun d hd n hn => ?_, hlowered⟩
      · exact hentries.imp fun d entry hr => ⟨hr.1, hr.2.mono hgoes.types⟩
      · have herr₂ : s₂.errors = [] := List.prefix_nil.mp (herr ▸ hgoes.errors)
        rw [hreports.errors, List.append_eq_nil_iff] at herr₂
        exact ⟨hkept herr₂.2, hresolved.admitted herr₂.1⟩
      · rw [← hresolved.names, TypeStore.names, ← TypeStore.namedFrom_names 0]
        exact TypeStore.named_le (TypeStore.le_trans hle₂ hgoes.types)
      · rw [← hresolved.pending]
        exact TypeStore.pendingTypes_le (TypeStore.le_trans hle₂ hgoes.types)
      · refine hgoes.errors.subset ?_
        rw [hreports.errors]
        exact List.mem_append_left _ (hresolved.reported d hd n hn)
    refine .next (runOn_get s₃) ?_
    simp only
    split
    · have hverify : runOn (Pass.verify ⟨u.name, s₃.types, fns⟩) s₃ = (.ok (), s₃) :=
        Pass.verify_nothing fun herr => by
          rw [hlowers.verify_module, hlowers.unpopulated_eq_nil herr]
          rfl
      exact .next hverify (.pure ⟨_, kept, hlowers⟩)
    · exact .pure ⟨_, kept, hlowers⟩

theorem lowers_of_lower {config : Config} {u : SourceUnit} {m : Module} {errors : List LowerError}
    (h : u.lower config = (.ok m, errors)) : ∃ ctx kept, Lowers config u ctx kept m errors := by
  rw [lower] at h
  obtain ⟨r, s', hrun⟩ : ∃ r s', runOn (u.lowerPass config) ⟨.empty, []⟩ = (r, s') := ⟨_, _, rfl⟩
  have hsame : (u.lowerPass config).run ⟨.empty, []⟩ = (r, s') := hrun
  rw [hsame] at h
  cases h
  exact (lowerPass_comes config u).of_ok hrun

theorem lower_eq_ok {α : Type} {config : Config} {u : SourceUnit} {f : Module → α} {a : α}
    {errors : List LowerError} (hok : (u.lower config).1.toOption.map f = some a)
    (herrors : (u.lower config).2 = errors) :
    ∃ m, u.lower config = (.ok m, errors) ∧ f m = a := by
  obtain ⟨r, errors', hlower⟩ : ∃ r errors', u.lower config = (r, errors') := ⟨_, _, rfl⟩
  rw [hlower] at hok herrors
  cases r with
  | error f => cases hok
  | ok m => exact ⟨m, by rw [hlower, ← herrors], Option.some.inj hok⟩

/-- A unit with a type that points to itself, and a function that takes a conjunction and calls
itself. -/
def sample : SourceUnit :=
  let bool : TypeExpr := .ident .empty "bool"
  let node (n : UInt32) : Mark := ⟨⟨n⟩, .empty⟩
  let a (n : UInt32) : Expr := .ident (node n) "a"
  let b (n : UInt32) : Expr := .ident (node n) "b"
  { name := "sample"
    decls := [
      .type (node 0) ⟨"Node", .struct .empty [.mk ["val"] (.ident .empty "int") .empty,
        .mk ["next"] (.pointer .empty (.ident .empty "Node")) .empty]⟩,
      .func (node 1) ⟨"both", [.mk ["a", "b"] bool .empty], [.mk [] bool .empty],
        some (.block (node 2) [
          .ifElse (node 3) none (.binary (node 4) .logicalAnd (a 5) (b 6))
            (.block (node 7) [.ret (node 8) [a 9]]) none,
          .ret (node 10) [.call (node 11) (.ident (node 12) "both") [b 13, a 14]]])⟩]
    types := .ofList ([4, 5, 6, 9, 11, 13, 14].map fun n => (⟨n⟩, .basic .bool)) }

theorem sample_lowers :
    ∃ m, sample.lower ⟨64, true⟩ = (.ok m, []) ∧ m.functions.length = 1 := by
  exact lower_eq_ok (f := fun m => m.functions.length) (by decide +kernel) (by decide +kernel)

end SourceUnit

end Midend
