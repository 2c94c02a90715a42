import Midend.Proofs.LinkFunction
import Midend.Proofs.TwinUnit
import Midend.Proofs.Verify

/-!
# Midend.Proofs.Independence

Declarations do not interfere with one another (`SourceUnit.lower_independent`). Two units with the
same declarations, in any order and with any function bodies, define the same types, find the same
errors in each declaration, and lower each function whose body they share to the same text. Only the
numbers of types differ, and which untyped constants have a definition.
-/

namespace Midend

open Ir Ir.TypeStore

/-- What lowering a declared function came to: its code, if it has any, and the errors that were
reported meanwhile. -/
structure Attempt where
  decl : FuncDecl
  span : Span
  code : Option Function
  errors : List LowerError

/-- The functions are lowered one after the other. -/
inductive Attempts (ctx : Context) : Session → List Attempt → Session → Prop where
  | nil {s : Session} : Attempts ctx s [] s
  | cons {s s' : Session} {a : Attempt} {types : TypeStore} {rest : List Attempt} :
      runOn (Pass.function ctx a.decl a.span) s = (.ok a.code, ⟨types, s.errors ++ a.errors⟩) →
      Attempts ctx ⟨types, s.errors ++ a.errors⟩ rest s' → Attempts ctx s (a :: rest) s'

theorem Pass.functions_attempts {ctx : Context} (kept : List (FuncDecl × Span)) {s s' : Session}
    {fns : List Function} (h : Ready ctx s.types s.errors)
    (hkept : ∀ d ∈ kept, ∃ sig, ctx.functions.lookup d.1.name = some sig ∧
      sig.params.length = (Field.flatten d.1.params).length)
    (hrun : runOn (Pass.functions ctx kept) s = (.ok fns, s')) :
    ∃ attempts, Attempts ctx s attempts s' ∧ attempts.map (fun a => (a.decl, a.span)) = kept ∧
      fns = attempts.filterMap Attempt.code := by
  induction kept generalizing s fns with
  | nil =>
    cases hrun
    exact ⟨[], .nil, rfl, rfl⟩
  | cons d rest ih =>
    obtain ⟨decl, span⟩ := d
    obtain ⟨sig, hsig, hlength⟩ := hkept (decl, span) (by simp)
    obtain ⟨code, s₁, hfunction, hrun⟩ := runOn_bind_eq_ok hrun
    obtain ⟨fns', s₂, hrest, hlast⟩ := runOn_bind_eq_ok hrun
    cases hlast
    obtain ⟨hgoes, _⟩ := (Pass.function_comes h hsig hlength).of_ok hfunction
    obtain ⟨new, hnew⟩ := hgoes.errors
    obtain ⟨attempts, hattempts, hmap, rfl⟩ :=
      ih hgoes.ready (fun d hd => hkept d (by simp [hd])) hrest
    obtain ⟨types, errors⟩ := s₁
    obtain rfl : s.errors ++ new = errors := hnew
    refine ⟨⟨decl, span, code, new⟩ :: attempts, .cons hfunction hattempts,
      by rw [List.map_cons, hmap], ?_⟩
    cases code <;> simp [*]

theorem Attempts.extends {ctx : Context} {s s' : Session} {attempts : List Attempt}
    (h : Attempts ctx s attempts s') (hs : s.types.Regular)
    (hc : Lower.SameUnit s.types s.types ctx ctx) :
    Extends Declarable s.types s'.types ∧ ∀ a ∈ attempts, ∃ (t : Session) (types : TypeStore),
      Extends Declarable s.types t.types ∧ Extends Declarable types s'.types ∧
        runOn (Pass.function ctx a.decl a.span) t =
          (.ok a.code, ⟨types, t.errors ++ a.errors⟩) := by
  induction h with
  | nil => exact ⟨.refl hs, by simp⟩
  | @cons s s' a types rest hrun _ ih =>
    have htwin : Twin Declarable s.types s.types := .refl hs fun _ hname => hname
    obtain ⟨hext, _⟩ := Pass.function_agrees htwin hc hrun hrun
    obtain ⟨hrest, hall⟩ := ih hext.regular (hc.extend htwin hext hext)
    refine ⟨hext.trans hrest, fun b hb => ?_⟩
    rcases List.mem_cons.mp hb with rfl | hb
    · exact ⟨s, types, .refl hs, hrest, hrun⟩
    · obtain ⟨t, types', ht, ht', hb⟩ := hall b hb
      exact ⟨t, types', hext.trans ht, ht', hb⟩

theorem Attempts.errors_eq {ctx : Context} {s s' : Session} {attempts : List Attempt}
    (h : Attempts ctx s attempts s') : s'.errors = s.errors ++ attempts.flatMap Attempt.errors := by
  induction h with
  | nil => simp
  | cons _ _ ih => rw [ih, List.flatMap_cons, List.append_assoc]

namespace SourceUnit

/-- The stages in which a unit is lowered to a module: its types are resolved, its functions are
registered, and those that were kept are lowered. -/
structure Run (config : Config) (u : SourceUnit) (m : Module) (errors : List LowerError) where
  declared : Declared
  functions : Functions
  kept : List (FuncDecl × Span)
  resolved : Session
  registered : Session
  final : Session
  attempts : List Attempt
  resolves : runOn (Pass.resolveTypes config.wordBits u.typeDecls) ⟨.empty, []⟩ =
    (.ok declared, resolved)
  registers : runOn (Pass.declareFunctions config.wordBits [] u.funcDecls) resolved =
    (.ok (functions, kept), registered)
  lowers : Attempts ⟨config, u.types, declared, functions⟩ registered attempts final
  attempted : attempts.map (fun a => (a.decl, a.span)) = kept
  module_eq : m = ⟨u.name, final.types, attempts.filterMap Attempt.code⟩
  errors_eq : errors = final.errors

/-- Every unit that is lowered to a module goes through the stages. -/
theorem exists_run {config : Config} {u : SourceUnit} {m : Module} {errors : List LowerError}
    (h : u.lower config = (.ok m, errors)) : Nonempty (Run config u m errors) := by
  obtain ⟨wordBits, verify⟩ := config
  obtain ⟨s, hrun, rfl⟩ : ∃ s, runOn (u.lowerPass ⟨wordBits, verify⟩) ⟨.empty, []⟩ = (.ok m, s) ∧
      s.errors = errors := by
    rw [lower] at h
    obtain ⟨r, s, hrun⟩ : ∃ r s, (u.lowerPass ⟨wordBits, verify⟩).run ⟨.empty, []⟩ = (r, s) :=
      ⟨_, _, rfl⟩
    rw [hrun] at h
    cases h
    exact ⟨s, hrun, rfl⟩
  rw [lowerPass_unverified, lowerPass] at hrun
  cases hsplit : split u.decls with
  | error e =>
    rw [hsplit] at hrun
    cases hrun
  | ok r =>
    obtain ⟨types, funcs⟩ := r
    obtain ⟨htypes, hfuncs⟩ := split_ok u.decls hsplit
    obtain rfl : types = u.typeDecls := htypes
    obtain rfl : funcs = u.funcDecls := hfuncs
    rw [hsplit] at hrun
    obtain ⟨declared, s₁, hresolve, hrun⟩ := runOn_bind_eq_ok hrun
    obtain ⟨⟨functions, kept⟩, s₂, hdeclare, hrun⟩ := runOn_bind_eq_ok hrun
    obtain ⟨fns, s₃, hfunctions, hrun⟩ := runOn_bind_eq_ok hrun
    cases hrun
    have hsame : Pass.functions ⟨⟨wordBits, verify⟩, u.types, declared, functions⟩ kept =
        Pass.functions ⟨⟨wordBits, false⟩, u.types, declared, functions⟩ kept :=
      Pass.functions_withVerify ⟨⟨wordBits, false⟩, u.types, declared, functions⟩ verify kept
    rw [← hsame] at hfunctions
    obtain ⟨rfl, hresolved⟩ := (Pass.resolveTypes_comes wordBits u.typeDecls).of_ok hresolve
    have hregistered := (Pass.declareFunctions_registers u.funcDecls hresolved.wf).of_ok hdeclare
    have hready := @ready_of_registered ⟨wordBits, verify⟩ _ _ _ _ _ hresolved hregistered
    obtain ⟨_, _, ⟨new, hall, hentries⟩, hnodup, _, _⟩ := hregistered
    obtain rfl : functions = new := hall
    obtain ⟨attempts, hattempts, hmap, rfl⟩ := Pass.functions_attempts kept hready (fun d hd => by
      obtain ⟨sig, hsig, hsigned⟩ := lookup_of_registered hentries hnodup hd
      exact ⟨sig, hsig, hsigned.length⟩) hfunctions
    exact ⟨⟨_, _, kept, s₁, s₂, s, attempts, hresolve, hdeclare, hattempts, hmap, rfl, rfl⟩⟩

namespace Run

variable {config : Config} {u : SourceUnit} {m : Module} {errors : List LowerError}

theorem isResolved (r : Run config u m errors) :
    r.declared = declaredTypes u.typeDecls ∧ Resolved config.wordBits u.typeDecls r.resolved :=
  (Pass.resolveTypes_comes config.wordBits u.typeDecls).of_ok r.resolves

theorem isRegistered (r : Run config u m errors) :
    Registered config.wordBits [] u.funcDecls r.resolved r.registered r.functions r.kept :=
  (Pass.declareFunctions_registers u.funcDecls r.isResolved.2.wf).of_ok r.registers

theorem keeps (r : Run config u m errors) (hnodup : (u.funcDecls.map fun d => d.1.name).Nodup) :
    Extends (fun _ => True) r.resolved.types r.registered.types ∧
      r.registered.errors =
        r.resolved.errors ++ u.funcDecls.flatMap (fun d => signatureErrors u.typeDecls d.1) ∧
      r.kept = u.funcDecls.filter fun d => signatureErrors u.typeDecls d.1 = [] :=
  (Pass.declareFunctions_keeps u.funcDecls r.isResolved.2.regular r.isResolved.2.names hnodup
    (by simp)).of_ok r.registers

theorem mem_kept (r : Run config u m errors) {a : Attempt} (ha : a ∈ r.attempts) :
    (a.decl, a.span) ∈ r.kept := r.attempted ▸ List.mem_map_of_mem ha

end Run

/-! ## Two runs -/

/-- What two function declarations have in common if only their bodies differ. -/
def header (d : FuncDecl × Span) : String × List Field × List Field × Span :=
  (d.1.name, d.1.params, d.1.results, d.2)

/-- The units declare the same, in any order and with any function bodies, under distinct names, and
their type table names no type of an untyped constant. -/
structure SameDecls (u u' : SourceUnit) : Prop where
  table : u'.types = u.types
  types : u.typeDecls.Perm u'.typeDecls
  functions : (u.funcDecls.map header).Perm (u'.funcDecls.map header)
  typeNames : (u.typeDecls.map fun d => d.1.name).Nodup
  functionNames : (u.funcDecls.map fun d => d.1.name).Nodup
  unreserved : ∀ entry ∈ u.types.entries, ∀ name ∈ entry.2.names, name ∉ reservedTypeNames

namespace SameDecls

variable {u u' : SourceUnit}

theorem functionNames' (h : SameDecls u u') : (u'.funcDecls.map fun d => d.1.name).Nodup := by
  have hperm := h.functions.map Prod.fst
  simp only [List.map_map] at hperm
  exact hperm.nodup_iff.mp h.functionNames

theorem exists_same (h : SameDecls u u') {d : FuncDecl × Span} (hd : d ∈ u.funcDecls) :
    ∃ d' ∈ u'.funcDecls, header d' = header d :=
  List.mem_map.mp (h.functions.mem_iff.mp (List.mem_map_of_mem hd))

theorem symm (h : SameDecls u u') : SameDecls u' u where
  table := h.table.symm
  types := h.types.symm
  functions := h.functions.symm
  typeNames := (h.types.map _).nodup_iff.mp h.typeNames
  functionNames := h.functionNames'
  unreserved := h.table ▸ h.unreserved

theorem refl (h : SameDecls u u') : SameDecls u u :=
  { h with table := rfl, types := .refl _, functions := .refl _ }

theorem header_eq (h : SameDecls u u') {d d' : FuncDecl × Span} (hd : d ∈ u.funcDecls)
    (hd' : d' ∈ u'.funcDecls) (hname : d.1.name = d'.1.name) : header d = header d' := by
  obtain ⟨e, he, hsame⟩ := h.symm.exists_same hd'
  obtain rfl : e = d := by
    refine List.inj_on_of_nodup_map h.functionNames he hd ?_
    exact (congrArg Prod.fst hsame).trans hname.symm
  exact hsame

end SameDecls

section

variable {config : Config} {u u' : SourceUnit} {m m' : Module} {errors errors' : List LowerError}
  (r : Run config u m errors) (r' : Run config u' m' errors') (h : SameDecls u u')

include h

theorem Run.twin_registered : Twin Declarable r.registered.types r'.registered.types := by
  have htwin := r.isResolved.2.twin r'.isResolved.2 h.types h.typeNames
  exact (htwin.extend (r.keeps h.functionNames).1 (r'.keeps h.functionNames').1).mono
    (fun _ _ => trivial) fun _ hname => hname

theorem Run.mem_kept_iff {d d' : FuncDecl × Span} (hd : d ∈ u.funcDecls) (hd' : d' ∈ u'.funcDecls)
    (hsame : header d' = header d) : d ∈ r.kept ↔ d' ∈ r'.kept := by
  simp only [header, Prod.mk.injEq] at hsame
  have herrors := signatureErrors_perm h.types h.typeNames hsame.2.1.symm hsame.2.2.1.symm
  simp [(r.keeps h.functionNames).2.2, (r'.keeps h.functionNames').2.2, hd, hd', herrors]

theorem Run.signature {name : String} {sig : Signature}
    (hsig : r.functions.lookup name = some sig) :
    ∃ sig', r'.functions.lookup name = some sig' ∧
      Typing.SameSignature r.registered.types r'.registered.types sig sig' := by
  obtain ⟨_, _, ⟨new, hall, hentries⟩, _, hsub, _⟩ := r.isRegistered
  obtain ⟨_, _, ⟨new', hall', hentries'⟩, hnodup', _, _⟩ := r'.isRegistered
  obtain rfl : r.functions = new := hall
  obtain rfl : r'.functions = new' := hall'
  obtain ⟨d, hd, rfl, hsigned⟩ := signed_of_lookup hentries hsig
  have hmem := hsub.subset hd
  obtain ⟨d', hd', hsame⟩ := h.exists_same hmem
  have hkept := (r.mem_kept_iff r' h hmem hd' hsame).mp hd
  obtain ⟨sig', hsig', hsigned'⟩ := lookup_of_registered hentries' hnodup' hkept
  simp only [header, Prod.mk.injEq] at hsame
  obtain ⟨hname, hparams, hresults, _⟩ := hsame
  rw [hname] at hsig'
  refine ⟨sig', hsig', ?_⟩
  have hwhole := (r.isResolved.2.twin r'.isResolved.2 h.types h.typeNames).extend
    (r.keeps h.functionNames).1 (r'.keeps h.functionNames').1
  have hfound := hsigned.found _ (le_refl _)
  have hfound' := hsigned'.found _ (le_refl _)
  have hdecl : signatureOf config.wordBits d'.1 = signatureOf config.wordBits d.1 := by
    simp only [signatureOf, hparams, hresults]
  rw [hdecl] at hfound'
  obtain ⟨_, _, _, _, ⟨_, _, hrun, hrun', hsigs⟩ | ⟨_, hrun, _⟩⟩ :=
    Typing.signatureOf_agrees (fun _ => trivial) config.wordBits d.1 hwhole
  · rw [hfound] at hrun
    rw [hfound'] at hrun'
    cases hrun
    cases hrun'
    exact hsigs
  · rw [hfound] at hrun
    cases hrun

theorem Run.sameUnit : Lower.SameUnit r.registered.types r'.registered.types
    ⟨config, u.types, r.declared, r.functions⟩ ⟨config, u'.types, r'.declared, r'.functions⟩ where
  config := rfl
  table := h.table
  names id c hc := by
    obtain ⟨before, after, hsplit, _⟩ := List.lookup_eq_some_iff.mp hc
    exact h.unreserved (id, c) (by rw [hsplit]; simp)
  unsigned c := by
    simp only [r.isResolved.1, r'.isResolved.1]
    exact (isUnsigned_congr (lookup_declaredTypes_perm h.types h.typeNames) c).symm
  declared name := by
    simp only [r.isResolved.1, r'.isResolved.1]
    rw [lookup_declaredTypes_perm h.types h.typeNames]
  functions name := by
    cases hsig : r.functions.lookup name with
    | some sig =>
      obtain ⟨sig', hsig', hsame⟩ := r.signature r' h hsig
      rw [hsig']
      exact .some hsame
    | none =>
      cases hsig' : r'.functions.lookup name with
      | none => exact .none
      | some sig' =>
        obtain ⟨_, hsome, _⟩ := r'.signature r h.symm hsig'
        rw [hsig] at hsome
        cases hsome
  scope _ := .none

end

/-- The runs agree on everything that their units have in common. -/
structure Independent {config : Config} {u u' : SourceUnit} {m m' : Module}
    {errors errors' : List LowerError} (r : Run config u m errors) (r' : Run config u' m' errors') :
    Prop where
  /-- The same names are defined, but for those of untyped constants. -/
  defined : ∀ name, name ∉ reservedTypeNames →
    ((m.types.lookup? name).isSome ↔ (m'.types.lookup? name).isSome)
  /-- A declared type whose alias chain ends is defined. -/
  declared : ∀ name ∈ slottedNames u.typeDecls,
    (∃ id, (name, id) ∈ m.types.named) ∧ ∃ id', (name, id') ∈ m'.types.named
  /-- What is defined in both has the same text. -/
  definitions : ∀ name id id', (name, id) ∈ m.types.named → (name, id') ∈ m'.types.named →
    ∃ text, m.typeText? (name, id) = some text ∧ m'.typeText? (name, id') = some text
  /-- Each type declaration has the same errors. -/
  typeErrors : (∀ d, typeErrors u.typeDecls d = typeErrors u'.typeDecls d) ∧
    r.resolved.errors.Perm (u.typeDecls.flatMap (typeErrors u.typeDecls)) ∧
    r'.resolved.errors.Perm (u'.typeDecls.flatMap (typeErrors u'.typeDecls))
  /-- Each signature has the same errors, and a function without them is lowered. -/
  signatureErrors : (∀ d ∈ u.funcDecls, ∀ d' ∈ u'.funcDecls, d.1.name = d'.1.name →
      signatureErrors u.typeDecls d.1 = signatureErrors u'.typeDecls d'.1) ∧
    r.registered.errors =
      r.resolved.errors ++ u.funcDecls.flatMap (fun d => signatureErrors u.typeDecls d.1) ∧
    r'.registered.errors =
      r'.resolved.errors ++ u'.funcDecls.flatMap (fun d => signatureErrors u'.typeDecls d.1) ∧
    (r.kept = u.funcDecls.filter fun d => signatureErrors u.typeDecls d.1 = []) ∧
    r'.kept = u'.funcDecls.filter fun d => signatureErrors u'.typeDecls d.1 = []
  /-- All other errors are those of bodies. -/
  bodyErrors : errors = r.registered.errors ++ r.attempts.flatMap Attempt.errors ∧
    errors' = r'.registered.errors ++ r'.attempts.flatMap Attempt.errors
  /-- A function with the same body has the same errors and the same text. -/
  functions : ∀ a ∈ r.attempts, ∀ a' ∈ r'.attempts, a.decl.name = a'.decl.name →
    a.decl.body = a'.decl.body → a.errors = a'.errors ∧
      Option.Rel (fun fn fn' => Written (fn.text? m.types) (fn'.text? m'.types)) a.code a'.code

section

variable {config : Config} {u u' : SourceUnit} {m m' : Module} {errors errors' : List LowerError}
  (r : Run config u m errors) (r' : Run config u' m' errors') (h : SameDecls u u')

include h

theorem Run.extends : Extends Declarable r.registered.types r.final.types ∧
    ∀ a ∈ r.attempts, ∃ (t : Session) (types : TypeStore),
      Extends Declarable r.registered.types t.types ∧ Extends Declarable types r.final.types ∧
        runOn (Pass.function ⟨config, u.types, r.declared, r.functions⟩ a.decl a.span) t =
          (.ok a.code, ⟨types, t.errors ++ a.errors⟩) :=
  r.lowers.extends (r.twin_registered r h.refl).left (r.sameUnit r h.refl)

include r in
theorem Run.declares {name : String} (hname : name ∈ slottedNames u.typeDecls) :
    ∃ id, (name, id) ∈ m.types.named := by
  rw [← r.isResolved.2.names, ← lookup?_isSome] at hname
  obtain ⟨id, hid⟩ := Option.isSome_iff_exists.mp hname
  obtain ⟨body, hslot⟩ := slot?_of_lookup? hid
  have hle := le_trans (r.keeps h.functionNames).1.le (r.extends h).1.le
  rw [r.module_eq]
  exact ⟨id, mem_named.mpr ⟨body, slot?_le hle hslot⟩⟩

theorem Run.twin_final : Twin Declarable r.final.types r'.final.types :=
  (r.twin_registered r' h).extend (r.extends h).1 (r'.extends h.symm).1

theorem Run.attempt_agrees {a a' : Attempt} (ha : a ∈ r.attempts) (ha' : a' ∈ r'.attempts)
    (hname : a.decl.name = a'.decl.name) (hbody : a.decl.body = a'.decl.body) :
    a.errors = a'.errors ∧
      Option.Rel (Function.Same r.final.types r'.final.types) a.code a'.code := by
  obtain ⟨t, types, ht, htypes, hrun⟩ := (r.extends h).2 a ha
  obtain ⟨t', types', ht', htypes', hrun'⟩ := (r'.extends h.symm).2 a' ha'
  have hheader := h.header_eq (r.isRegistered.sublist.subset (r.mem_kept ha))
    (r'.isRegistered.sublist.subset (r'.mem_kept ha')) hname
  simp only [header, Prod.mk.injEq] at hheader
  obtain ⟨_, hparams, hresults, hspan⟩ := hheader
  have hdecl : a.decl = a'.decl := by
    cases hd : a.decl
    cases hd' : a'.decl
    simp_all
  rw [← hdecl, ← hspan] at hrun'
  have htwin := r.twin_registered r' h
  obtain ⟨hext, hext', ⟨new, hnew, hnew'⟩, hcode⟩ := Pass.function_agrees (htwin.extend ht ht')
    ((r.sameUnit r' h).extend htwin ht ht') hrun hrun'
  refine ⟨(List.append_cancel_left hnew).trans (List.append_cancel_left hnew').symm, ?_⟩
  have hafter := (htwin.extend ht ht').extend hext hext'
  exact hcode.imp fun _ _ hsame => hsame.grow fun _ _ hij => hafter.alike htypes htypes' hij

theorem Run.independent : Independent r r' := by
  have htwin := r.twin_final r' h
  have hm := r.module_eq
  have hm' := r'.module_eq
  have hresolve := r.isResolved.2.errors
  have hresolve' := r'.isResolved.2.errors
  have hdeclared {name : String} (hname : name ∈ slottedNames u.typeDecls) :
      name ∈ slottedNames u'.typeDecls :=
    (slottedNames_perm h.types h.typeNames).mem_iff.mp hname
  refine ⟨fun name hname => ?_,
    fun name hname => ⟨r.declares h hname, r'.declares h.symm (hdeclared hname)⟩,
    fun name i j hi hj => ?_, ⟨fun d => ?_, ?_, ?_⟩,
    ⟨fun d hd d' hd' hname => ?_, (r.keeps h.functionNames).2.1, (r'.keeps h.functionNames').2.1,
      (r.keeps h.functionNames).2.2, (r'.keeps h.functionNames').2.2⟩, ⟨?_, ?_⟩,
    fun a ha a' ha' hname hbody => ?_⟩
  · rw [hm, hm']
    exact htwin.known name hname
  · rw [hm, mem_named] at hi
    rw [hm', mem_named] at hj
    obtain ⟨a, hi⟩ := hi
    obtain ⟨b, hj⟩ := hj
    have hsame := definition?_eq htwin.left.wf htwin.right.wf hi hj (htwin.bodies _ _ _ _ _ hi hj)
    obtain ⟨text, htext⟩ := htwin.left.wf.founded.definition?_isSome (index_lt hi)
    refine ⟨"%" ++ name ++ " = type " ++ text ++ "\n", ?_, ?_⟩
    · simp only [Module.typeText?, hm, htext, Option.map_some]
    · simp only [Module.typeText?, hm', ← hsame, htext, Option.map_some]
  · exact typeErrors_perm h.types h.typeNames d
  · rw [hresolve]
    exact resolveErrors_perm h.typeNames
  · rw [hresolve']
    exact resolveErrors_perm h.symm.typeNames
  · have hheader := h.header_eq hd hd' hname
    simp only [header, Prod.mk.injEq] at hheader
    exact signatureErrors_perm h.types h.typeNames hheader.2.1 hheader.2.2.1
  · exact r.errors_eq.trans r.lowers.errors_eq
  · exact r'.errors_eq.trans r'.lowers.errors_eq
  · obtain ⟨herrors, hcode⟩ := r.attempt_agrees r' h ha ha' hname hbody
    refine ⟨herrors, hcode.imp fun _ _ hsame => ?_⟩
    rw [hm, hm']
    exact hsame.text htwin.left.wf htwin.right.wf

end

/-- Declarations do not interfere with one another. -/
theorem lower_independent {config : Config} {u u' : SourceUnit} {m m' : Module}
    {errors errors' : List LowerError} (hsame : SameDecls u u')
    (h : u.lower config = (.ok m, errors)) (h' : u'.lower config = (.ok m', errors')) :
    ∃ (r : Run config u m errors) (r' : Run config u' m' errors'), Independent r r' := by
  obtain ⟨r⟩ := exists_run h
  obtain ⟨r'⟩ := exists_run h'
  exact ⟨r, r', r.independent r' hsame⟩

/-- Two types that refer to each other, a function that returns its argument, and a function of the
given body. `turned` gives the declarations in the opposite order. -/
def crossed (turned : Bool) (body : List Stmt) : SourceUnit :=
  let node (n : UInt32) : Mark := ⟨⟨n⟩, .empty⟩
  let struct (name elem : String) : TypeDecl :=
    ⟨name, .struct .empty [.mk ["next"] (.pointer .empty (.ident .empty elem)) .empty]⟩
  let bool : TypeExpr := .ident .empty "bool"
  let keep : FuncDecl := ⟨"keep", [.mk ["a"] bool .empty], [.mk [] bool .empty],
    some (.block (node 4) [.ret (node 5) [.ident (node 6) "a"]])⟩
  let decls : List Decl := [.type (node 0) (struct "A" "B"), .type (node 1) (struct "B" "A"),
    .func (node 2) keep, .func (node 3) ⟨"other", [], [], some (.block (node 7) body)⟩]
  { name := "crossed"
    decls := if turned then decls.reverse else decls
    types := .ofList [(⟨6⟩, .basic .bool), (⟨9⟩, .basic .untypedBool)] }

def constantTest : Stmt :=
  let node (n : UInt32) : Mark := ⟨⟨n⟩, .empty⟩
  .ifElse (node 8) none (.ident (node 9) "true") (.block (node 10) []) none

/-- The order and the bodies of two units differ, and only one of them defines the type of an
untyped constant. -/
theorem lower_independent_crossed :
    ∃ (m m' : Module) (r : Run ⟨64, true⟩ (crossed false []) m [])
      (r' : Run ⟨64, true⟩ (crossed true [constantTest]) m' []),
      Independent r r' ∧ m'.types.named.length = m.types.named.length + 1 := by
  have hsame : SameDecls (crossed false []) (crossed true [constantTest]) :=
    ⟨rfl, .swap _ _ _, .swap _ _ _, by decide, by decide, by decide +kernel⟩
  have hnamed : ((crossed false []).lower ⟨64, true⟩).1.toOption.map (·.types.named.length) =
      some 2 := by decide +kernel
  have hnamed' : ((crossed true [constantTest]).lower ⟨64, true⟩).1.toOption.map
      (·.types.named.length) = some 3 := by decide +kernel
  have herrors : ((crossed false []).lower ⟨64, true⟩).2 = [] := by decide +kernel
  have herrors' : ((crossed true [constantTest]).lower ⟨64, true⟩).2 = [] := by decide +kernel
  obtain ⟨m, h, hm⟩ : ∃ m, (crossed false []).lower ⟨64, true⟩ = (.ok m, []) ∧
      m.types.named.length = 2 := lower_eq_ok hnamed herrors
  obtain ⟨m', h', hm'⟩ : ∃ m, (crossed true [constantTest]).lower ⟨64, true⟩ = (.ok m, []) ∧
      m.types.named.length = 3 := lower_eq_ok hnamed' herrors'
  obtain ⟨r, r', hr⟩ := lower_independent hsame h h'
  exact ⟨m, m', r, r', hr, by rw [hm, hm']⟩

end SourceUnit

end Midend
