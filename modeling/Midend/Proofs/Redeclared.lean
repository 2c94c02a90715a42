import Midend.Proofs.Independence
import Midend.Proofs.Passes

/-!
# Midend.Proofs.Redeclared

Functions that are declared more than once. A name is taken by the first declaration whose signature
has no error (`firstFound`). Calls are lowered under its signature, and the code of that name is its
own; each later declaration is reported, once (`SourceUnit.lower_redeclares`). A declaration with an
error in its signature takes no name, so that the next one of its name is not reported, but lowered.
-/

namespace Midend

open Ir

def LowerError.isDuplicate : LowerError → Bool
  | .duplicateDefinition _ _ => true
  | _ => false

theorem filter_isDuplicate_of_ofCode {errors : List LowerError} (h : ∀ e ∈ errors, e.OfCode) :
    errors.filter LowerError.isDuplicate = [] := by
  rw [List.filter_eq_nil_iff]
  intro e he
  have hcode := h e he
  cases e <;> first | exact Bool.false_ne_true | exact hcode.elim

theorem signatureErrors_ofCode {types : List (TypeDecl × Span)} {decl : FuncDecl} :
    ∀ e ∈ signatureErrors types decl, e.OfCode := by
  intro e he
  obtain ⟨_, -, rfl⟩ := Option.map_eq_some_iff.mp (Option.mem_toList.mp he)
  trivial

def redeclaration (d : FuncDecl × Span) : LowerError := .duplicateDefinition d.1.name d.2

/-- Of the errors of resolving types, only those of admitting names are of that kind. -/
theorem filter_resolveErrors (decls : List (TypeDecl × Span)) :
    (resolveErrors decls).filter LowerError.isDuplicate =
      (admitErrors [] decls).filter LowerError.isDuplicate := by
  have hloop : ((admitted [] decls).filterMap (loopError? (declaredTypes decls))).filter
      LowerError.isDuplicate = [] := by
    rw [List.filter_eq_nil_iff]
    intro e he
    obtain ⟨d, -, hd⟩ := List.mem_filterMap.mp he
    rw [loopError?] at hd
    split at hd
    · cases hd
    · cases hd
      simp [LowerError.isDuplicate]
  have hundefined : ∀ e ∈ (slotted decls).filterMap
      (undefinedError? (declaredTypes decls) (slottedNames decls)), e.OfCode := by
    intro e he
    obtain ⟨d, -, hd⟩ := List.mem_filterMap.mp he
    obtain ⟨_, -, rfl⟩ := Option.map_eq_some_iff.mp hd
    trivial
  rw [resolveErrors, List.filter_append, List.filter_append, hloop,
    filter_isDuplicate_of_ofCode hundefined, List.append_nil, List.append_nil]

section

variable (types : List (TypeDecl × Span))

/-- The declaration that takes a name. -/
def firstFound (funcs : List (FuncDecl × Span)) (name : String) : Option (FuncDecl × Span) :=
  funcs.find? fun d => d.1.name = name ∧ signatureErrors types d.1 = []

/-- The declarations whose name is taken when they are reached, after those in `before`. -/
def redeclared (before : List (FuncDecl × Span)) : List (FuncDecl × Span) → List (FuncDecl × Span)
  | [] => []
  | d :: rest =>
    if (firstFound types before d.1.name).isSome then d :: redeclared (before ++ [d]) rest
    else redeclared (before ++ [d]) rest

/-- The errors of registering functions after those in `before`. -/
def registerErrors (before : List (FuncDecl × Span)) : List (FuncDecl × Span) → List LowerError
  | [] => []
  | d :: rest =>
    if (firstFound types before d.1.name).isSome then
      redeclaration d :: registerErrors (before ++ [d]) rest
    else signatureErrors types d.1 ++ registerErrors (before ++ [d]) rest

end

section

variable {types : List (TypeDecl × Span)} {before funcs : List (FuncDecl × Span)}
  {d : FuncDecl × Span} {name : String}

theorem firstFound_append (before funcs : List (FuncDecl × Span)) (name : String) :
    firstFound types (before ++ funcs) name =
      (firstFound types before name).or (firstFound types funcs name) := List.find?_append

theorem firstFound_singleton (d : FuncDecl × Span) (name : String) :
    firstFound types [d] name =
      if d.1.name = name ∧ signatureErrors types d.1 = [] then some d else none := by
  simp only [firstFound, List.find?_singleton, decide_eq_true_eq]

theorem firstFound_name (h : firstFound types funcs name = some d) : d.1.name = name := by
  have hfound := List.find?_some h
  simp only [decide_eq_true_eq] at hfound
  exact hfound.1

theorem firstFound_snoc_of_isSome (h : (firstFound types before d.1.name).isSome) (name : String) :
    firstFound types (before ++ [d]) name = firstFound types before name := by
  rw [firstFound_append, firstFound_singleton]
  split
  · rename_i hd
    rw [← hd.1, Option.or_of_isSome h]
  · exact Option.or_none

theorem firstFound_snoc_of_error (h : signatureErrors types d.1 ≠ []) (name : String) :
    firstFound types (before ++ [d]) name = firstFound types before name := by
  rw [firstFound_append, firstFound_singleton, if_neg fun hd => h hd.2, Option.or_none]

theorem firstFound_snoc_of_found (hfree : ¬ (firstFound types before d.1.name).isSome)
    (hfound : signatureErrors types d.1 = []) (name : String) :
    firstFound types (before ++ [d]) name =
      if d.1.name = name then some d else firstFound types before name := by
  rw [firstFound_append, firstFound_singleton]
  by_cases hname : d.1.name = name
  · subst hname
    rw [if_pos ⟨rfl, hfound⟩, if_pos rfl, Option.not_isSome_iff_eq_none.mp hfree, Option.none_or]
  · rw [if_neg fun hd => hname hd.1, if_neg hname, Option.or_none]

theorem firstFound_isSome_iff : (firstFound types funcs name).isSome ↔
    ∃ e ∈ funcs, e.1.name = name ∧ signatureErrors types e.1 = [] := by
  simp [firstFound]

theorem mem_redeclared_cons {c : FuncDecl × Span} : d ∈ redeclared types before (c :: funcs) ↔
    (d = c ∧ (firstFound types before c.1.name).isSome) ∨
      d ∈ redeclared types (before ++ [c]) funcs := by
  rw [redeclared]
  split <;> simp [*]

/-- A declaration is redeclared just if one before it has taken its name. -/
theorem mem_redeclared_iff : d ∈ redeclared types before funcs ↔ ∃ l₁ l₂, funcs = l₁ ++ d :: l₂ ∧
    ∃ e ∈ before ++ l₁, e.1.name = d.1.name ∧ signatureErrors types e.1 = [] := by
  induction funcs generalizing before with
  | nil => simp [redeclared]
  | cons c rest ih =>
    rw [mem_redeclared_cons, ih, firstFound_isSome_iff]
    constructor
    · rintro (⟨rfl, e, he, hname⟩ | ⟨l₁, l₂, rfl, e, he, hname⟩)
      · exact ⟨[], rest, rfl, e, by simpa using he, hname⟩
      · exact ⟨c :: l₁, l₂, rfl, e, by simpa using he, hname⟩
    · rintro ⟨l₁, l₂, hsplit, e, he, hname⟩
      cases l₁ with
      | nil =>
        cases hsplit
        exact .inl ⟨rfl, e, by simpa using he, hname⟩
      | cons _ l₁ =>
        cases hsplit
        exact .inr ⟨l₁, l₂, rfl, e, by simpa using he, hname⟩

/-- Of the errors of registering functions, those of the redeclared ones. -/
theorem filter_registerErrors (before funcs : List (FuncDecl × Span)) :
    (registerErrors types before funcs).filter LowerError.isDuplicate =
      (redeclared types before funcs).map redeclaration := by
  induction funcs generalizing before with
  | nil => rfl
  | cons d rest ih =>
    rw [registerErrors, redeclared]
    split
    · rw [List.filter_cons_of_pos rfl, ih, List.map_cons]
    · rw [List.filter_append, filter_isDuplicate_of_ofCode signatureErrors_ofCode, ih,
        List.nil_append]

end

/-! ## Registering functions and lowering them -/

/-- Of `funcs`, which come after `before`, those that take their names are kept. -/
structure Finds (types : List (TypeDecl × Span)) (before funcs kept : List (FuncDecl × Span)) :
    Prop where
  found : ∀ d ∈ kept, firstFound types (before ++ funcs) d.1.name = some d
  all : ∀ name d, firstFound types before name = none →
    firstFound types (before ++ funcs) name = some d → d ∈ kept

namespace Finds

variable {types : List (TypeDecl × Span)} {before funcs kept : List (FuncDecl × Span)}
  {d : FuncDecl × Span}

theorem nil : Finds types before [] [] := ⟨by simp, by simp +contextual⟩

theorem skip (h : Finds types (before ++ [d]) funcs kept)
    (hsame : ∀ name, firstFound types (before ++ [d]) name = firstFound types before name) :
    Finds types before (d :: funcs) kept := by
  have happend : before ++ d :: funcs = before ++ [d] ++ funcs := by simp
  refine ⟨?_, fun name c hnone => ?_⟩
  · rw [happend]
    exact h.found
  · rw [happend]
    exact h.all name c ((hsame name).trans hnone)

theorem take (h : Finds types (before ++ [d]) funcs kept)
    (hfree : ¬ (firstFound types before d.1.name).isSome)
    (hfound : signatureErrors types d.1 = []) :
    Finds types before (d :: funcs) (d :: kept) := by
  have happend : before ++ d :: funcs = before ++ [d] ++ funcs := by simp
  have hsnoc := firstFound_snoc_of_found hfree hfound
  have hself : firstFound types (before ++ d :: funcs) d.1.name = some d := by
    rw [happend, firstFound_append, hsnoc, if_pos rfl, Option.some_or]
  refine ⟨fun c hc => ?_, fun name c hnone hc => ?_⟩
  · rcases List.mem_cons.mp hc with rfl | hc
    · exact hself
    · rw [happend]
      exact h.found c hc
  · by_cases hname : d.1.name = name
    · subst hname
      obtain rfl : d = c := Option.some.inj (hself.symm.trans hc)
      exact List.mem_cons_self
    · rw [happend] at hc
      exact List.mem_cons_of_mem _ (h.all name c (by rw [hsnoc, if_neg hname, hnone]) hc)

end Finds

namespace Pass

variable {wordBits : Nat} {decls : List (TypeDecl × Span)}

/-- The functions that are registered are those that take a name, whatever the names are. Those in
`functions` have been found among the declarations in `before`. -/
theorem declareFunctions_finds (funcs : List (FuncDecl × Span)) {before : List (FuncDecl × Span)}
    {functions : Functions} {s : Session} (hs : s.types.Regular)
    (hknown : s.types.names = slottedNames decls)
    (htaken : ∀ name, (functions.lookup name).isSome = (firstFound decls before name).isSome) :
    (declareFunctions wordBits functions funcs).Comes s fun r s' =>
      s'.errors = s.errors ++ registerErrors decls before funcs ∧ Finds decls before funcs r.2 := by
  induction funcs generalizing before functions s with
  | nil => exact .pure ⟨by simp [registerErrors], .nil⟩
  | cons d rest ih =>
    obtain ⟨decl, span⟩ := d
    rw [declareFunctions, registerErrors]
    by_cases hfound : (firstFound decls before decl.name).isSome
    -- A taken name is reported, and stays with the declaration that has it.
    · have hsame := firstFound_snoc_of_isSome (d := (decl, span)) hfound
      rw [if_pos ((htaken _).trans hfound), if_pos hfound]
      refine .next (runOn_report _ s) ?_
      refine (ih (s := ⟨s.types, s.errors ++ [.duplicateDefinition decl.name span]⟩) hs hknown
        fun name => by rw [hsame, htaken]).mono ?_
      rintro r s' ⟨herrors, hfinds⟩
      refine ⟨?_, hfinds.skip hsame⟩
      rw [herrors, List.append_assoc]
      rfl
    · rw [if_neg (by rwa [htaken]), if_neg hfound]
      refine (recover_signatureOf_finds hs hknown).bind ?_
      rintro r s₁ - ⟨hext, hnames, herrors, hsome⟩
      cases r with
      | none =>
        -- The error of the signature is reported, and the name stays free.
        have herr : signatureErrors decls decl ≠ [] := by simpa using hsome
        have hsame : ∀ name, firstFound decls (before ++ [(decl, span)]) name =
            firstFound decls before name := firstFound_snoc_of_error herr
        refine (ih hext.regular hnames fun name => by rw [hsame, htaken]).mono ?_
        rintro r s' ⟨herrors', hfinds⟩
        refine ⟨?_, hfinds.skip hsame⟩
        rw [herrors', herrors, List.append_assoc]
      | some sig =>
        have herr : signatureErrors decls decl = [] := by simpa using hsome
        have hsnoc := firstFound_snoc_of_found (d := (decl, span)) hfound herr
        have htaken' : ∀ name, ((functions ++ [(decl.name, sig)]).lookup name).isSome =
            (firstFound decls (before ++ [(decl, span)]) name).isSome := by
          intro name
          rw [List.lookup_append, hsnoc, Option.isSome_or, htaken]
          by_cases hname : decl.name = name
          · simp [hname]
          · have hne : (name == decl.name) = false := beq_eq_false_iff_ne.mpr (Ne.symm hname)
            simp [hname, List.lookup_cons, hne]
        refine (ih hext.regular hnames htaken').bind ?_
        rintro ⟨all, kept⟩ s₂ - ⟨herrors', hfinds⟩
        refine .pure ⟨?_, hfinds.take hfound herr⟩
        rw [herrors', herrors, List.append_assoc]

end Pass

theorem Attempts.ofCode {ctx : Context} {s s' : Session} {attempts : List Attempt}
    (h : Attempts ctx s attempts s') : ∀ a ∈ attempts, ∀ e ∈ a.errors, e.OfCode := by
  induction h with
  | nil => simp
  | @cons s s' a types rest hrun _ ih =>
    refine List.forall_mem_cons.mpr ⟨?_, ih⟩
    obtain ⟨new, hnew, hcode⟩ := (Pass.function_accrues ctx a.decl a.span s _ _ hrun).1.errors
    obtain rfl : a.errors = new := List.append_cancel_left hnew
    intro e he
    obtain ⟨_, -, hof, -⟩ := hcode e he
    exact hof

/-- A function has code just if it has a body, and its own name. -/
theorem Attempts.named {ctx : Context} {s s' : Session} {attempts : List Attempt}
    (h : Attempts ctx s attempts s') (hready : Ready ctx s.types s.errors)
    (hsigned : ∀ a ∈ attempts, ∃ sig, ctx.functions.lookup a.decl.name = some sig ∧
      sig.params.length = (Field.flatten a.decl.params).length) :
    ∀ a ∈ attempts, a.code.isSome = a.decl.body.isSome ∧ ∀ fn ∈ a.code, fn.name = a.decl.name := by
  induction h with
  | nil => simp
  | cons hrun _ ih =>
    obtain ⟨⟨sig, hsig, hlength⟩, hrest⟩ := List.forall_mem_cons.mp hsigned
    obtain ⟨hgoes, hsome, hlowered⟩ := (Pass.function_comes hready hsig hlength).of_ok hrun
    refine List.forall_mem_cons.mpr ⟨⟨hsome, fun fn hfn => ?_⟩, ih hgoes.ready hrest⟩
    obtain ⟨body, sig, b, -, -, rfl, hb, -⟩ := hlowered fn hfn
    exact hb.name

theorem names_sublist {attempts : List Attempt}
    (h : ∀ a ∈ attempts, ∀ fn ∈ a.code, fn.name = a.decl.name) :
    ((attempts.filterMap Attempt.code).map Function.name).Sublist
      (attempts.map fun a => a.decl.name) := by
  induction attempts with
  | nil => exact .slnil
  | cons a rest ih =>
    obtain ⟨ha, hrest⟩ := List.forall_mem_cons.mp h
    cases hcode : a.code with
    | none =>
      rw [List.filterMap_cons_none hcode]
      exact (ih hrest).cons _
    | some fn =>
      rw [List.filterMap_cons_some hcode, List.map_cons, List.map_cons, ha fn hcode]
      exact (ih hrest).cons_cons _

namespace SourceUnit

namespace Run

variable {config : Config} {u : SourceUnit} {m : Module} {errors : List LowerError}

theorem finds (r : Run config u m errors) :
    r.registered.errors = r.resolved.errors ++ registerErrors u.typeDecls [] u.funcDecls ∧
      (∀ d ∈ r.kept, firstFound u.typeDecls u.funcDecls d.1.name = some d) ∧
      ∀ name d, firstFound u.typeDecls u.funcDecls name = some d → d ∈ r.kept := by
  have hnone : ∀ name, (([] : Functions).lookup name).isSome =
      (firstFound u.typeDecls [] name).isSome := fun _ => rfl
  obtain ⟨herrors, hkept, hall⟩ := (Pass.declareFunctions_finds u.funcDecls r.isResolved.2.regular
    r.isResolved.2.names hnone).of_ok r.registers
  exact ⟨herrors, hkept, fun name d hd => hall name d rfl hd⟩

theorem ready (r : Run config u m errors) :
    Ready ⟨config, u.types, r.declared, r.functions⟩ r.registered.types r.registered.errors := by
  rw [r.isResolved.1]
  exact ready_of_registered r.isResolved.2 r.isRegistered

theorem registers_kept (r : Run config u m errors) :
    List.Forall₂ (Registers config.wordBits r.registered.types) r.kept r.functions ∧
      (r.functions.map Prod.fst).Nodup := by
  obtain ⟨_, _, ⟨new, hall, hentries⟩, hnodup, _, _⟩ := r.isRegistered
  obtain rfl : r.functions = new := hall
  exact ⟨hentries, hnodup⟩

theorem named (r : Run config u m errors) : ∀ a ∈ r.attempts,
    a.code.isSome = a.decl.body.isSome ∧ ∀ fn ∈ a.code, fn.name = a.decl.name := by
  refine r.lowers.named r.ready fun a ha => ?_
  obtain ⟨sig, hsig, hsigned⟩ := lookup_of_registered r.registers_kept.1 r.registers_kept.2
    (r.mem_kept ha)
  exact ⟨sig, hsig, hsigned.length⟩

/-- The errors about names that are already declared: those of types, and then those of functions.
-/
theorem filter_errors (r : Run config u m errors) : errors.filter LowerError.isDuplicate =
    (admitErrors [] u.typeDecls).filter LowerError.isDuplicate ++
      (redeclared u.typeDecls [] u.funcDecls).map redeclaration := by
  have hcode : ∀ e ∈ r.attempts.flatMap Attempt.errors, e.OfCode := by
    intro e he
    obtain ⟨a, ha, he⟩ := List.mem_flatMap.mp he
    exact r.lowers.ofCode a ha e he
  rw [r.errors_eq, r.lowers.errors_eq, r.finds.1, r.isResolved.2.errors, List.filter_append,
    List.filter_append, filter_isDuplicate_of_ofCode hcode, filter_resolveErrors,
    filter_registerErrors, List.append_nil]

theorem functions_nodup (r : Run config u m errors) : (m.functions.map Function.name).Nodup := by
  obtain ⟨hentries, hnodup⟩ := r.registers_kept
  have hkept : (r.kept.map fun d => d.1.name) = r.functions.map Prod.fst :=
    List.forall₂_eq_eq_eq ▸ (List.forall₂_map_left_iff.mpr (List.forall₂_map_right_iff.mpr
      (hentries.imp fun _ _ hd => hd.1.symm)))
  have hnames : (r.attempts.map fun a => a.decl.name) = r.functions.map Prod.fst := by
    rw [← hkept, ← r.attempted, List.map_map]
    rfl
  rw [r.module_eq]
  exact (names_sublist fun a ha => (r.named a ha).2).nodup (hnames ▸ hnodup)

end Run

/-- What a run makes of functions that are declared more than once. -/
structure Redeclares {config : Config} {u : SourceUnit} {m : Module} {errors : List LowerError}
    (r : Run config u m errors) : Prop where
  /-- Each declaration of a name that is taken is reported, once and in order, and no other. -/
  reported : errors.filter LowerError.isDuplicate =
    (admitErrors [] u.typeDecls).filter LowerError.isDuplicate ++
      (redeclared u.typeDecls [] u.funcDecls).map redeclaration
  /-- These are the declarations after one of their name whose signature has no error. -/
  taken : ∀ d, d ∈ redeclared u.typeDecls [] u.funcDecls ↔ ∃ l₁ l₂, u.funcDecls = l₁ ++ d :: l₂ ∧
    ∃ e ∈ l₁, e.1.name = d.1.name ∧ signatureErrors u.typeDecls e.1 = []
  /-- No two functions of the module have the same name, -/
  nodup : (m.functions.map Function.name).Nodup
  /-- and each is lowered from the declaration that takes its name. -/
  code : ∀ fn ∈ m.functions, ∃ a ∈ r.attempts, a.code = some fn ∧
    firstFound u.typeDecls u.funcDecls fn.name = some (a.decl, a.span)
  /-- If that has a body, there is such a function. -/
  present : ∀ name d, firstFound u.typeDecls u.funcDecls name = some d → d.1.body.isSome →
    ∃ fn ∈ m.functions, fn.name = name
  /-- Calls are lowered under its signature. -/
  signature : ∀ name, Option.Rel
    (fun d sig => d.1.name = name ∧ SignedAs config.wordBits r.registered.types d.1 sig)
    (firstFound u.typeDecls u.funcDecls name) (r.functions.lookup name)

/-- A unit that is lowered has each of its names from the declaration that takes it. -/
theorem Run.redeclares {config : Config} {u : SourceUnit} {m : Module} {errors : List LowerError}
    (r : Run config u m errors) : Redeclares r := by
  obtain ⟨-, hkept, hall⟩ := r.finds
  obtain ⟨hentries, hnodup⟩ := r.registers_kept
  refine ⟨r.filter_errors, fun d => mem_redeclared_iff, r.functions_nodup, fun fn hfn => ?_,
    fun name d hd hbody => ?_, fun name => ?_⟩
  · rw [r.module_eq] at hfn
    obtain ⟨a, ha, hcode⟩ := List.mem_filterMap.mp hfn
    refine ⟨a, ha, hcode, ?_⟩
    rw [(r.named a ha).2 fn hcode]
    exact hkept _ (r.mem_kept ha)
  · have hd' := hall name d hd
    rw [← r.attempted] at hd'
    obtain ⟨a, ha, rfl⟩ := List.mem_map.mp hd'
    obtain ⟨hsome, hname⟩ := r.named a ha
    obtain ⟨fn, hfn⟩ := Option.isSome_iff_exists.mp (hsome.trans hbody)
    refine ⟨fn, ?_, (hname fn hfn).trans (firstFound_name hd)⟩
    rw [r.module_eq]
    exact List.mem_filterMap.mpr ⟨a, ha, hfn⟩
  · cases hd : firstFound u.typeDecls u.funcDecls name with
    | some d =>
      obtain ⟨sig, hsig, hsigned⟩ := lookup_of_registered hentries hnodup (hall name d hd)
      obtain rfl := firstFound_name hd
      rw [hsig]
      exact .some ⟨rfl, hsigned⟩
    | none =>
      cases hsig : r.functions.lookup name with
      | none => exact .none
      | some sig =>
        obtain ⟨d, hmem, rfl, _⟩ := signed_of_lookup hentries hsig
        rw [hkept d hmem] at hd
        cases hd

/-- A name is taken by the first declaration whose signature can be found, and each later one is
reported. -/
theorem lower_redeclares {config : Config} {u : SourceUnit} {m : Module} {errors : List LowerError}
    (h : u.lower config = (.ok m, errors)) : ∃ r : Run config u m errors, Redeclares r := by
  obtain ⟨r⟩ := exists_run h
  exact ⟨r, r.redeclares⟩

def twice (params : List Field) : SourceUnit :=
  { name := "twice"
    decls := [.func ⟨⟨2⟩, ⟨0, 21⟩⟩ ⟨"f", params, [], some (.block ⟨⟨1⟩, .empty⟩ [])⟩,
      .func ⟨⟨4⟩, ⟨22, 33⟩⟩ ⟨"f", [], [], some (.block ⟨⟨3⟩, .empty⟩ [])⟩]
    types := .ofList [] }

/-- If the type of the parameter is found, the first declaration is lowered and the second reported.
-/
theorem lower_redeclares_twice : ∃ (m : Module)
    (r : Run ⟨64, true⟩ (twice [.mk ["x"] (.ident .empty "int") .empty]) m
      [.duplicateDefinition "f" ⟨22, 33⟩]),
    Redeclares r ∧ m.functions.map (fun fn => (fn.name, fn.params.length)) = [("f", 1)] := by
  obtain ⟨m, h, hm⟩ : ∃ m, (twice [.mk ["x"] (.ident .empty "int") .empty]).lower ⟨64, true⟩ =
      (.ok m, [.duplicateDefinition "f" ⟨22, 33⟩]) ∧
      m.functions.map (fun fn => (fn.name, fn.params.length)) = [("f", 1)] :=
    lower_eq_ok (by decide +kernel) (by decide +kernel)
  obtain ⟨r, hr⟩ := lower_redeclares h
  exact ⟨m, r, hr, hm⟩

/-- If not, only that is reported, and it is the second declaration of the name that is lowered. -/
theorem redeclared_unreported : ∃ m,
    (twice [.mk ["x"] (.ident ⟨9, 16⟩ "Missing") ⟨7, 16⟩]).lower ⟨64, true⟩ =
      (.ok m, [.undefinedType "Missing" ⟨9, 16⟩]) ∧
    m.functions.map (fun fn => (fn.name, fn.params.length)) = [("f", 0)] :=
  lower_eq_ok (by decide +kernel) (by decide +kernel)

end SourceUnit

end Midend
