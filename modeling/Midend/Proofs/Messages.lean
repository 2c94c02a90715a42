import Midend.Proofs.Legible
import Midend.Proofs.Points
import Midend.Proofs.Verifier
import Midend.Proofs.WrittenType

/-!
# Midend.Proofs.Messages

What messages say of types. At each point of a run two types are shown alike just if they are the
same type, so that no message about a mismatch shows one text twice (`SourceUnit.types_legible`).

The texts are legible because the types are in order (`SourceUnit.Reaches.ordered`). This is so even
where a run is aborted in the middle of a function. That an error is about different types is known
where it is reported, and the types with these texts are still there at the end of the run.
-/

namespace Midend

open Ir

namespace Pass

/-- A step that leaves well-formed types behind, however it ends. -/
def Safe {α : Type} (m : Pass α) : Prop := ∀ s : Session, s.types.WF → (runOn m s).2.types.WF

namespace Safe

variable {α β : Type}

theorem pure (a : α) : Safe (Pure.pure a) := fun _ h => h

theorem report (e : LowerError) : Safe (Pass.report e) := fun _ h => h

theorem bind {m : Pass α} {f : α → Pass β} (hm : Safe m) (hf : ∀ a, Safe (f a)) :
    Safe (m >>= f) := by
  intro s hs
  obtain ⟨r, s₁, hrun⟩ := exists_runOn m s
  have hfirst := hm s hs
  rw [hrun] at hfirst
  rw [runOn_bind, hrun]
  cases r with
  | ok a => exact hf a s₁ hfirst
  | error e => exact hfirst

end Safe

theorem recover_safe {α : Type} {m : Typing α}
    (hm : ∀ t : TypeStore, t.WF → (runOn m t).2.WF) : Safe (recover m) := by
  intro s hs
  obtain ⟨r, types, hrun⟩ := exists_runOn m s.types
  have hw := hm s.types hs
  rw [hrun] at hw
  rw [runOn_recover, hrun]
  cases r with
  | ok a => exact hw
  | error f => cases f <;> exact hw

theorem declareFunctions_safe (wordBits : Nat) (functions : Functions)
    (funcs : List (FuncDecl × Span)) : Safe (declareFunctions wordBits functions funcs) := by
  induction funcs generalizing functions with
  | nil => exact .pure _
  | cons d rest ih =>
    rw [declareFunctions.eq_def]
    dsimp only
    split
    · exact (Safe.report _).bind fun _ => ih functions
    · have hsig : ∀ t : TypeStore, t.WF → (runOn (signatureOf wordBits d.1) t).2.WF :=
        fun t ht => (Typing.signatureOf_adds wordBits d.1 ht).2.1
      refine (recover_safe hsig).bind fun r => ?_
      cases r with
      | none => exact ih functions
      | some sig => exact (ih _).bind fun _ => .pure _

theorem verify_safe (m : Module) : Safe (verify m) := by
  have hreport : ∀ vs, Safe (reportViolations vs) := by
    intro vs
    induction vs with
    | nil => exact .pure _
    | cons v rest ih => exact (Safe.report _).bind fun _ => ih
  intro s hs
  rw [verify, runOn_bind_ok (runOn_get s)]
  split
  · split
    · exact hreport _ s hs
    · exact hs
  · exact hs

theorem function_wf {ctx : Context} {decl : FuncDecl} {sig : Signature} {s : Session}
    (h : Ready ctx s.types s.errors) (hsig : ctx.functions.lookup decl.name = some sig)
    (hlength : sig.params.length = (Field.flatten decl.params).length) (span : Span) :
    (runOn (Pass.function ctx decl span) s).2.types.WF := by
  cases hbody : decl.body with
  | none =>
    rw [Pass.function, hbody]
    exact h.wf
  | some body =>
    obtain ⟨hproper, hret⟩ := h.functions _ _ hsig
    have hw := functionBody_wf body span h hproper hret hlength
    obtain ⟨r, σ, hrun⟩ := exists_runOn (Lower.functionBody ctx decl sig body span)
      ⟨s.types, s.errors, Builder.start decl.name sig.ret⟩
    rw [hrun] at hw
    rw [Pass.runOn_function span hbody hsig, hrun]
    cases r <;> exact hw

theorem functions_wf {ctx : Context} (kept : List (FuncDecl × Span)) {s : Session}
    (h : Ready ctx s.types s.errors)
    (hkept : ∀ d ∈ kept, ∃ sig, ctx.functions.lookup d.1.name = some sig ∧
      sig.params.length = (Field.flatten d.1.params).length) :
    (runOn (Pass.functions ctx kept) s).2.types.WF := by
  induction kept generalizing s with
  | nil => exact h.wf
  | cons d rest ih =>
    obtain ⟨decl, span⟩ := d
    obtain ⟨⟨sig, hsig, hlength⟩, hrest⟩ := List.forall_mem_cons.mp hkept
    have hw := function_wf h hsig hlength span
    obtain ⟨r, s₁, hrun⟩ := exists_runOn (Pass.function ctx decl span) s
    rw [functions, runOn_bind, hrun]
    cases r with
    | error f =>
      rw [hrun] at hw
      exact hw
    | ok fn =>
      have hready := ((Pass.function_comes h hsig hlength).of_ok hrun).1.ready
      have hothers := ih hready hrest
      obtain ⟨r, s₂, hrun₂⟩ := exists_runOn (functions ctx rest) s₁
      dsimp only
      rw [hrun₂] at hothers
      rw [runOn_bind, hrun₂]
      cases r <;> exact hothers

end Pass

namespace SourceUnit

variable {config : Config} {u : SourceUnit} {s : Session} {t : TypeStore}

theorem Passes.wf_last (h : u.Passes config s t) : (u.lastTypes config).WF := by
  obtain ⟨declared, hresolve⟩ := h.resolves
  obtain ⟨rfl, hresolved⟩ := (Pass.resolveTypes_comes config.wordBits u.typeDecls).of_ok hresolve
  rw [lastTypes, lowerPass_eq h.splits, runOn_bind_ok hresolve, afterTypes]
  have hdeclared := Pass.declareFunctions_safe config.wordBits [] u.funcDecls s hresolved.wf
  obtain ⟨r, s₂, hdeclare⟩ :=
    exists_runOn (Pass.declareFunctions config.wordBits [] u.funcDecls) s
  rw [hdeclare] at hdeclared
  cases r with
  | error f =>
    rw [runOn_bind_error hdeclare]
    exact hdeclared
  | ok registered =>
    obtain ⟨functions, kept⟩ := registered
    have hregistered := (Pass.declareFunctions_registers u.funcDecls hresolved.wf).of_ok hdeclare
    have hready := @ready_of_registered config _ _ _ _ _ hresolved hregistered
    obtain ⟨_, _, ⟨new, hall, hentries⟩, hnodup, _, _⟩ := hregistered
    obtain rfl : functions = new := hall
    have hfunctions := Pass.functions_wf kept hready fun d hd => by
      obtain ⟨sig, hsig, hsigned⟩ := lookup_of_registered hentries hnodup hd
      exact ⟨sig, hsig, hsigned.length⟩
    rw [runOn_bind_ok hdeclare]
    obtain ⟨r, s₃, hrun⟩ := exists_runOn
      (Pass.functions ⟨config, u.types, declaredTypes u.typeDecls, functions⟩ kept) s₂
    rw [hrun] at hfunctions
    cases r with
    | error f =>
      rw [runOn_bind_error hrun]
      exact hfunctions
    | ok fns =>
      rw [runOn_bind_ok hrun, runOn_bind_ok (runOn_get s₃)]
      dsimp only
      split
      · exact (Pass.verify_safe _).bind (fun _ => .pure _) s₃ hfunctions
      · exact hfunctions

/-- At every point the types are in order. -/
theorem Reaches.ordered (h : u.Reaches config t) : t.Ordered := by
  rcases h.cases with ⟨r, hle, hw, -⟩ | ⟨s, hpasses⟩
  · exact hw.ordered.of_le hle
  · exact hpasses.wf_last.ordered.of_le hpasses.upTo

theorem mem_typeDecls_of_admitted {d : TypeDecl × Span} (hd : d ∈ admitted [] u.typeDecls) :
    d ∈ u.typeDecls :=
  List.mem_of_find?_eq_some ((mem_admitted_iff [] u.typeDecls).mp hd).2.2

theorem word_of_reserved : ∀ name ∈ reservedTypeNames, TypeStore.Word name := by
  refine fun name hname => TypeStore.word_of_identifier ?_
  revert name
  simp [reservedTypeNames]

theorem Reaches.words (h : u.Reaches config t)
    (hdecls : ∀ d ∈ u.typeDecls, TypeStore.Word d.1.name) :
    ∀ name ∈ t.names, TypeStore.Word name := by
  intro name hname
  rcases h.cases with ⟨r, hle, -, hnames⟩ | ⟨s, hpasses⟩
  · obtain ⟨d, hd, rfl⟩ := hnames name (TypeStore.mem_names_le hle hname)
    exact hdecls d (mem_typeDecls_of_admitted hd)
  · by_cases hslotted : name ∈ slottedNames u.typeDecls
    · obtain ⟨d, hd, rfl⟩ := List.mem_map.mp hslotted
      exact hdecls d (mem_typeDecls_of_admitted (List.mem_filter.mp hd).1)
    · obtain ⟨kind, _, _, hkind, _⟩ := hpasses.made hname hslotted
      exact word_of_reserved name (BasicKind.mem_reserved_of_definitions hkind)

theorem Reaches.ref?_ne (h : u.Reaches config t)
    (hdecls : ∀ d ∈ u.typeDecls, TypeStore.Word d.1.name) {s : TypeStore} (hle : s ≤ t)
    {a b : TypeId} {x y : String} (hne : a ≠ b) (ha : s.ref? a = some x) (hb : s.ref? b = some y) :
    x ≠ y := fun hxy => by
  have hwords : ∀ name ∈ s.names, TypeStore.Word name := fun name hname =>
    h.words hdecls name (TypeStore.mem_names_le hle hname)
  exact hne (((h.ordered.of_le hle).ref?_eq_iff hwords ha hb).mp hxy)

/-! ## What is reported -/

theorem quiet_of_admitErrors (taken : List String) (decls : List (TypeDecl × Span)) :
    ∀ e ∈ admitErrors taken decls, e.Quiet := by
  induction decls generalizing taken with
  | nil => simp [admitErrors]
  | cons d rest ih =>
    rw [admitErrors]
    split_ifs
    · exact List.forall_mem_cons.mpr ⟨trivial, ih taken⟩
    · exact List.forall_mem_cons.mpr ⟨trivial, ih taken⟩
    · exact ih _

theorem quiet_of_keeps {s s' : Session} (h : s.Keeps LowerError.Quiet s')
    (hs : ∀ e ∈ s.errors, e.Quiet) : ∀ e ∈ s'.errors, e.Quiet := by
  obtain ⟨new, hnew, hquiet⟩ := h.errors
  rw [hnew]
  exact fun e he => (List.mem_append.mp he).elim (hs e) (hquiet e)

theorem quiet_of_scaffoldTypes {declared : Declared}
    {r : Except Fault (List (TypeId × TypeDecl × Span))}
    (hrun : runOn (Pass.scaffoldTypes declared (admitted [] u.typeDecls)) u.admittedSession =
      (r, s)) : ∀ e ∈ s.errors, e.Quiet := by
  have hkeeps := Pass.scaffoldTypes_keeping declared (admitted [] u.typeDecls) u.admittedSession
  rw [hrun] at hkeeps
  exact quiet_of_keeps hkeeps (quiet_of_admitErrors [] u.typeDecls)

theorem quiet_of_populateTypes {wordBits : Nat} {declared : Declared}
    {slots : List (TypeId × TypeDecl × Span)} {s₀ : Session} {r : Except Fault Unit}
    (hrun : runOn (Pass.populateTypes wordBits declared slots) s₀ = (r, s))
    (hs₀ : ∀ e ∈ s₀.errors, e.Quiet) : ∀ e ∈ s.errors, e.Quiet := by
  have hkeeps := Pass.populateTypes_keeping wordBits declared slots s₀
  rw [hrun] at hkeeps
  exact quiet_of_keeps hkeeps hs₀

theorem apart_of_mem {e : LowerError} (h : e ∈ (u.lower config).2) :
    e.ArisesBy LowerError.Apart (u.lastTypes config) := by
  have hmem : e ∈ (runOn (u.lowerPass config) ⟨.empty, []⟩).2.errors := h
  have hquiet (hq : e.Quiet) : e.ArisesBy LowerError.Apart (u.lastTypes config) := .here hq.apart
  cases stage config u with
  | splitting _ hrun =>
    rw [hrun] at hmem
    cases hmem
  | scaffolding _ hslots hrun =>
    rw [hrun] at hmem
    exact hquiet (quiet_of_scaffoldTypes hslots e hmem)
  | populating _ hslots hbodies hrun =>
    rw [hrun] at hmem
    exact hquiet (quiet_of_populateTypes hbodies (quiet_of_scaffoldTypes hslots) e hmem)
  | resolved hslots hbodies hpasses =>
    obtain ⟨new, hnew, hall⟩ := hpasses.accrues.errors
    rw [hnew] at hmem
    rcases List.mem_append.mp hmem with hold | hmem
    · exact hquiet (quiet_of_populateTypes hbodies (quiet_of_scaffoldTypes hslots) e hold)
    · exact hall e hmem

end SourceUnit

namespace Ir

theorem bind_eq_ok {α β : Type} {x : Except Breach α} {f : α → Except Breach β} {b : β}
    (h : x >>= f = .ok b) : ∃ a, x = .ok a ∧ f a = .ok b := by
  cases x with
  | error e => cases h
  | ok a => exact ⟨a, rfl, h⟩

theorem mem_of_mapM_ok {α β : Type} {f : α → Except Breach β} {l : List α} {found : List β}
    (h : l.mapM f = .ok found) {b : β} (hb : b ∈ found) : ∃ a ∈ l, f a = .ok b := by
  induction l generalizing found with
  | nil =>
    cases h
    cases hb
  | cons a rest ih =>
    rw [List.mapM_cons] at h
    obtain ⟨first, hfirst, h⟩ := bind_eq_ok h
    obtain ⟨others, hothers, h⟩ := bind_eq_ok h
    cases h
    rcases List.mem_cons.mp hb with rfl | hb
    · exact ⟨a, List.mem_cons_self, hfirst⟩
    · obtain ⟨a', ha', hmem⟩ := ih hothers hb
      exact ⟨a', List.mem_cons_of_mem _ ha', hmem⟩

theorem TypeStore.ref?_of_ref {s : TypeStore} {id : TypeId} {text : String}
    (h : s.ref id = .ok text) : s.ref? id = some text := by
  rw [TypeStore.ref] at h
  split at h
  · rename_i htext
    cases h
    exact htext
  · cases h

/-- The violation, if it is about the type of what is returned, has the texts of two types. -/
def Violation.Apart (s : TypeStore) : Violation → Prop
  | .returnMismatch _ _ expected actual =>
    ∃ i j, i ≠ j ∧ s.ref? i = some expected ∧ s.ref? j = some actual
  | _ => True

variable {types : TypeStore} {f : Function} {vs : List Violation}

namespace Function

theorem operandViolations_apart {block : BlockId} {t : Terminator}
    (h : f.operandViolations types block t = .ok vs) : ∀ v ∈ vs, v.Apart types := by
  cases t with
  | br | unreachable =>
    cases h
    simp
  | condBr cond thenBlock elseBlock =>
    obtain ⟨body, -, h⟩ := bind_eq_ok h
    split at h
    · cases h
      simp
    · obtain ⟨actual, -, h⟩ := bind_eq_ok h
      cases h
      simp [Violation.Apart]
  | ret value =>
    cases value with
    | none =>
      obtain ⟨ret, -, h⟩ := bind_eq_ok h
      split at h
      · cases h
        simp
      · obtain ⟨expected, -, h⟩ := bind_eq_ok h
        cases h
        simp [Violation.Apart]
    | some value =>
      obtain ⟨ret, -, h⟩ := bind_eq_ok h
      split at h
      · cases h
        simp [Violation.Apart]
      · split at h
        · cases h
          simp
        · rename_i hne
          obtain ⟨expected, hexpected, h⟩ := bind_eq_ok h
          obtain ⟨actual, hactual, h⟩ := bind_eq_ok h
          cases h
          rintro v hv
          obtain rfl := List.mem_singleton.mp hv
          exact ⟨f.ret, value.type, Ne.symm hne, TypeStore.ref?_of_ref hexpected,
            TypeStore.ref?_of_ref hactual⟩

theorem verify_apart (h : f.verify types = .ok vs) : ∀ v ∈ vs, v.Apart types := by
  obtain ⟨found, hfound, h⟩ := bind_eq_ok h
  cases h
  intro v hv
  obtain ⟨ws, hws, hv⟩ := List.mem_flatten.mp hv
  obtain ⟨block, -, hblock⟩ := mem_of_mapM_ok hfound hws
  rw [blockViolations] at hblock
  split at hblock
  · cases hblock
    obtain rfl := List.mem_singleton.mp hv
    trivial
  · obtain ⟨operands, hoperands, h⟩ := bind_eq_ok hblock
    cases h
    rcases List.mem_append.mp hv with hv | hv
    · obtain ⟨target, -, rfl⟩ := List.mem_map.mp hv
      trivial
    · exact operandViolations_apart hoperands v hv

end Function

theorem Module.verify_apart {m : Module} (h : m.verify = .ok vs) : ∀ v ∈ vs, v.Apart m.types := by
  obtain ⟨found, hfound, h⟩ := bind_eq_ok h
  cases h
  intro v hv
  rcases List.mem_append.mp hv with hv | hv
  · obtain ⟨entry, -, rfl⟩ := List.mem_map.mp hv
    trivial
  · obtain ⟨ws, hws, hv⟩ := List.mem_flatten.mp hv
    obtain ⟨fn, -, hfn⟩ := mem_of_mapM_ok hfound hws
    exact fn.verify_apart hfn v hv

end Ir

namespace SourceUnit

variable {config : Config} {u : SourceUnit}

/-- How the types of a unit are shown. -/
structure Legible (config : Config) (u : SourceUnit) : Prop where
  /-- At every point of a run two types have texts, which are the same just if the types are. -/
  shown : ∀ t, u.Reaches config t → ∀ a b, t.Has a → t.Has b →
    ∃ x y, t.ref? a = some x ∧ t.ref? b = some y ∧ (x = y ↔ a = b)
  /-- So what is reported of two types shows two texts, -/
  reported : ∀ lhs rhs span, LowerError.typeMismatch lhs rhs span ∈ (u.lower config).2 → lhs ≠ rhs
  /-- and so does what the verifier reports of a return in any code over such types. -/
  verified : ∀ (m : Module) vs, u.Reaches config m.types → m.verify = .ok vs →
    ∀ function block expected actual,
      Violation.returnMismatch function block expected actual ∈ vs → expected ≠ actual

/-- If declared types are called by words, types are shown by texts of their own. -/
theorem types_legible (hdecls : ∀ d ∈ u.typeDecls, TypeStore.Word d.1.name) : Legible config u where
  shown t ht a b ha hb := by
    obtain ⟨x, hx⟩ := (ht.ordered.contains ha.index_lt).exists_ref
    obtain ⟨y, hy⟩ := (ht.ordered.contains hb.index_lt).exists_ref
    exact ⟨x, y, hx, hy, ht.ordered.ref?_eq_iff (ht.words hdecls) hx hy⟩
  reported lhs rhs span h := by
    obtain ⟨s, hle, i, j, hne, hlhs, hrhs⟩ := apart_of_mem h
    exact (reaches_last config u).ref?_ne hdecls hle hne hlhs hrhs
  verified m vs hm h function block expected actual hmem := by
    obtain ⟨i, j, hne, hexpected, hactual⟩ := m.verify_apart h _ hmem
    exact hm.ref?_ne hdecls (TypeStore.le_refl _) hne hexpected hactual

/-- A declared type is called as a basic kind is, and a constant of it is returned where a value of
the kind should be. -/
theorem types_legible_shadowing :
    (∀ d ∈ shadowing.typeDecls, TypeStore.Word d.1.name) ∧ Legible ⟨64, true⟩ shadowing ∧
    (shadowing.lower ⟨64, true⟩).2 = [.typeMismatch "i64" "%int" .empty] := by
  have hdecls : ∀ d ∈ shadowing.typeDecls, TypeStore.Word d.1.name := by
    refine fun d hd => TypeStore.word_of_identifier ?_
    revert d
    simp [shadowing, typeDecls]
  exact ⟨hdecls, types_legible hdecls, by decide +kernel⟩

end SourceUnit

end Midend
