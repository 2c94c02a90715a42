import Midend.Proofs.AccrueCode
import Midend.Proofs.Unit

/-!
# Midend.Proofs.Passes

The types that a unit has while its functions are registered and lowered (`SourceUnit.Passes`), and
which names of types can be found meanwhile (`SourceUnit.namedType_found`): a declared name at every
point of the run, as the same type, and no other name but for the reserved ones. Those are taken by
the definitions of untyped constants, which are made when they are first needed; a reserved name is
found from then on.
-/

namespace Midend

open Ir

namespace Pass

variable {wordBits : Nat}

theorem recover_accrues {α : Type} {P : TypeStore → LowerError → Prop} {m : Typing α}
    (hm : Accruing wordBits P m) : Accruing wordBits P (recover m) := by
  intro s r t hrun
  obtain ⟨r₁, types, hrun₁⟩ := exists_runOn m s.types
  obtain ⟨hacc, he⟩ := hm s.types r₁ types hrun₁
  have htypes : s.Accrues wordBits P ⟨types, s.errors⟩ := hacc.of_types s.errors
  rw [runOn_recover, hrun₁] at hrun
  cases r₁ with
  | ok a =>
    cases hrun
    exact ⟨htypes, by simp⟩
  | error f =>
    cases f with
    | report e =>
      cases hrun
      exact ⟨htypes.trans (Session.Accrues.report _ (he e rfl)), by simp⟩
    | abort u =>
      cases hrun
      exact ⟨htypes, by simp⟩
    | breach b =>
      cases hrun
      exact ⟨htypes, by simp⟩

theorem report_accrues {P : TypeStore → LowerError → Prop} {e : LowerError} (he : ∀ s, P s e) :
    Accruing wordBits P (report e) := by
  intro s r t hrun
  rw [runOn_report] at hrun
  cases hrun
  exact ⟨Session.Accrues.report s (.here (he _)), by simp⟩

/-- Registering functions also reports which are redeclared. -/
theorem declareFunctions_accrues (wordBits : Nat) (functions : Functions)
    (funcs : List (FuncDecl × Span)) :
    Accruing wordBits LowerError.Apart (declareFunctions wordBits functions funcs) := by
  induction funcs generalizing functions with
  | nil => exact .pure _
  | cons d rest ih =>
    rw [declareFunctions.eq_def]
    dsimp only
    split
    · exact (report_accrues fun _ => trivial).bind fun _ => ih functions
    · have hsig := (Typing.signatureOf_accrues wordBits d.1).mono fun r _ h => (h.inCode (s := r)).2
      refine (recover_accrues hsig).bind fun r => ?_
      cases r with
      | none => exact ih functions
      | some sig => exact (ih _).bind fun _ => .pure _

theorem verify_accrues (m : Module) : Accruing wordBits LowerError.InCode (verify m) := by
  have hreport : ∀ vs, Accruing wordBits LowerError.InCode (reportViolations vs) := by
    intro vs
    induction vs with
    | nil => exact .pure _
    | cons v rest ih => exact (report_accrues fun _ => ⟨trivial, trivial⟩).bind fun _ => ih
  refine .get fun s => ?_
  split
  · split
    · exact hreport _
    · exact .throw (by simp)
  · exact .pure _

end Pass

namespace SourceUnit

/-- What follows when the types of the unit are resolved. -/
def afterTypes (config : Config) (u : SourceUnit) (declared : Declared) : Pass Module := do
  let (signatures, kept) ← Pass.declareFunctions config.wordBits [] u.funcDecls
  let functions ← Pass.functions ⟨config, u.types, declared, signatures⟩ kept
  let m : Module := ⟨u.name, (← get).types, functions⟩
  if config.verify then Pass.verify m
  return m

theorem lowerPass_eq {config : Config} {u : SourceUnit}
    (h : split u.decls = .ok (u.typeDecls, u.funcDecls)) : u.lowerPass config = (do
      let declared ← Pass.resolveTypes config.wordBits u.typeDecls
      u.afterTypes config declared) := by
  rw [lowerPass, h]
  rfl

theorem afterTypes_accrues (config : Config) (u : SourceUnit) (declared : Declared) :
    Accruing config.wordBits LowerError.Apart (u.afterTypes config declared) := by
  refine (Pass.declareFunctions_accrues _ _ _).bind fun r => ?_
  refine ((Pass.functions_accrues _ r.2).mono fun _ _ h => h.2).bind fun fns => .get fun s => ?_
  dsimp only
  split
  · exact ((Pass.verify_accrues _).mono fun _ _ h => h.2).bind fun _ => .pure _
  · exact .pure _

/-- The types at the end of the run, be that a module or an abort. -/
def lastTypes (config : Config) (u : SourceUnit) : TypeStore :=
  (runOn (u.lowerPass config) ⟨.empty, []⟩).2.types

theorem accrues_afterTypes {config : Config} {u : SourceUnit} {declared : Declared} {s : Session}
    (hsplit : split u.decls = .ok (u.typeDecls, u.funcDecls))
    (hrun : runOn (Pass.resolveTypes config.wordBits u.typeDecls) ⟨.empty, []⟩ =
      (.ok declared, s)) :
    s.Accrues config.wordBits LowerError.Apart (runOn (u.lowerPass config) ⟨.empty, []⟩).2 := by
  rw [lowerPass_eq hsplit, runOn_bind_ok hrun]
  exact (afterTypes_accrues config u declared s _ _ rfl).1

/-- The types of the unit were resolved in `s`, and lowering it comes to the types `t` after that. A
step only adds types at the end, one by one, so a run comes to those from the first to the last. -/
structure Passes (config : Config) (u : SourceUnit) (s : Session) (t : TypeStore) : Prop where
  splits : split u.decls = .ok (u.typeDecls, u.funcDecls)
  resolves : ∃ declared, runOn (Pass.resolveTypes config.wordBits u.typeDecls) ⟨.empty, []⟩ =
    (.ok declared, s)
  since : s.types ≤ t
  upTo : t ≤ u.lastTypes config

theorem passes_last {config : Config} {u : SourceUnit} {declared : Declared} {s : Session}
    (hsplit : split u.decls = .ok (u.typeDecls, u.funcDecls))
    (hrun : runOn (Pass.resolveTypes config.wordBits u.typeDecls) ⟨.empty, []⟩ =
      (.ok declared, s)) :
    u.Passes config s (u.lastTypes config) :=
  ⟨hsplit, ⟨declared, hrun⟩, (accrues_afterTypes hsplit hrun).types, TypeStore.le_refl _⟩

theorem passes_of_isSome {config : Config} {u : SourceUnit}
    (hsplit : split u.decls = .ok (u.typeDecls, u.funcDecls))
    (hok : (runOn (Pass.resolveTypes config.wordBits u.typeDecls)
      ⟨.empty, []⟩).1.toOption.isSome = true) :
    u.Passes config (runOn (Pass.resolveTypes config.wordBits u.typeDecls) ⟨.empty, []⟩).2
      (u.lastTypes config) := by
  obtain ⟨declared, hdeclared⟩ := Option.isSome_iff_exists.mp hok
  exact passes_last hsplit (runOn_of_toOption hdeclared)

end SourceUnit

/-- Of two stores on the way to a third, one is on the way to the other. -/
theorem Ir.TypeStore.le_total_of_le {s t u : TypeStore} (hs : s ≤ u) (ht : t ≤ u) :
    s ≤ t ∨ t ≤ s := by
  have hle : ∀ {a b : TypeStore}, a ≤ u → b ≤ u → a.size ≤ b.size → a ≤ b := by
    intro a b ha hb hsize
    refine ⟨fun id slot hslot => ?_,
      fun id slot hslot hp => ha.pending id slot (hb.slot _ _ hslot) hp⟩
    obtain ⟨other, hother⟩ : ∃ other, b.slot? id = some other :=
      ⟨_, Array.getElem?_eq_getElem (Nat.lt_of_lt_of_le (TypeStore.index_lt hslot) hsize)⟩
    have hsame := (hb.slot id other hother).symm.trans (ha.slot id slot hslot)
    rw [hother, Option.some.inj hsame]
  exact (Nat.le_total s.size t.size).imp (hle hs ht) (hle ht hs)

theorem Ir.TypeStore.mem_names_le {s t : TypeStore} (h : s ≤ t) {name : String}
    (hname : name ∈ s.names) : name ∈ t.names := by
  obtain ⟨id, hid⟩ := Option.isSome_iff_exists.mp (TypeStore.lookup?_isSome.mpr hname)
  exact TypeStore.lookup?_isSome.mp (by rw [TypeStore.lookup?_le h hid]; rfl)

namespace SourceUnit.Passes

variable {config : Config} {u : SourceUnit} {s : Session} {t : TypeStore}

theorem resolved (h : u.Passes config s t) : Resolved config.wordBits u.typeDecls s := by
  obtain ⟨declared, hrun⟩ := h.resolves
  exact ((Pass.resolveTypes_comes config.wordBits u.typeDecls).of_ok hrun).2

theorem accrues (h : u.Passes config s t) :
    s.Accrues config.wordBits LowerError.Apart (runOn (u.lowerPass config) ⟨.empty, []⟩).2 := by
  obtain ⟨declared, hrun⟩ := h.resolves
  exact accrues_afterTypes h.splits hrun

theorem first (h : u.Passes config s t) : u.Passes config s s.types :=
  { h with since := TypeStore.le_refl _, upTo := TypeStore.le_trans h.since h.upTo }

theorem mem_names (h : u.Passes config s t) {name : String}
    (hname : name ∈ slottedNames u.typeDecls) : name ∈ t.names :=
  TypeStore.mem_names_le h.since (h.resolved.names.symm ▸ hname)

/-- A name that is not declared is that of a definition that was begun on the way. -/
theorem made (h : u.Passes config s t) {name : String} (hname : name ∈ t.names)
    (hnot : name ∉ slottedNames u.typeDecls) : ∃ kind span s₁,
      name ∈ BasicKind.definitions kind ∧ u.Passes config s s₁ ∧ s₁ ≤ t ∧ name ∉ s₁.names ∧
        (runOn (Typing.basic config.wordBits kind span) s₁).2 ≤ u.lastTypes config := by
  have hlast := h.accrues.names name (TypeStore.mem_names_le h.upTo hname)
  obtain ⟨kind, span, s₁, hkind, hsince, hfree, hupTo⟩ :=
    hlast.resolve_left fun hold => hnot (h.resolved.names ▸ hold)
  have hs₁ : s₁ ≤ u.lastTypes config :=
    TypeStore.le_trans (Typing.basic_grows config.wordBits kind span s₁ _ _ rfl).1 hupTo
  refine ⟨kind, span, s₁, hkind, ⟨h.splits, h.resolves, hsince, hs₁⟩, ?_, hfree, hupTo⟩
  refine (TypeStore.le_total_of_le hs₁ h.upTo).resolve_right fun hle => ?_
  exact hfree (TypeStore.mem_names_le hle hname)

end SourceUnit.Passes

theorem not_mem_slottedNames {decls : List (TypeDecl × Span)} {name : String}
    (h : name ∈ reservedTypeNames) : name ∉ slottedNames decls := by
  intro hname
  obtain ⟨d, hd, rfl⟩ := List.mem_map.mp hname
  exact ((mem_admitted_iff [] decls).mp (List.mem_filter.mp hd).1).1 h

namespace Typing

variable {s : TypeStore} {name : String}

theorem runOn_named_of_mem (h : name ∈ s.names) : ∃ id, s.lookup? name = some id ∧
    ∀ t, s ≤ t → ∀ span, runOn (named name span) t = (.ok id, t) := by
  obtain ⟨id, hid⟩ := Option.isSome_iff_exists.mp (TypeStore.lookup?_isSome.mpr h)
  exact ⟨id, hid, fun t ht span => by rw [runOn_named, TypeStore.lookup?_le ht hid]⟩

theorem runOn_named_of_not_mem (h : name ∉ s.names) (span : Span) :
    runOn (named name span) s = (.error (.report (.undefinedType name span)), s) := by
  rw [runOn_named, Option.not_isSome_iff_eq_none.mp (mt TypeStore.lookup?_isSome.mp h)]

end Typing

/-! ## Which names are found -/

namespace SourceUnit

/-- What a named type comes to at the point `t` of a run whose types were resolved in `s`. -/
structure NamedFound (config : Config) (u : SourceUnit) (s : Session) (t : TypeStore)
    (name : String) (span : Span) : Prop where
  /-- A declared name stands for its own definition at every point. -/
  declared : name ∈ slottedNames u.typeDecls → ∃ id, s.types.lookup? name = some id ∧
    runOn (Typing.ofChecked config.wordBits span (.named name)) t = (.ok id, t)
  /-- A name that is neither declared nor reserved is undefined at every point. -/
  undeclared : name ∉ slottedNames u.typeDecls → name ∉ reservedTypeNames →
    runOn (Typing.ofChecked config.wordBits span (.named name)) t =
      (.error (.report (.undefinedType name span)), t)
  /-- A reserved name is never declared, and undefined at first. -/
  reserved : name ∈ reservedTypeNames → name ∉ slottedNames u.typeDecls ∧
    runOn (Typing.ofChecked config.wordBits span (.named name)) s.types =
      (.error (.report (.undefinedType name span)), s.types)
  /-- It is found from where an untyped constant has been given a type that rests on it, -/
  once : ∀ kind at_, name ∈ BasicKind.definitions kind →
    ∃ id, ∀ t', (runOn (Typing.basic config.wordBits kind at_) t).2 ≤ t' →
      runOn (Typing.ofChecked config.wordBits span (.named name)) t' = (.ok id, t')
  /-- and only if there was such a constant before. -/
  only : name ∈ reservedTypeNames → ∀ id t',
    runOn (Typing.ofChecked config.wordBits span (.named name)) t = (.ok id, t') →
      ∃ kind at_ s₁, name ∈ BasicKind.definitions kind ∧ u.Passes config s s₁ ∧ s₁ ≤ t ∧
        name ∉ s₁.names ∧
        (runOn (Typing.basic config.wordBits kind at_) s₁).2 ≤ u.lastTypes config

/-- Which named types are found does not depend on what was lowered before, but for the reserved
names. -/
theorem namedType_found {config : Config} {u : SourceUnit} {s : Session} {t : TypeStore}
    (h : u.Passes config s t) (name : String) (span : Span) :
    NamedFound config u s t name span where
  declared hdeclared := by
    obtain ⟨id, hid, hfound⟩ := Typing.runOn_named_of_mem (h.first.mem_names hdeclared)
    exact ⟨id, hid, hfound t h.since span⟩
  undeclared hnot hfree := Typing.runOn_named_of_not_mem (fun hname => by
    obtain ⟨kind, _, _, hkind, _⟩ := h.made hname hnot
    exact hfree (BasicKind.mem_reserved_of_definitions hkind)) span
  reserved hreserved := by
    have hnot : name ∉ slottedNames u.typeDecls := not_mem_slottedNames hreserved
    exact ⟨hnot, Typing.runOn_named_of_not_mem (h.resolved.names.symm ▸ hnot) span⟩
  once kind at_ hkind := by
    obtain ⟨id, -, hfound⟩ := Typing.runOn_named_of_mem
      ((Typing.mem_names_basic config.wordBits kind at_ t name).mpr (.inr hkind))
    exact ⟨id, fun t' ht' => hfound t' ht' span⟩
  only hreserved id t' hrun := by
    refine h.made ?_ (not_mem_slottedNames hreserved)
    by_contra hnot
    have hnone := Typing.runOn_named_of_not_mem hnot span
    rw [Typing.ofChecked, hnone] at hrun
    cases hrun

/-- A function of one integer constant, whose type is in the table under the number `n`. -/
def constantFunc (name : String) (n : UInt32) : Decl :=
  let node (k : UInt32) : Mark := ⟨⟨k⟩, .empty⟩
  .func (node (n + 1)) ⟨name, [], [], some (.block (node (n + 2))
    [.expr (node (n + 3)) (.lit (node n) .int "1")])⟩

/-- Two such functions. The constant of `f` is untyped, and that of `g` has a type that is called as
the type of untyped integers is, and is not declared. -/
def constants (decls : List Decl) : SourceUnit :=
  { name := "constants"
    decls
    types := .ofList [(⟨10⟩, .basic .untypedInt), (⟨20⟩, .named "untyped_int")] }

def untypedFirst : SourceUnit := constants [constantFunc "f" 10, constantFunc "g" 20]

def untypedLast : SourceUnit := constants [constantFunc "g" 20, constantFunc "f" 10]

theorem untypedFirst_passes : untypedFirst.Passes ⟨64, true⟩ ⟨.empty, []⟩
    (untypedFirst.lastTypes ⟨64, true⟩) := @passes_last _ _ [] _ rfl rfl

theorem namedType_found_constants :
    untypedFirst.Passes ⟨64, true⟩ ⟨.empty, []⟩ (untypedFirst.lastTypes ⟨64, true⟩) ∧
    NamedFound ⟨64, true⟩ untypedFirst ⟨.empty, []⟩ (untypedFirst.lastTypes ⟨64, true⟩)
      "untyped_int" .empty :=
  ⟨untypedFirst_passes, namedType_found untypedFirst_passes "untyped_int" .empty⟩

/-- At the end of the run a name is found that is not declared, so that the order of the functions
decides whether the unit has an error. -/
theorem namedType_found_undeclared : "untyped_int" ∉ slottedNames untypedFirst.typeDecls ∧
    untypedFirst.Passes ⟨64, true⟩ ⟨.empty, []⟩ (untypedFirst.lastTypes ⟨64, true⟩) ∧
    (∃ id, runOn (Typing.ofChecked 64 .empty (.named "untyped_int"))
      (untypedFirst.lastTypes ⟨64, true⟩) = (.ok id, untypedFirst.lastTypes ⟨64, true⟩)) ∧
    (untypedFirst.lower ⟨64, true⟩).2 = [] ∧
    (untypedLast.lower ⟨64, true⟩).2 = [.undefinedType "untyped_int" .empty] := by
  have hlook : (untypedFirst.lastTypes ⟨64, true⟩).lookup? "untyped_int" = some ⟨1⟩ := by
    decide +kernel
  refine ⟨by decide, untypedFirst_passes, ⟨⟨1⟩, ?_⟩, by decide +kernel, by decide +kernel⟩
  rw [Typing.ofChecked, Typing.runOn_named, hlook]

end SourceUnit

end Midend
