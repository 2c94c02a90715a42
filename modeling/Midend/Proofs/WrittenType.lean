import Midend.Proofs.Passes
import Midend.Proofs.TwinTyping

/-!
# Midend.Proofs.WrittenType

A type as written in a declaration and the type that the checker has for it (`CheckedAs`) are given
their types in a store by two different functions. For each point of a run, they come to the same
type exactly if no declared name in it is that of a basic kind
(`SourceUnit.ofExpr_eq_ofChecked_iff`). Such a name stands for the kind in a declaration, and for
the declared type in an expression.
-/

namespace Midend

open Ir

/-- The type that a type of the checker stands for. -/
def CheckedType.idIn? (s : TypeStore) (wordBits : Nat) : CheckedType → Option TypeId
  | .basic kind => kind.idIn? s wordBits
  | .named name => s.lookup? name
  | .pointer elem => (idIn? s wordBits elem).bind fun elem => s.interned? (.pointer elem)
  | .struct _ | .slice _ | .tuple _ | .signature => none

/-- The type of the checker for a type as written: a basic kind, one of the names, or a pointer to
such a type. -/
inductive CheckedAs (names : List String) : TypeExpr → CheckedType → Prop where
  | basic {span : Span} {name : String} {kind : BasicKind} :
      BasicKind.ofName? name = some kind → CheckedAs names (.ident span name) (.basic kind)
  | address {span : Span} :
      CheckedAs names (.qualified span "unsafe" "Pointer") (.basic .unsafePointer)
  | named {span : Span} {name : String} :
      name ∈ names → CheckedAs names (.ident span name) (.named name)
  | pointer {span : Span} {e : TypeExpr} {c : CheckedType} :
      CheckedAs names e c → CheckedAs names (.pointer span e) (.pointer c)

/-- No declared name in the type is that of a basic kind. -/
def CheckedType.Unshadowed (c : CheckedType) : Prop :=
  ∀ name ∈ c.names, BasicKind.ofName? name = none

namespace Typing

variable {α β : Type} {s : TypeStore} {wordBits : Nat} {id : TypeId}

theorem intern_of_interned? {body : Ty} (h : s.interned? body = some id) :
    runOn (ofStore (TypeStore.intern body)) s = (.ok id, s) := by
  rw [runOn_ofStore, TypeStore.intern_of_some h]

theorem basic_of_idIn? {kind : BasicKind} (h : kind.idIn? s wordBits = some id) (span : Span) :
    runOn (basic wordBits kind span) s = (.ok id, s) := by
  obtain ⟨body, hbody, hid⟩ := Option.bind_eq_some_iff.mp h
  have hcomplex : ∀ k,
      (s.interned? (.float k)).map (fun part => Ty.struct [part, part]) = some body →
      runOn (complex k) s = (.ok id, s) := by
    intro k hk
    obtain ⟨part, hpart, rfl⟩ := Option.map_eq_some_iff.mp hk
    exact (runOn_bind_ok (intern_of_interned? hpart)).trans (intern_of_interned? hid)
  cases kind with
  | complex64 | complex128 => exact hcomplex _ hbody
  | string =>
    simp only [BasicKind.bodyIn?, Option.bind_eq_bind, Option.bind_eq_some_iff] at hbody
    obtain ⟨byte, hbyte, data, hdata, length, hlength, hstruct⟩ := hbody
    cases hstruct
    have hfields : runOn stringFields s = (.ok [data, length], s) :=
      (runOn_bind_ok (intern_of_interned? hbyte)).trans
        ((runOn_bind_ok (intern_of_interned? hdata)).trans
          (runOn_bind_ok (intern_of_interned? hlength)))
    exact (runOn_bind_ok hfields).trans (intern_of_interned? hid)
  | invalid | untypedBool | untypedInt | untypedRune | untypedFloat | untypedComplex
  | untypedString | untypedNil => cases hbody
  | _ =>
    cases hbody
    exact intern_of_interned? hid

theorem basic_plain {kind : BasicKind} (h : kind.isPlain = true) (span span' : Span) :
    basic wordBits kind span = basic wordBits kind span' := by
  cases kind <;> first | rfl | cases h

/-- From `s` the step comes to a result with the property, and adds types at most. -/
def Leads (m : Typing α) (s : TypeStore) (P : α → TypeStore → Prop) : Prop :=
  ∃ a t, runOn m s = (.ok a, t) ∧ s ≤ t ∧ P a t

namespace Leads

variable {P : α → TypeStore → Prop} {Q : β → TypeStore → Prop}

theorem bind {m : Typing α} {f : α → Typing β} (hm : Leads m s P)
    (hf : ∀ a t, s ≤ t → P a t → Leads (f a) t Q) : Leads (m >>= f) s Q := by
  obtain ⟨a, t, hrun, hle, hp⟩ := hm
  obtain ⟨b, u, hrun', hle', hq⟩ := hf a t hle hp
  exact ⟨b, u, by rw [runOn_bind_ok hrun, hrun'], TypeStore.le_trans hle hle', hq⟩

theorem mono {P' : α → TypeStore → Prop} {m : Typing α} (hm : Leads m s P)
    (h : ∀ a t, s ≤ t → P a t → P' a t) : Leads m s P' := by
  obtain ⟨a, t, hrun, hle, hp⟩ := hm
  exact ⟨a, t, hrun, hle, h a t hle hp⟩

theorem pure {a : α} (h : P a s) : Leads (Pure.pure a) s P :=
  ⟨a, s, runOn_pure a s, TypeStore.le_refl s, h⟩

theorem intern (body : Ty) (hp : body.isPending = false) :
    Leads (ofStore (TypeStore.intern body)) s fun id t => t.interned? body = some id :=
  ⟨_, _, runOn_ofStore _ s, TypeStore.le_intern s hp, TypeStore.interned?_intern s body⟩

theorem complex (kind : FloatKind) : Leads (complex kind) s fun id t =>
    ((t.interned? (.float kind)).map fun part => Ty.struct [part, part]).bind t.interned? =
      some id := by
  refine (intern (.float kind) rfl).bind fun part s₁ _ hpart => ?_
  refine (intern (.struct [part, part]) rfl).mono fun id t hle hid => ?_
  rw [TypeStore.interned?_le hle hpart]
  exact hid

theorem string (span : Span) : Leads (basic wordBits .string span) s fun id t =>
    BasicKind.string.idIn? t wordBits = some id := by
  have hfields : Leads stringFields s fun fields t => ∃ byte data length,
      t.interned? (.int 8) = some byte ∧ t.interned? (.pointer byte) = some data ∧
        t.interned? (.int 64) = some length ∧ fields = [data, length] := by
    refine (intern (.int 8) rfl).bind fun byte s₁ _ hbyte => ?_
    refine (intern (.pointer byte) rfl).bind fun data s₂ hle₂ hdata => ?_
    refine (intern (.int 64) rfl).bind fun length s₃ hle₃ hlength => .pure ?_
    exact ⟨byte, data, length, TypeStore.interned?_le (TypeStore.le_trans hle₂ hle₃) hbyte,
      TypeStore.interned?_le hle₃ hdata, hlength, rfl⟩
  refine hfields.bind ?_
  rintro _ s₁ - ⟨byte, data, length, hbyte, hdata, hlength, rfl⟩
  refine (intern (.struct [data, length]) rfl).mono fun id t hle hid => ?_
  simp only [BasicKind.idIn?, BasicKind.bodyIn?, Option.bind_eq_bind,
    TypeStore.interned?_le hle hbyte, TypeStore.interned?_le hle hdata,
    TypeStore.interned?_le hle hlength, Option.bind_some]
  exact hid

theorem plain {kind : BasicKind} (hkind : kind.isPlain = true) (span : Span) :
    Leads (basic wordBits kind span) s fun id t => kind.idIn? t wordBits = some id := by
  cases kind with
  | complex64 | complex128 => exact complex _
  | string => exact string span
  | invalid | untypedBool | untypedInt | untypedRune | untypedFloat | untypedComplex
  | untypedString | untypedNil => cases hkind
  | _ => exact intern _ rfl

end Leads

end Typing

/-! ## As written and as checked -/

namespace CheckedAs

open Typing

variable {names : List String} {e : TypeExpr} {c : CheckedType} {s t : TypeStore} {wordBits : Nat}
  {i j : TypeId}

theorem ofExpr_of_idIn? (h : CheckedAs names e c) (hi : e.idIn? s wordBits = some i) :
    runOn (ofExpr wordBits e) s = (.ok i, s) := by
  induction h generalizing i with
  | basic hkind =>
    rw [TypeExpr.idIn?, hkind] at hi
    rw [ofExpr, hkind]
    exact basic_of_idIn? hi _
  | address => exact intern_of_interned? hi
  | @named span name _ =>
    rw [TypeExpr.idIn?] at hi
    rw [ofExpr]
    cases hkind : BasicKind.ofName? name with
    | some kind =>
      rw [hkind] at hi
      exact basic_of_idIn? hi _
    | none =>
      rw [hkind] at hi
      dsimp only at hi ⊢
      rw [runOn_named, hi]
  | pointer _ ih =>
    rw [TypeExpr.idIn?] at hi
    obtain ⟨elem, helem, hi⟩ := Option.bind_eq_some_iff.mp hi
    rw [ofExpr]
    exact (runOn_bind_ok (ih helem)).trans (intern_of_interned? hi)

theorem ofChecked_of_idIn? (h : CheckedAs names e c) (hj : c.idIn? s wordBits = some j)
    (span : Span) : runOn (ofChecked wordBits span c) s = (.ok j, s) := by
  induction h generalizing j with
  | basic | address => exact basic_of_idIn? hj span
  | named =>
    rw [CheckedType.idIn?] at hj
    rw [ofChecked, runOn_named, hj]
  | pointer _ ih =>
    rw [CheckedType.idIn?] at hj
    obtain ⟨elem, helem, hj⟩ := Option.bind_eq_some_iff.mp hj
    rw [ofChecked]
    exact (runOn_bind_ok (ih helem)).trans (intern_of_interned? hj)

theorem checked_idIn?_le (h : CheckedAs names e c) (hle : s ≤ t)
    (hj : c.idIn? s wordBits = some j) : c.idIn? t wordBits = some j := by
  induction h generalizing j with
  | basic | address => exact BasicKind.idIn?_keeps (.of_le hle) hj
  | named => exact TypeStore.lookup?_le hle hj
  | pointer _ ih =>
    rw [CheckedType.idIn?] at hj ⊢
    obtain ⟨elem, helem, hj⟩ := Option.bind_eq_some_iff.mp hj
    exact Option.bind_eq_some_iff.mpr ⟨elem, ih helem, TypeStore.interned?_le hle hj⟩

theorem named_leads {name : String} (hname : name ∈ s.names) (span : Span) :
    Leads (Typing.named name span) s fun i t => t.lookup? name = some i := by
  obtain ⟨i, hi, hfound⟩ := runOn_named_of_mem hname
  exact ⟨i, s, hfound s (TypeStore.le_refl s) span, TypeStore.le_refl s, hi⟩

theorem ofExpr_leads (h : CheckedAs names e c) (wordBits : Nat)
    (hnames : ∀ name ∈ names, name ∈ s.names) :
    Leads (ofExpr wordBits e) s fun i t => e.idIn? t wordBits = some i := by
  induction h generalizing s with
  | basic hkind =>
    simp only [ofExpr, TypeExpr.idIn?, hkind]
    exact .plain (BasicKind.isPlain_of_ofName? hkind) _
  | address => exact .intern _ rfl
  | @named span name hname =>
    simp only [ofExpr, TypeExpr.idIn?]
    cases hkind : BasicKind.ofName? name with
    | some kind => exact .plain (BasicKind.isPlain_of_ofName? hkind) _
    | none => exact named_leads (hnames name hname) _
  | pointer _ ih =>
    simp only [ofExpr, TypeExpr.idIn?]
    refine (ih hnames).bind fun elem t _ helem => (Leads.intern (.pointer elem) rfl).mono ?_
    intro i u hle hi
    rw [TypeExpr.idIn?_keeps (.of_le hle) _ helem]
    exact hi

theorem ofChecked_leads (h : CheckedAs names e c) (wordBits : Nat)
    (hnames : ∀ name ∈ names, name ∈ s.names) (span : Span) :
    Leads (ofChecked wordBits span c) s fun j t => c.idIn? t wordBits = some j := by
  induction h generalizing s with
  | basic hkind => exact .plain (BasicKind.isPlain_of_ofName? hkind) span
  | address => exact .plain rfl span
  | named hname => exact named_leads (hnames _ hname) span
  | pointer hc ih =>
    simp only [ofChecked, CheckedType.idIn?]
    refine (ih hnames).bind fun elem t _ helem => (Leads.intern (.pointer elem) rfl).mono ?_
    intro j u hle hj
    rw [hc.checked_idIn?_le hle helem]
    exact hj

/-- Without a shadowed name both stand for the same type. -/
theorem idIn?_eq (h : CheckedAs names e c) (hc : c.Unshadowed) (s : TypeStore) :
    e.idIn? s wordBits = c.idIn? s wordBits := by
  induction h with
  | basic hkind => simp only [TypeExpr.idIn?, CheckedType.idIn?, hkind]
  | address => rfl
  | @named span name _ =>
    have hnone : BasicKind.ofName? name = none := hc name (by simp [CheckedType.names])
    simp only [TypeExpr.idIn?, CheckedType.idIn?, hnone]
  | pointer _ ih =>
    have hsame := ih (by rwa [CheckedType.Unshadowed, CheckedType.names] at hc)
    simp only [TypeExpr.idIn?, CheckedType.idIn?, hsame]

/-- A shadowed name stands for an anonymous type as written, and for a named one as checked; behind
pointers they stay apart. -/
theorem idIn?_ne (h : CheckedAs names e c) (hc : ¬ c.Unshadowed)
    (hi : e.idIn? s wordBits = some i) (hj : c.idIn? s wordBits = some j) : i ≠ j := by
  induction h generalizing i j with
  | basic | address => exact absurd (by simp [CheckedType.Unshadowed, CheckedType.names]) hc
  | @named span name _ =>
    rintro rfl
    obtain ⟨body, hnamed⟩ := TypeStore.slot?_of_lookup? hj
    rw [TypeExpr.idIn?] at hi
    cases hkind : BasicKind.ofName? name with
    | none => exact hc (by simpa [CheckedType.Unshadowed, CheckedType.names] using hkind)
    | some kind =>
      rw [hkind] at hi
      obtain ⟨_, _, hintern⟩ := Option.bind_eq_some_iff.mp hi
      rw [TypeStore.slot?_of_interned? hintern] at hnamed
      cases hnamed
  | pointer _ ih =>
    rintro rfl
    rw [TypeExpr.idIn?] at hi
    rw [CheckedType.idIn?] at hj
    obtain ⟨a, ha, hi⟩ := Option.bind_eq_some_iff.mp hi
    obtain ⟨b, hb, hj⟩ := Option.bind_eq_some_iff.mp hj
    have hslots := (TypeStore.slot?_of_interned? hi).symm.trans (TypeStore.slot?_of_interned? hj)
    refine ih (by rwa [CheckedType.Unshadowed, CheckedType.names] at hc) ha hb ?_
    simpa using hslots

theorem runOn_eq (h : CheckedAs names e c) (hc : c.Unshadowed)
    (hnames : ∀ name ∈ names, name ∈ s.names) (span : Span) :
    runOn (ofChecked wordBits span c) s = runOn (ofExpr wordBits e) s := by
  induction h generalizing s with
  | basic hkind =>
    rw [ofChecked, ofExpr, hkind]
    dsimp only
    rw [basic_plain (BasicKind.isPlain_of_ofName? hkind)]
  | address => rfl
  | @named at_ name hname =>
    have hnone : BasicKind.ofName? name = none := hc name (by simp [CheckedType.names])
    obtain ⟨i, -, hfound⟩ := runOn_named_of_mem (hnames name hname)
    rw [ofChecked, ofExpr, hnone, hfound s (TypeStore.le_refl s) span]
    exact (hfound s (TypeStore.le_refl s) at_).symm
  | pointer _ ih =>
    rw [ofChecked, ofExpr, runOn_bind, runOn_bind,
      ih (by rwa [CheckedType.Unshadowed, CheckedType.names] at hc) hnames]

end CheckedAs

namespace SourceUnit

/-- At a point of a run, a type is found as written and then as checked: from then on both are found
as they are, and they are the same exactly if no name is shadowed. In this case the second would be
found in the steps of the first. What the declarations found for the type is still found. -/
theorem ofExpr_eq_ofChecked_iff {config : Config} {u : SourceUnit} {s : Session} {t : TypeStore}
    (h : u.Passes config s t) {e : TypeExpr} {c : CheckedType}
    (hc : CheckedAs (slottedNames u.typeDecls) e c) (span : Span) :
    ∃ i j t₁ t₂, runOn (Typing.ofExpr config.wordBits e) t = (.ok i, t₁) ∧
      runOn (Typing.ofChecked config.wordBits span c) t₁ = (.ok j, t₂) ∧
      (i = j ↔ c.Unshadowed) ∧
      (c.Unshadowed → runOn (Typing.ofChecked config.wordBits span c) t = (.ok i, t₁)) ∧
      (∀ id, e.idIn? s.types config.wordBits = some id → i = id) ∧
      ∀ t', t₂ ≤ t' → runOn (Typing.ofExpr config.wordBits e) t' = (.ok i, t') ∧
        runOn (Typing.ofChecked config.wordBits span c) t' = (.ok j, t') := by
  have hnames : ∀ name ∈ slottedNames u.typeDecls, name ∈ t.names := fun name => h.mem_names
  obtain ⟨i, t₁, hwritten, hle₁, hi⟩ := hc.ofExpr_leads config.wordBits hnames
  obtain ⟨j, t₂, hchecked, hle₂, hj⟩ := hc.ofChecked_leads config.wordBits
    (fun name hname => TypeStore.mem_names_le hle₁ (hnames name hname)) span
  have hi₂ := TypeExpr.idIn?_keeps (.of_le hle₂) e hi
  refine ⟨i, j, t₁, t₂, hwritten, hchecked, ⟨fun heq => ?_, fun hsame => ?_⟩, fun hsame => ?_,
    fun id hid => ?_, fun t' ht' => ⟨?_, ?_⟩⟩
  · by_contra hshadowed
    exact hc.idIn?_ne hshadowed hi₂ hj heq
  · rw [hc.idIn?_eq hsame, hj] at hi₂
    exact (Option.some.inj hi₂).symm
  · rw [hc.runOn_eq hsame hnames, hwritten]
  · have hold := TypeExpr.idIn?_keeps (.of_le (TypeStore.le_trans h.since hle₁)) e hid
    exact Option.some.inj (hi.symm.trans hold)
  · exact hc.ofExpr_of_idIn? (TypeExpr.idIn?_keeps (.of_le ht') e hi₂)
  · exact hc.ofChecked_of_idIn? (hc.checked_idIn?_le ht' hj) span

/-- A declared type is called `int`. A function has a result of it, and returns a constant that is
of the declared type for the checker. -/
def shadowing : SourceUnit :=
  let node (k : UInt32) : Mark := ⟨⟨k⟩, .empty⟩
  { name := "shadow"
    decls := [
      .type (node 1) ⟨"int", .ident .empty "int32"⟩,
      .func (node 2) ⟨"f", [], [.mk [] (.ident .empty "int") .empty],
        some (.block (node 3) [.ret (node 4) [.lit (node 5) .int "1"]])⟩]
    types := .ofList [(⟨5⟩, .named "int")] }

def shadowingResolved : Session :=
  (runOn (Pass.resolveTypes 64 shadowing.typeDecls) ⟨.empty, []⟩).2

theorem shadowing_passes : shadowing.Passes ⟨64, true⟩ shadowingResolved
    (shadowing.lastTypes ⟨64, true⟩) := passes_of_isSome rfl (by decide +kernel)

theorem ofExpr_eq_ofChecked_shadowing :
    CheckedAs (slottedNames shadowing.typeDecls) (.pointer .empty (.ident .empty "int"))
      (.pointer (.named "int")) ∧
    ∃ i j t₁ t₂,
      runOn (Typing.ofExpr 64 (.pointer .empty (.ident .empty "int")))
        (shadowing.lastTypes ⟨64, true⟩) = (.ok i, t₁) ∧
      runOn (Typing.ofChecked 64 .empty (.pointer (.named "int"))) t₁ = (.ok j, t₂) ∧ i ≠ j := by
  have hc : CheckedAs (slottedNames shadowing.typeDecls) (.pointer .empty (.ident .empty "int"))
      (.pointer (.named "int")) := .pointer (.named (by decide +kernel))
  obtain ⟨i, j, t₁, t₂, hwritten, hchecked, hsame, -⟩ :=
    ofExpr_eq_ofChecked_iff shadowing_passes hc .empty
  refine ⟨hc, i, j, t₁, t₂, hwritten, hchecked, fun heq => ?_⟩
  exact absurd (hsame.mp heq "int" (by simp [CheckedType.names])) (by decide)

/-- As soon as the types are resolved, the declared type and the kind of its name are apart, so that
the constant cannot be returned. -/
theorem ofExpr_ne_ofChecked :
    CheckedAs (slottedNames shadowing.typeDecls) (.ident .empty "int") (.named "int") ∧
    shadowing.Passes ⟨64, true⟩ shadowingResolved shadowingResolved.types ∧
    (∃ i j t₁, runOn (Typing.ofExpr 64 (.ident .empty "int")) shadowingResolved.types =
        (.ok i, t₁) ∧
      runOn (Typing.ofChecked 64 .empty (.named "int")) shadowingResolved.types =
        (.ok j, shadowingResolved.types) ∧ i ≠ j) ∧
    (shadowing.lower ⟨64, true⟩).2 = [.typeMismatch "i64" "%int" .empty] := by
  have hwritten : (runOn (Typing.ofExpr 64 (.ident .empty "int"))
      shadowingResolved.types).1.toOption = some ⟨2⟩ := by decide +kernel
  have hlook : shadowingResolved.types.lookup? "int" = some ⟨0⟩ := by decide +kernel
  refine ⟨.named (by decide +kernel), shadowing_passes.first,
    ⟨⟨2⟩, ⟨0⟩, _, runOn_of_toOption hwritten, ?_, by decide⟩, by decide +kernel⟩
  rw [Typing.ofChecked, Typing.runOn_named, hlook]

end SourceUnit

end Midend
