import Midend.Proofs.Frame
import Midend.Proofs.Undefined

/-!
# Midend.Proofs.Accrue

What lowering code does to the types and the errors of its unit. It adds types, of which only the
definitions of untyped constants have names, each made for the type of such a constant; and it
reports errors about code, none about the name of a declaration (`Session.Accrues`). Where an error
names two types, they are different types at that point (`LowerError.Apart`). This is so wherever a
step begins and however it ends: with a result, with an error or with an abort (`Accruing`).
-/

namespace Midend

open Ir

/-- An error that can be found in code; the others are about the names of declarations. -/
def LowerError.OfCode : LowerError → Prop
  | .duplicateDefinition _ _ | .reservedTypeName _ _ | .recursiveAlias _ _ => False
  | _ => True

/-- What the error says of two types are the texts of different types. -/
def LowerError.Apart (s : TypeStore) : LowerError → Prop
  | .typeMismatch lhs rhs _ => ∃ i j, i ≠ j ∧ s.ref? i = some lhs ∧ s.ref? j = some rhs
  | _ => True

def LowerError.InCode (s : TypeStore) (e : LowerError) : Prop := e.OfCode ∧ e.Apart s

/-- A name that was looked up is not that of a type. -/
def LowerError.OfLookup : LowerError → Prop
  | .undefinedType _ _ => True
  | _ => False

theorem LowerError.OfLookup.inCode {s : TypeStore} {e : LowerError} (h : e.OfLookup) :
    e.InCode s := by
  cases e <;> first | exact ⟨trivial, trivial⟩ | cases h

/-- An error that is found where there are types `s` or fewer. -/
def LowerError.ArisesBy (P : TypeStore → LowerError → Prop) (s : TypeStore) (e : LowerError) :
    Prop :=
  ∃ t ≤ s, P t e

namespace LowerError.ArisesBy

variable {P Q : TypeStore → LowerError → Prop} {s t : TypeStore} {e : LowerError}

theorem here (h : P s e) : ArisesBy P s e := ⟨s, TypeStore.le_refl s, h⟩

theorem le (h : ArisesBy P s e) (hle : s ≤ t) : ArisesBy P t e := by
  obtain ⟨r, hr, hp⟩ := h
  exact ⟨r, TypeStore.le_trans hr hle, hp⟩

theorem mono (h : ArisesBy P s e) (hpq : ∀ t, P t e → Q t e) : ArisesBy Q s e := by
  obtain ⟨r, hr, hp⟩ := h
  exact ⟨r, hr, hpq r hp⟩

theorem absorb {R : LowerError → Prop} (h : ArisesBy (fun r e => P r e ∨ R e) t e)
    (hr : R e → ArisesBy P s e) (hle : s ≤ t) : ArisesBy P t e := by
  obtain ⟨r, hrt, hfound | hold⟩ := h
  · exact ⟨r, hrt, hfound⟩
  · exact (hr hold).le hle

end LowerError.ArisesBy

/-- The names of the definitions that the encoding of a kind rests on. -/
def BasicKind.definitions : BasicKind → List String
  | .untypedBool => ["untyped_bool"]
  | .untypedInt => ["untyped_int"]
  | .untypedRune => ["untyped_rune"]
  | .untypedFloat => ["untyped_float"]
  | .untypedComplex => ["untyped_float", "untyped_complex"]
  | .untypedString => ["untyped_string"]
  | .untypedNil => ["untyped_nil"]
  | _ => []

theorem BasicKind.mem_reserved_of_definitions {kind : BasicKind} {name : String}
    (h : name ∈ kind.definitions) : name ∈ reservedTypeNames := by
  cases kind <;> revert name <;> decide

theorem BasicKind.definitions_of_isPlain {kind : BasicKind} (h : kind.isPlain = true) :
    kind.definitions = [] := by
  cases kind <;> first | rfl | cases h

/-- From `s` to `t` the type of an untyped constant was encoded that rests on the definition of that
name, where there was none before. -/
def Ir.TypeStore.Makes (wordBits : Nat) (s t : TypeStore) (name : String) : Prop :=
  ∃ kind span s₁, name ∈ BasicKind.definitions kind ∧ s ≤ s₁ ∧ name ∉ s₁.names ∧
    (runOn (Typing.basic wordBits kind span) s₁).2 ≤ t

theorem Ir.TypeStore.Makes.mono {wordBits : Nat} {s s' t t' : TypeStore} {name : String}
    (h : s.Makes wordBits t name) (hs : s' ≤ s) (ht : t ≤ t') : s'.Makes wordBits t' name := by
  obtain ⟨kind, span, s₁, hkind, hle, hnot, hupTo⟩ := h
  exact ⟨kind, span, s₁, hkind, TypeStore.le_trans hs hle, hnot, TypeStore.le_trans hupTo ht⟩

theorem Ir.TypeStore.mem_names_memoized {s : TypeStore} {name n : String} {body : Ty} :
    n ∈ (memoized name body s).2.names ↔ n ∈ s.names ∨ n = name := by
  rcases memoized_cases s name body with ⟨id, hid, h⟩ | ⟨_, h⟩ <;> rw [h]
  · have hname : name ∈ s.names := lookup?_isSome.mp (by rw [hid]; rfl)
    exact ⟨.inl, fun hn => hn.elim (fun hold => hold) fun heq => heq ▸ hname⟩
  · simp [names, push]

namespace Typing

theorem exists_stringFields (s : TypeStore) :
    ∃ fields t, runOn stringFields s = (.ok fields, t) ∧ t.names = s.names := by
  refine ⟨_, _, rfl, ?_⟩
  exact (TypeStore.names_intern _ _).trans
    ((TypeStore.names_intern _ _).trans (TypeStore.names_intern _ _))

theorem mem_names_basic (wordBits : Nat) (kind : BasicKind) (span : Span) (s : TypeStore)
    (name : String) : name ∈ (runOn (basic wordBits kind span) s).2.names ↔
      name ∈ s.names ∨ name ∈ kind.definitions := by
  by_cases hplain : kind.isPlain = true
  · rw [(plain_finds wordBits hplain span).names, BasicKind.definitions_of_isPlain hplain]
    simp
  cases kind with
  | untypedBool | untypedInt | untypedRune | untypedFloat =>
    rw [basic, memoized, runOn_ofStore, TypeStore.mem_names_memoized, BasicKind.definitions,
      List.mem_singleton]
  | untypedComplex =>
    rw [basic, memoized, runOn_bind_ok (runOn_ofStore _ s), memoized, runOn_ofStore,
      TypeStore.mem_names_memoized, TypeStore.mem_names_memoized, or_assoc, BasicKind.definitions,
      List.mem_cons, List.mem_singleton]
  | untypedString =>
    obtain ⟨fields, t, hfields, hnames⟩ := exists_stringFields s
    rw [basic, runOn_bind_ok hfields, memoized, runOn_ofStore, TypeStore.mem_names_memoized, hnames,
      BasicKind.definitions, List.mem_singleton]
  | untypedNil =>
    rw [basic, int, runOn_bind_ok (runOn_ofStore _ s), memoized, runOn_ofStore,
      TypeStore.mem_names_memoized, TypeStore.int, TypeStore.names_intern, BasicKind.definitions,
      List.mem_singleton]
  | invalid => simp [basic, BasicKind.definitions]
  | _ => exact absurd rfl hplain

theorem basic_ne_report (wordBits : Nat) (kind : BasicKind) (span : Span) (s : TypeStore)
    (e : LowerError) : (runOn (basic wordBits kind span) s).1 ≠ .error (.report e) := by
  cases kind <;> nofun

end Typing

/-- From `s` to `t` types were added, with a name only if they are definitions of untyped constants,
and errors of the kind `P` were reported. -/
structure Session.Accrues (wordBits : Nat) (P : TypeStore → LowerError → Prop) (s t : Session) :
    Prop where
  types : s.types ≤ t.types
  names : ∀ name ∈ t.types.names, name ∈ s.types.names ∨ s.types.Makes wordBits t.types name
  errors : ∃ new, t.errors = s.errors ++ new ∧ ∀ e ∈ new, e.ArisesBy P t.types

namespace Session.Accrues

variable {wordBits : Nat} {P Q : TypeStore → LowerError → Prop} {s t u : Session}

theorem refl (s : Session) : s.Accrues wordBits P s :=
  ⟨TypeStore.le_refl _, fun _ h => .inl h, [], by simp, by simp⟩

theorem trans (h : s.Accrues wordBits P t) (h' : t.Accrues wordBits P u) :
    s.Accrues wordBits P u := by
  obtain ⟨new, hnew, hp⟩ := h.errors
  obtain ⟨new', hnew', hp'⟩ := h'.errors
  refine ⟨TypeStore.le_trans h.types h'.types, fun name hname => ?_, new ++ new', ?_, ?_⟩
  · rcases h'.names name hname with hold | hmade
    · exact (h.names name hold).imp_right fun hmade => hmade.mono (TypeStore.le_refl _) h'.types
    · exact .inr (hmade.mono h.types (TypeStore.le_refl _))
  · rw [hnew', hnew, List.append_assoc]
  · exact fun e he => (List.mem_append.mp he).elim (fun hold => (hp e hold).le h'.types) (hp' e)

theorem mono (h : s.Accrues wordBits P t) (hpq : ∀ r e, P r e → Q r e) :
    s.Accrues wordBits Q t := by
  obtain ⟨new, hnew, hp⟩ := h.errors
  exact ⟨h.types, h.names, new, hnew, fun e he => (hp e he).mono fun r => hpq r e⟩

theorem report (s : Session) {e : LowerError} (he : e.ArisesBy P s.types) :
    s.Accrues wordBits P ⟨s.types, s.errors ++ [e]⟩ :=
  ⟨TypeStore.le_refl _, fun _ h => .inl h, [e], rfl, by simpa using he⟩

theorem of_types (h : s.Accrues wordBits P t) (errors : List LowerError) :
    Session.Accrues wordBits P ⟨s.types, errors⟩ ⟨t.types, errors⟩ :=
  ⟨h.types, h.names, [], by simp, by simp⟩

end Session.Accrues

/-- The states of steps on a unit: its types, its types and errors, or a function of it as well. -/
class OfUnit (σ : Type) where
  session : σ → Session

instance : OfUnit TypeStore := ⟨fun s => ⟨s, []⟩⟩

instance : OfUnit Session := ⟨id⟩

instance : OfUnit FnState := ⟨fun σ => ⟨σ.types, σ.errors⟩⟩

/-! ## Steps -/

/-- Wherever the step begins and however it ends, it adds types and errors at most; an error that it
fails with is of the same kind. -/
def Accruing {σ α : Type} [OfUnit σ] (wordBits : Nat) (P : TypeStore → LowerError → Prop)
    (m : ExceptT Fault (StateM σ) α) : Prop :=
  ∀ s r t, runOn m s = (r, t) → (OfUnit.session s).Accrues wordBits P (OfUnit.session t) ∧
    ∀ e, r = .error (.report e) → e.ArisesBy P (OfUnit.session t).types

namespace Accruing

section

variable {σ α β : Type} [OfUnit σ] {wordBits : Nat} {P Q : TypeStore → LowerError → Prop}

theorem mono {m : ExceptT Fault (StateM σ) α} (h : Accruing wordBits P m)
    (hpq : ∀ r e, P r e → Q r e) : Accruing wordBits Q m := fun s r t hrun =>
  ⟨(h s r t hrun).1.mono hpq, fun e he => ((h s r t hrun).2 e he).mono fun r => hpq r e⟩

theorem of_same {m : ExceptT Fault (StateM σ) α}
    (h : ∀ s r t, runOn m s = (r, t) → OfUnit.session t = OfUnit.session s ∧
      ∀ e, r = .error (.report e) → P (OfUnit.session t).types e) : Accruing wordBits P m := by
  intro s r t hrun
  obtain ⟨hsame, he⟩ := h s r t hrun
  exact ⟨hsame ▸ .refl _, fun e hr => .here (he e hr)⟩

theorem pure (a : α) : Accruing wordBits P (Pure.pure a : ExceptT Fault (StateM σ) α) :=
  of_same fun s r t hrun => by
    cases hrun
    exact ⟨rfl, by simp⟩

theorem throw {f : Fault} (hf : ∀ e, f = .report e → ∀ s, P s e) :
    Accruing wordBits P (MonadExcept.throw f : ExceptT Fault (StateM σ) α) :=
  of_same fun s r t hrun => by
    cases hrun
    exact ⟨rfl, fun e he => hf e (Except.error.inj he) _⟩

theorem report {e : LowerError} (he : ∀ s, P s e) :
    Accruing wordBits P (MonadExcept.throw (Fault.report e) : ExceptT Fault (StateM σ) α) :=
  throw fun _ h => Fault.report.inj h ▸ he

theorem abort (u : Unsupported) :
    Accruing wordBits P (MonadExcept.throw (Fault.abort u) : ExceptT Fault (StateM σ) α) :=
  throw (f := .abort u) (by simp)

theorem bind {m : ExceptT Fault (StateM σ) α} {f : α → ExceptT Fault (StateM σ) β}
    (hm : Accruing wordBits P m) (hf : ∀ a, Accruing wordBits P (f a)) :
    Accruing wordBits P (m >>= f) := by
  intro s r t hrun
  obtain ⟨r₁, s₁, hrun₁⟩ := exists_runOn m s
  obtain ⟨hacc, he⟩ := hm s r₁ s₁ hrun₁
  rw [runOn_bind, hrun₁] at hrun
  cases r₁ with
  | ok a =>
    obtain ⟨hacc', he'⟩ := hf a s₁ r t hrun
    exact ⟨hacc.trans hacc', he'⟩
  | error f =>
    cases hrun
    exact ⟨hacc, fun e h => he e (by cases h; rfl)⟩

theorem get {f : σ → ExceptT Fault (StateM σ) α} (hf : ∀ s, Accruing wordBits P (f s)) :
    Accruing wordBits P (do f (← MonadState.get)) := by
  intro s r t hrun
  rw [runOn_bind_ok (runOn_get s)] at hrun
  exact hf s s r t hrun

/-- What else the step reports was found before it. -/
theorem absorb {m : ExceptT Fault (StateM σ) α} {R : LowerError → Prop} {s t : σ}
    {r : Except Fault α} (hm : Accruing wordBits (fun s e => P s e ∨ R e) m)
    (hr : ∀ e, R e → e.ArisesBy P (OfUnit.session s).types) (hrun : runOn m s = (r, t)) :
    (OfUnit.session s).Accrues wordBits P (OfUnit.session t) ∧
      ∀ e, r = .error (.report e) → e.ArisesBy P (OfUnit.session t).types := by
  obtain ⟨hacc, he⟩ := hm s r t hrun
  obtain ⟨new, hnew, hp⟩ := hacc.errors
  have hall {e : LowerError} (h : e.ArisesBy (fun s e => P s e ∨ R e) (OfUnit.session t).types) :=
    h.absorb (hr e) hacc.types
  exact ⟨⟨hacc.types, hacc.names, new, hnew, fun e hmem => hall (hp e hmem)⟩,
    fun e herr => hall (he e herr)⟩

theorem ofOption {f : Option α → ExceptT Fault (StateM σ) β} (hnone : Accruing wordBits P (f none))
    (hsome : ∀ a, Accruing wordBits P (f (some a))) : ∀ o, Accruing wordBits P (f o) := by
  rintro (_ | a)
  · exact hnone
  · exact hsome a

end

section

variable {α : Type} {wordBits : Nat} {P : TypeStore → LowerError → Prop}

theorem intern {ty : Ty} (hp : ty.isPending = false) :
    Accruing wordBits P (Typing.ofStore (TypeStore.intern ty)) := by
  intro s r t hrun
  rw [Typing.runOn_ofStore] at hrun
  cases hrun
  refine ⟨⟨TypeStore.le_intern s hp, fun name hname => .inl ?_, [], rfl, by simp⟩, by simp⟩
  exact TypeStore.names_intern s ty ▸ hname

theorem ask {f : TypeStore → Except Breach α} : Accruing wordBits P (Typing.ask f) :=
  of_same fun s r t hrun => by
    rw [Typing.runOn_ask] at hrun
    cases h : f s <;> rw [h] at hrun <;> cases hrun <;> exact ⟨rfl, by simp⟩

theorem attempt {m : Typing α} (hm : Accruing wordBits P m) :
    Accruing wordBits P (Typing.attempt m) := by
  intro s r t hrun
  obtain ⟨r₁, s₁, hrun₁⟩ := exists_runOn m s
  have hacc := (hm s r₁ s₁ hrun₁).1
  rw [Typing.runOn_attempt, hrun₁] at hrun
  cases r₁ with
  | ok a =>
    cases hrun
    exact ⟨hacc, by simp⟩
  | error f => cases f <;> cases hrun <;> exact ⟨hacc, by simp⟩

end

end Accruing

namespace Typing

variable {wordBits : Nat} {P : TypeStore → LowerError → Prop}

theorem bool_accrues : Accruing wordBits P bool := .intern rfl

theorem struct_accrues (fields : List TypeId) : Accruing wordBits P (struct fields) := .intern rfl

theorem basic_accrues (wordBits : Nat) (kind : BasicKind) (span : Span) :
    Accruing wordBits P (basic wordBits kind span) := by
  intro s r t hrun
  obtain ⟨hle, _⟩ := basic_grows wordBits kind span s r t hrun
  refine ⟨⟨hle, fun name hname => ?_, [], rfl, by simp⟩, fun e he => ?_⟩
  · by_cases hold : name ∈ s.names
    · exact .inl hold
    · have hkind := (mem_names_basic wordBits kind span s name).mp (by rw [hrun]; exact hname)
      refine .inr ⟨kind, span, s, hkind.resolve_left hold, TypeStore.le_refl s, hold, ?_⟩
      rw [hrun]
      exact TypeStore.le_refl t
  · exact absurd (by rw [hrun, he]) (basic_ne_report wordBits kind span s e)

theorem named_accrues (name : String) (span : Span) :
    Accruing wordBits (fun _ e => e.OfLookup) (named name span) := by
  refine .get fun s => ?_
  cases s.lookup? name with
  | some id => exact .pure id
  | none => exact .report fun _ => trivial

theorem ofChecked_accrues (wordBits : Nat) (span : Span) :
    ∀ c : CheckedType, Accruing wordBits (fun _ e => e.OfLookup) (ofChecked wordBits span c)
  | .basic kind => basic_accrues wordBits kind span
  | .named name => named_accrues name span
  | .pointer elem => by
    rw [ofChecked]
    exact (ofChecked_accrues wordBits span elem).bind fun _ => .intern rfl
  | .struct _ | .slice _ | .tuple _ | .signature => .abort _

mutual

theorem ofExpr_accrues (wordBits : Nat) (e : TypeExpr) :
    Accruing wordBits (fun _ e => e.OfLookup) (ofExpr wordBits e) := by
  cases e with
  | ident span name =>
    rw [ofExpr]
    split
    · exact basic_accrues wordBits _ span
    · exact named_accrues name span
  | qualified span package name =>
    rw [ofExpr]
    split
    · exact .intern rfl
    · exact .abort _
  | pointer span elem =>
    rw [ofExpr]
    exact (ofExpr_accrues wordBits elem).bind fun _ => .intern rfl
  | struct span fields =>
    rw [ofExpr]
    exact (ofFields_accrues wordBits fields).bind fun _ => struct_accrues _
  | array | map | func | interface =>
    rw [ofExpr]
    exact .abort _

theorem ofFields_accrues (wordBits : Nat) (fields : List Field) :
    Accruing wordBits (fun _ e => e.OfLookup) (ofFields wordBits fields) := by
  cases fields with
  | nil =>
    rw [ofFields]
    exact .pure _
  | cons field rest =>
    obtain ⟨names, type, span⟩ := field
    rw [ofFields]
    exact (ofExpr_accrues wordBits type).bind fun _ =>
      (ofFields_accrues wordBits rest).bind fun _ => .pure _

end

theorem signatureOf_accrues (wordBits : Nat) (decl : FuncDecl) :
    Accruing wordBits (fun _ e => e.OfLookup) (signatureOf wordBits decl) := by
  refine (ofFields_accrues wordBits decl.params).bind fun params =>
    (ofFields_accrues wordBits decl.results).bind fun results => ?_
  split
  · exact .bind (.intern rfl) fun _ => .pure _
  · exact .pure _
  · exact (struct_accrues _).bind fun _ => .pure _

end Typing

namespace Accruing

variable {α β : Type} {wordBits : Nat} {P : TypeStore → LowerError → Prop}

theorem typing {m : Typing α} (hm : Accruing wordBits P m) :
    Accruing wordBits P (Lower.typing m) := by
  intro σ r τ hrun
  obtain ⟨r₁, t, hrun₁⟩ := exists_runOn m σ.types
  obtain ⟨hacc, he⟩ := hm σ.types r₁ t hrun₁
  rw [Lower.runOn_typing, hrun₁] at hrun
  cases hrun
  exact ⟨hacc.of_types σ.errors, he⟩

theorem build {m : Build α} : Accruing wordBits P (Lower.build m) :=
  of_same fun σ r τ hrun => by
    rw [Lower.runOn_build] at hrun
    split at hrun <;> cases hrun <;> exact ⟨rfl, by simp⟩

theorem reported {e : LowerError} (he : ∀ s, P s e) : Accruing wordBits P (Lower.report e) := by
  intro σ r τ hrun
  rw [Lower.runOn_report] at hrun
  cases hrun
  exact ⟨Session.Accrues.report _ (.here (he _)), by simp⟩

theorem recover {m : Lower α} (hm : Accruing wordBits P m) :
    Accruing wordBits P (Lower.recover m) := by
  intro σ r τ hrun
  obtain ⟨r₁, υ, hrun₁⟩ := exists_runOn m σ
  obtain ⟨hacc, he⟩ := hm σ r₁ υ hrun₁
  rw [Lower.runOn_recover, hrun₁] at hrun
  cases r₁ with
  | ok a =>
    cases hrun
    exact ⟨hacc, by simp⟩
  | error f =>
    cases f with
    | report e =>
      cases hrun
      exact ⟨hacc.trans (Session.Accrues.report _ (he e rfl)), by simp⟩
    | abort u =>
      cases hrun
      exact ⟨hacc, by simp⟩
    | breach b =>
      cases hrun
      exact ⟨hacc, by simp⟩

theorem outcome {m : Lower α} {f : Except Fault α → Lower β} (hm : Accruing wordBits P m)
    (hf : ∀ r, Accruing wordBits (fun s e => P s e ∨ r = .error (.report e)) (f r)) :
    Accruing wordBits P (Lower.outcome m >>= f) := by
  intro σ r τ hrun
  obtain ⟨r₁, υ, hrun₁⟩ := exists_runOn m σ
  obtain ⟨hacc, he⟩ := hm σ r₁ υ hrun₁
  rw [runOn_bind_ok (by rw [Lower.runOn_outcome, hrun₁])] at hrun
  obtain ⟨hacc', he'⟩ := (hf r₁).absorb he hrun
  exact ⟨hacc.trans hacc', he'⟩

theorem ofOutcome {r : Except Fault α} :
    Accruing wordBits (fun s e => P s e ∨ r = .error (.report e)) (Lower.ofOutcome r) :=
  of_same fun σ r' τ hrun => by
    rw [Lower.runOn_ofOutcome] at hrun
    cases hrun
    exact ⟨rfl, fun e he => .inr he⟩

end Accruing

namespace Lower

variable {wordBits : Nat} {P : TypeStore → LowerError → Prop}

theorem body_accrues (id : TypeId) : Accruing wordBits P (body id) :=
  .typing .ask

theorem ref_accrues (id : TypeId) : Accruing wordBits P (ref id) :=
  .typing .ask

theorem push_accrues (type : TypeId) (operation : Operation) :
    Accruing wordBits P (push type operation) := .build

theorem checkedType_accrues (ctx : Context) (m : Mark) :
    Accruing ctx.config.wordBits LowerError.InCode (checkedType ctx m) := by
  unfold checkedType
  split
  · exact .pure _
  · exact .report fun _ => ⟨trivial, trivial⟩

theorem ofChecked_accrues (wordBits : Nat) (span : Span) (t : CheckedType) :
    Accruing wordBits LowerError.InCode (Typing.ofChecked wordBits span t) :=
  (Typing.ofChecked_accrues wordBits span t).mono fun _ _ h => h.inCode

theorem exprType_accrues (ctx : Context) (m : Mark) :
    Accruing ctx.config.wordBits LowerError.InCode (exprType ctx m) :=
  (checkedType_accrues ctx m).bind fun t => .typing (ofChecked_accrues _ _ t)

theorem unsigned_accrues (ctx : Context) (m : Mark) :
    Accruing ctx.config.wordBits LowerError.InCode (unsigned ctx m) :=
  (checkedType_accrues ctx m).bind fun _ => .pure _

theorem boolType_accrues (ctx : Context) (m : Mark) :
    Accruing ctx.config.wordBits LowerError.InCode (boolType ctx m) := by
  unfold boolType
  split
  · exact .typing Typing.bool_accrues
  · rename_i t _
    refine (Accruing.typing (ofChecked_accrues _ _ t).attempt).bind fun id? => ?_
    cases id? with
    | none => exact .typing Typing.bool_accrues
    | some id =>
      refine (body_accrues id).bind fun body => ?_
      split
      · exact .pure id
      · exact .typing Typing.bool_accrues

end Lower

end Midend
