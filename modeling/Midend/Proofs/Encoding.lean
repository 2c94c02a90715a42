import Midend.Proofs.Arena
import Midend.Proofs.Points
import Midend.Proofs.Verify
import Midend.Proofs.WrittenType

/-!
# Midend.Proofs.Encoding

The encodings of basic kinds. `BasicKind.Encoding` is the table of the slots that they have. At each
point of a run a kind is given a type with its slot, and this is the same type at all points
(`SourceUnit.basic_stable`). The types of untyped constants are found by name, whatever their body
is. But no declared type takes such a name, and only the encoding of a kind makes a type of that
name.
-/

namespace Midend

open Ir

/-- The fields of a string: a pointer to bytes, and a length of 64 bits. -/
def Ir.TypeStore.StringFields (s : TypeStore) (fields : List TypeId) : Prop :=
  ∃ byte data length, s.slot? byte = some ⟨none, .int 8⟩ ∧
    s.slot? data = some ⟨none, .pointer byte⟩ ∧ s.slot? length = some ⟨none, .int 64⟩ ∧
    fields = [data, length]

theorem Ir.TypeStore.StringFields.le {s t : TypeStore} (h : s ≤ t) {fields : List TypeId}
    (hs : s.StringFields fields) : t.StringFields fields := by
  obtain ⟨byte, data, length, hbyte, hdata, hlength, hfields⟩ := hs
  exact ⟨byte, data, length, h.slot _ _ hbyte, h.slot _ _ hdata, h.slot _ _ hlength, hfields⟩

namespace BasicKind

/-- The kinds with the width of a word. -/
def words : List BasicKind := [.int, .uint, .uintptr, .unsafePointer]

/-- The kinds with a width of their own. -/
def widths : List (BasicKind × Nat) :=
  [(.bool, 1), (.int8, 8), (.int16, 16), (.int32, 32), (.int64, 64), (.uint8, 8), (.uint16, 16),
    (.uint32, 32), (.uint64, 64)]

/-- The slot of a kind in a store that has the types in its body. -/
inductive Encoding (wordBits : Nat) (s : TypeStore) : BasicKind → Slot → Prop where
  | word {kind : BasicKind} : kind ∈ words → Encoding wordBits s kind ⟨none, .int wordBits⟩
  | width {kind : BasicKind} {bits : Nat} :
      (kind, bits) ∈ widths → Encoding wordBits s kind ⟨none, .int bits⟩
  | float32 : Encoding wordBits s .float32 ⟨none, .float .single⟩
  | float64 : Encoding wordBits s .float64 ⟨none, .float .double⟩
  | complex64 {part : TypeId} : s.slot? part = some ⟨none, .float .single⟩ →
      Encoding wordBits s .complex64 ⟨none, .struct [part, part]⟩
  | complex128 {part : TypeId} : s.slot? part = some ⟨none, .float .double⟩ →
      Encoding wordBits s .complex128 ⟨none, .struct [part, part]⟩
  | string {fields : List TypeId} :
      s.StringFields fields → Encoding wordBits s .string ⟨none, .struct fields⟩
  | untypedBool : Encoding wordBits s .untypedBool ⟨some "untyped_bool", .int 1⟩
  | untypedInt : Encoding wordBits s .untypedInt ⟨some "untyped_int", .int 64⟩
  | untypedRune : Encoding wordBits s .untypedRune ⟨some "untyped_rune", .int 32⟩
  | untypedFloat : Encoding wordBits s .untypedFloat ⟨some "untyped_float", .float .double⟩
  | untypedComplex {part : TypeId} :
      s.slot? part = some ⟨some "untyped_float", .float .double⟩ →
      Encoding wordBits s .untypedComplex ⟨some "untyped_complex", .struct [part, part]⟩
  | untypedString {fields : List TypeId} : s.StringFields fields →
      Encoding wordBits s .untypedString ⟨some "untyped_string", .struct fields⟩
  | untypedNil {byte : TypeId} : s.slot? byte = some ⟨none, .int 8⟩ →
      Encoding wordBits s .untypedNil ⟨some "untyped_nil", .pointer byte⟩

def Encodes (wordBits : Nat) (s : TypeStore) (kind : BasicKind) (id : TypeId) : Prop :=
  ∃ slot, Encoding wordBits s kind slot ∧ s.slot? id = some slot

def definitionName? : BasicKind → Option String
  | .untypedBool => some "untyped_bool"
  | .untypedInt => some "untyped_int"
  | .untypedRune => some "untyped_rune"
  | .untypedFloat => some "untyped_float"
  | .untypedComplex => some "untyped_complex"
  | .untypedString => some "untyped_string"
  | .untypedNil => some "untyped_nil"
  | _ => none

variable {wordBits : Nat} {s t : TypeStore} {kind kind' : BasicKind} {slot : Slot} {id : TypeId}
  {name : String}

theorem definitionName?_inj (h : kind.definitionName? = some name)
    (h' : kind'.definitionName? = some name) : kind = kind' := by
  revert h'
  revert h
  cases kind <;> intro h <;> cases h <;> cases kind' <;> decide

theorem exists_definitionName? (h : name ∈ reservedTypeNames) :
    ∃ kind : BasicKind, kind.definitionName? = some name := by
  simp only [reservedTypeNames, List.mem_cons, List.not_mem_nil, or_false] at h
  rcases h with rfl | rfl | rfl | rfl | rfl | rfl | rfl
  exacts [⟨.untypedBool, rfl⟩, ⟨.untypedInt, rfl⟩, ⟨.untypedRune, rfl⟩, ⟨.untypedFloat, rfl⟩,
    ⟨.untypedComplex, rfl⟩, ⟨.untypedString, rfl⟩, ⟨.untypedNil, rfl⟩]

theorem mem_definitions (h : kind.definitionName? = some name) : name ∈ kind.definitions := by
  cases kind <;> cases h <;> decide

theorem Encoding.le (hle : s ≤ t) (h : Encoding wordBits s kind slot) :
    Encoding wordBits t kind slot := by
  cases h with
  | word hkind => exact .word hkind
  | width hkind => exact .width hkind
  | float32 => exact .float32
  | float64 => exact .float64
  | complex64 hpart => exact .complex64 (hle.slot _ _ hpart)
  | complex128 hpart => exact .complex128 (hle.slot _ _ hpart)
  | string hfields => exact .string (hfields.le hle)
  | untypedBool => exact .untypedBool
  | untypedInt => exact .untypedInt
  | untypedRune => exact .untypedRune
  | untypedFloat => exact .untypedFloat
  | untypedComplex hpart => exact .untypedComplex (hle.slot _ _ hpart)
  | untypedString hfields => exact .untypedString (hfields.le hle)
  | untypedNil hbyte => exact .untypedNil (hle.slot _ _ hbyte)

theorem Encoding.not_pending (h : Encoding wordBits s kind slot) : slot.body.isPending = false := by
  cases h <;> rfl

theorem Encodes.le (hle : s ≤ t) (h : Encodes wordBits s kind id) : Encodes wordBits t kind id := by
  obtain ⟨slot, hslot, hid⟩ := h
  exact ⟨slot, hslot.le hle, hle.slot _ _ hid⟩

theorem encodes_of_idIn? (h : kind.idIn? s wordBits = some id) : Encodes wordBits s kind id := by
  obtain ⟨body, hbody, hid⟩ := Option.bind_eq_some_iff.mp h
  refine ⟨⟨none, body⟩, ?_, TypeStore.slot?_of_interned? hid⟩
  cases kind with
  | int | uint | uintptr | unsafePointer =>
    cases hbody
    exact .word (by decide)
  | bool | int8 | int16 | int32 | int64 | uint8 | uint16 | uint32 | uint64 =>
    cases hbody
    exact .width (by decide)
  | float32 =>
    cases hbody
    exact .float32
  | float64 =>
    cases hbody
    exact .float64
  | complex64 =>
    obtain ⟨part, hpart, rfl⟩ := Option.map_eq_some_iff.mp hbody
    exact .complex64 (TypeStore.slot?_of_interned? hpart)
  | complex128 =>
    obtain ⟨part, hpart, rfl⟩ := Option.map_eq_some_iff.mp hbody
    exact .complex128 (TypeStore.slot?_of_interned? hpart)
  | string =>
    simp only [bodyIn?, Option.bind_eq_bind, Option.bind_eq_some_iff] at hbody
    obtain ⟨byte, hbyte, data, hdata, length, hlength, hfields⟩ := hbody
    cases hfields
    exact .string ⟨byte, data, length, TypeStore.slot?_of_interned? hbyte,
      TypeStore.slot?_of_interned? hdata, TypeStore.slot?_of_interned? hlength, rfl⟩
  | invalid | untypedBool | untypedInt | untypedRune | untypedFloat | untypedComplex
  | untypedString | untypedNil => cases hbody

theorem isPlain_of_definitionName? (h : kind.definitionName? = none) (hvalid : kind ≠ .invalid) :
    kind.isPlain = true := by
  cases kind <;> first | rfl | exact absurd rfl hvalid | cases h

theorem definitionName?_of_mem (h : name ∈ kind.definitions) :
    kind.definitionName? = some name ∨ kind = .untypedComplex ∧ name = "untyped_float" := by
  revert name
  cases kind <;> decide

theorem Encoding.untypedFloat_eq (h : Encoding wordBits s .untypedFloat slot) :
    slot = ⟨some "untyped_float", .float .double⟩ := by
  cases h with
  | word hkind => simp [words] at hkind
  | width hkind => simp [widths] at hkind
  | untypedFloat => rfl

/-- The type of a kind that is there in a store: with the name of its definition, or else with its
body. -/
def typeIn? (wordBits : Nat) (s : TypeStore) (kind : BasicKind) : Option TypeId :=
  match kind.definitionName? with
  | some name => s.lookup? name
  | none => kind.idIn? s wordBits

theorem typeIn?_keeps (h : s.Keeps t) (hid : kind.typeIn? wordBits s = some id) :
    kind.typeIn? wordBits t = some id := by
  rw [typeIn?] at hid ⊢
  cases hname : kind.definitionName? with
  | some name =>
    rw [hname] at hid
    exact h.1 name id hid
  | none =>
    rw [hname] at hid
    exact idIn?_keeps h hid

end BasicKind

open BasicKind

/-- The names of definitions are not those of other types. -/
def Ir.TypeStore.Synthetic (s : TypeStore) : Prop :=
  ∀ (kind : BasicKind) name id, kind.definitionName? = some name → s.lookup? name = some id →
    ∀ wordBits, kind.Encodes wordBits s id

theorem Ir.TypeStore.memoized_of_none {s : TypeStore} {name : String} (h : s.lookup? name = none)
    (body : Ty) : TypeStore.memoized name body s = s.push ⟨some name, body⟩ := by
  rw [TypeStore.memoized, h]

namespace Typing

/-- The body of the definition for a kind of untyped constants. -/
def definitionBody : BasicKind → Typing Ty
  | .untypedInt => return .int 64
  | .untypedRune => return .int 32
  | .untypedFloat => return .float .double
  | .untypedComplex => do
    let part ← memoized "untyped_float" (.float .double)
    return .struct [part, part]
  | .untypedString => return .struct (← stringFields)
  | .untypedNil => return .pointer (← int 8)
  | _ => return .int 1

variable {s t : TypeStore} {kind : BasicKind} {name : String} {wordBits : Nat}

theorem basic_eq_memoized (h : kind.definitionName? = some name) (wordBits : Nat) (span : Span) :
    basic wordBits kind span = definitionBody kind >>= memoized name := by
  cases kind <;> cases h <;> simp [basic, definitionBody]

theorem not_mem_names_definitionBody (hname : kind.definitionName? = some name)
    (hfree : name ∉ s.names) : name ∉ (runOn (definitionBody kind) s).2.names := by
  cases kind with
  | untypedComplex =>
    cases hname
    rw [definitionBody, memoized, runOn_bind_ok (runOn_ofStore _ s), runOn_pure,
      TypeStore.mem_names_memoized]
    exact fun h => h.elim hfree (by decide)
  | untypedString =>
    obtain ⟨fields, t, hfields, hnames⟩ := exists_stringFields s
    rw [definitionBody, runOn_bind_ok hfields, runOn_pure, hnames]
    exact hfree
  | untypedNil =>
    rw [definitionBody, int, runOn_bind_ok (runOn_ofStore _ s), runOn_pure, TypeStore.int,
      TypeStore.names_intern]
    exact hfree
  | _ => exact hfree

theorem stringFields_leads (s : TypeStore) :
    Leads stringFields s fun fields t => t.StringFields fields := by
  refine (Leads.intern (.int 8) rfl).bind fun byte s₁ _ hbyte => ?_
  refine (Leads.intern (.pointer byte) rfl).bind fun data s₂ hle₂ hdata => ?_
  refine (Leads.intern (.int 64) rfl).bind fun length s₃ hle₃ hlength => .pure ?_
  exact ⟨byte, data, length,
    (TypeStore.le_trans hle₂ hle₃).slot _ _ (TypeStore.slot?_of_interned? hbyte),
    hle₃.slot _ _ (TypeStore.slot?_of_interned? hdata), TypeStore.slot?_of_interned? hlength, rfl⟩

theorem memoized_leads {body : Ty}
    (hold : ∀ id, s.lookup? name = some id → ∀ wordBits, kind.Encodes wordBits s id)
    (hbody : ∀ wordBits, Encoding wordBits s kind ⟨some name, body⟩) :
    Leads (memoized name body) s fun id t =>
      t.lookup? name = some id ∧ ∀ wordBits, kind.Encodes wordBits t id := by
  rcases TypeStore.memoized_cases s name body with ⟨id, hid, he⟩ | ⟨hnew, he⟩
  · exact ⟨id, s, by rw [memoized, runOn_ofStore, he], TypeStore.le_refl s, hid, hold id hid⟩
  · have hle : s ≤ (s.push ⟨some name, body⟩).2 := TypeStore.le_push (hbody 0).not_pending
    refine ⟨_, _, by rw [memoized, runOn_ofStore, he], hle, ?_, fun wordBits => ?_⟩
    · exact TypeStore.find?_push hnew (by simp)
    · exact ⟨_, (hbody wordBits).le hle, TypeStore.slot?_push_self⟩

section

variable (hs : s.Synthetic)

include hs

theorem definitionBody_leads (hname : kind.definitionName? = some name) :
    Leads (definitionBody kind) s fun body t =>
      ∀ wordBits, Encoding wordBits t kind ⟨some name, body⟩ := by
  cases kind with
  | untypedBool =>
    cases hname
    exact .pure fun _ => .untypedBool
  | untypedInt =>
    cases hname
    exact .pure fun _ => .untypedInt
  | untypedRune =>
    cases hname
    exact .pure fun _ => .untypedRune
  | untypedFloat =>
    cases hname
    exact .pure fun _ => .untypedFloat
  | untypedComplex =>
    cases hname
    have hpart : Leads (memoized "untyped_float" (.float .double)) s _ :=
      memoized_leads (fun id => hs .untypedFloat _ id rfl) fun _ => .untypedFloat
    refine hpart.bind fun part t _ ⟨_, hencodes⟩ => .pure fun _ => .untypedComplex ?_
    obtain ⟨slot, hslot, hid⟩ := hencodes 0
    rw [hid, hslot.untypedFloat_eq]
  | untypedString =>
    cases hname
    exact (stringFields_leads s).bind fun _ _ _ hfields => .pure fun _ => .untypedString hfields
  | untypedNil =>
    cases hname
    exact (Leads.intern (.int 8) rfl).bind fun _ _ _ hbyte =>
      .pure fun _ => .untypedNil (TypeStore.slot?_of_interned? hbyte)
  | _ => cases hname

/-- A kind is given a type with its encoding, and from then on the type is there for it. -/
theorem basic_leads (hvalid : kind ≠ .invalid) (wordBits : Nat) (span : Span) :
    Leads (basic wordBits kind span) s fun id t =>
      kind.typeIn? wordBits t = some id ∧ kind.Encodes wordBits t id := by
  cases hname : kind.definitionName? with
  | none =>
    refine (Leads.plain (isPlain_of_definitionName? hname hvalid) span).mono fun id t _ hid => ?_
    rw [typeIn?, hname]
    exact ⟨hid, encodes_of_idIn? hid⟩
  | some name =>
    obtain ⟨body, t, hrun, hle, hbody⟩ := definitionBody_leads hs hname
    have hold : ∀ id, t.lookup? name = some id → ∀ wordBits, kind.Encodes wordBits t id := by
      intro id hid wordBits
      have hmem : name ∈ s.names := by
        by_contra hfree
        have hnot := not_mem_names_definitionBody hname hfree
        rw [hrun] at hnot
        exact hnot (TypeStore.lookup?_isSome.mp (by rw [hid]; rfl))
      obtain ⟨old, hold⟩ := Option.isSome_iff_exists.mp (TypeStore.lookup?_isSome.mpr hmem)
      obtain rfl : old = id := Option.some.inj ((TypeStore.lookup?_le hle hold).symm.trans hid)
      exact (hs kind name old hname hold wordBits).le hle
    obtain ⟨id, t', hrun', hle', hid, hencodes⟩ := memoized_leads hold hbody
    refine ⟨id, t', ?_, TypeStore.le_trans hle hle', ?_, hencodes wordBits⟩
    · rw [basic_eq_memoized hname, runOn_bind_ok hrun, hrun']
    · rw [typeIn?, hname]
      exact hid

/-- Where a kind rests on a definition that was not there, it is added with its encoding. -/
theorem basic_defines (hmem : name ∈ kind.definitions) (hfree : name ∉ s.names) (wordBits : Nat)
    (span : Span) : ∃ (x : TypeStore) (made : BasicKind) (body : Ty),
      made.definitionName? = some name ∧ name ∉ x.names ∧
      (x.push ⟨some name, body⟩).2 ≤ (runOn (basic wordBits kind span) s).2 ∧
      ∀ wordBits, Encoding wordBits x made ⟨some name, body⟩ := by
  have hadded {x : TypeStore} (body : Ty) (hx : name ∉ x.names) :
      runOn (memoized name body) x = (.ok ⟨x.size⟩, (x.push ⟨some name, body⟩).2) := by
    rw [memoized, runOn_ofStore, TypeStore.memoized_of_none (TypeStore.lookup?_eq_none hx)]
    rfl
  rcases definitionName?_of_mem hmem with hname | ⟨rfl, rfl⟩
  · obtain ⟨body, x, hrun, -, hbody⟩ := definitionBody_leads hs hname
    have hx : name ∉ x.names := by
      have hnot := not_mem_names_definitionBody hname hfree
      rwa [hrun] at hnot
    refine ⟨x, kind, body, hname, hx, ?_, hbody⟩
    rw [basic_eq_memoized hname, runOn_bind_ok hrun, hadded body hx]
    exact TypeStore.le_refl _
  · refine ⟨s, .untypedFloat, .float .double, rfl, hfree, ?_, fun _ => .untypedFloat⟩
    rw [basic, runOn_bind_ok (hadded _ hfree)]
    exact TypeStore.le_memoized _ _ rfl

end

theorem basic_invalid (wordBits : Nat) (span : Span) (s : TypeStore) :
    runOn (basic wordBits .invalid span) s =
      (.error (.abort ⟨"values of invalid type", span⟩), s) := rfl

end Typing

/-! ## The points of a run -/

theorem Ir.TypeStore.size_le_of_lookup? {s t : TypeStore} {name : String} {id : TypeId} (h : s ≤ t)
    (hfree : name ∉ s.names) (hid : t.lookup? name = some id) : s.size ≤ id.index := by
  refine Nat.le_of_not_lt fun hlt => hfree ?_
  obtain ⟨slot, hold⟩ : ∃ slot, s.slot? id = some slot := ⟨_, Array.getElem?_eq_getElem hlt⟩
  obtain ⟨body, hslot⟩ := TypeStore.slot?_of_lookup? hid
  obtain rfl : slot = ⟨some name, body⟩ := Option.some.inj ((h.slot _ _ hold).symm.trans hslot)
  exact TypeStore.mem_names_of_slot? hold

namespace SourceUnit

variable {config : Config} {u : SourceUnit} {s : Session} {t : TypeStore}

/-- Once the types are resolved, definitions of untyped constants are made by the encoding of a kind
only. -/
theorem Passes.synthetic (h : u.Passes config s t) : t.Synthetic := by
  -- The definition was added at an earlier point, of which this holds by induction on the size.
  induction hsize : t.size using Nat.strongRecOn generalizing t with
  | ind n ih =>
  intro kind name id hname hid wordBits
  have hmem : name ∈ t.names := TypeStore.lookup?_isSome.mp (by rw [hid]; rfl)
  have hreserved := BasicKind.mem_reserved_of_definitions (mem_definitions hname)
  obtain ⟨rests, span, s₁, hrests, hpasses, hle, hfree, hupTo⟩ :=
    h.made hmem (not_mem_slottedNames hreserved)
  obtain ⟨old, hold⟩ := TypeStore.slot?_of_lookup? hid
  have hlt : s₁.size < n := hsize ▸ Nat.lt_of_le_of_lt
    (TypeStore.size_le_of_lookup? hle hfree hid) (TypeStore.index_lt hold)
  obtain ⟨x, made, body, hmade, hx, hpush, hbody⟩ :=
    Typing.basic_defines (ih _ hlt hpasses rfl) hrests hfree config.wordBits span
  obtain rfl := definitionName?_inj hname hmade
  have hadds := TypeStore.le_trans hpush hupTo
  -- The slot that was added is the one that is found.
  have hfound : (u.lastTypes config).lookup? name = some ⟨x.size⟩ :=
    TypeStore.lookup?_le hadds (TypeStore.find?_push (TypeStore.lookup?_eq_none hx) (by simp))
  obtain rfl : id = ⟨x.size⟩ :=
    Option.some.inj ((TypeStore.lookup?_le h.upTo hid).symm.trans hfound)
  have hslot := hadds.slot _ _ TypeStore.slot?_push_self
  have hsame := (h.upTo.slot _ _ hold).symm.trans hslot
  have hxt : x ≤ t := by
    have hxlast := TypeStore.le_trans (TypeStore.le_push (hbody 0).not_pending) hadds
    refine (TypeStore.le_total_of_le hxlast h.upTo).resolve_right fun htx => ?_
    exact Nat.lt_irrefl _ (TypeStore.index_lt (htx.slot _ _ hold))
  exact ⟨_, (hbody wordBits).le hxt, hold.trans hsame⟩

/-- At no point has a declared type the name of such a definition. -/
theorem Reaches.synthetic (h : u.Reaches config t) : t.Synthetic := by
  rcases h.cases with ⟨r, hle, -, hnames⟩ | ⟨s, hpasses⟩
  · intro kind name id hname hid
    have hreserved := BasicKind.mem_reserved_of_definitions (mem_definitions hname)
    have hmem : name ∈ r.names :=
      TypeStore.mem_names_le hle (TypeStore.lookup?_isSome.mp (by rw [hid]; rfl))
    obtain ⟨d, hd, rfl⟩ := hnames name hmem
    exact absurd hreserved ((mem_admitted_iff [] _).mp hd).1
  · exact hpasses.synthetic

theorem types_of_lower {m : Module} {errors : List LowerError}
    (h : u.lower config = (.ok m, errors)) :
    m.types = u.lastTypes config ∧ ∃ s, u.Passes config s m.types := by
  obtain ⟨wordBits, verify⟩ := config
  obtain ⟨r, s₃, hrun⟩ := exists_runOn (u.lowerPass ⟨wordBits, verify⟩) ⟨.empty, []⟩
  have hsame : (u.lowerPass ⟨wordBits, verify⟩).run ⟨.empty, []⟩ = (r, s₃) := hrun
  rw [lower, hsame] at h
  cases h
  have hlast : u.lastTypes ⟨wordBits, verify⟩ = s₃.types := by rw [lastTypes, hrun]
  rw [lowerPass_unverified, lowerPass] at hrun
  cases hsplit : split u.decls with
  | error e =>
    rw [hsplit] at hrun
    cases hrun
  | ok r =>
    obtain ⟨types, funcs⟩ := r
    obtain ⟨htypes, hfuncs⟩ := split_ok u.decls hsplit
    obtain rfl : types = u.typeDecls := htypes
    obtain rfl : funcs = u.funcDecls := hfuncs
    rw [hsplit] at hrun
    obtain ⟨declared, s₁, hresolve, hrun⟩ := runOn_bind_eq_ok hrun
    obtain ⟨⟨functions, kept⟩, s₂, -, hrun⟩ := runOn_bind_eq_ok hrun
    obtain ⟨fns, s₃, -, hrun⟩ := runOn_bind_eq_ok hrun
    cases hrun
    exact ⟨hlast.symm, s₁, hlast ▸ passes_last hsplit hresolve⟩

end SourceUnit

theorem Ir.TypeStore.Linked.filter_named {s : TypeStore} {name : String} {id : TypeId}
    (h : s.Linked) (hid : s.lookup? name = some id) :
    s.named.filter (fun entry => entry.1 = name) = [(name, id)] := by
  have hnodup : s.named.Nodup := s.named_pairwise.imp fun hlt heq => by
    rw [heq] at hlt
    exact Nat.lt_irrefl _ hlt
  refine List.perm_singleton.mp ((List.perm_ext_iff_of_nodup (hnodup.filter _)
    (List.nodup_singleton _)).mpr fun entry => ?_)
  obtain ⟨name', id'⟩ := entry
  rw [List.mem_filter, h.mem_named_iff, List.mem_singleton, decide_eq_true_iff]
  constructor
  · rintro ⟨hid', rfl⟩
    rw [Option.some.inj (hid'.symm.trans hid)]
  · intro heq
    cases heq
    exact ⟨hid, rfl⟩

namespace SourceUnit

/-- The types of basic kinds in a run that lowers a unit. -/
structure BasicStable (config : Config) (u : SourceUnit) : Prop where
  /-- At every point a kind has a type with its encoding, -/
  encoded : ∀ t, u.Reaches config t → ∀ kind : BasicKind, kind ≠ .invalid → ∀ span,
    ∃ id t', runOn (Typing.basic config.wordBits kind span) t = (.ok id, t') ∧
      kind.Encodes config.wordBits t' id
  /-- but for the invalid kind, which ends the run. -/
  invalid : ∀ t span, ∃ what,
    runOn (Typing.basic config.wordBits .invalid span) t = (.error (.abort what), t)
  /-- It is the same type wherever the run comes to ask for it. -/
  same : ∀ (kind : BasicKind) s s' t t' span at_ i j,
    u.Reaches config s → runOn (Typing.basic config.wordBits kind span) s = (.ok i, s') →
    u.Reaches config s' →
    u.Reaches config t → runOn (Typing.basic config.wordBits kind at_) t = (.ok j, t') →
    u.Reaches config t' → i = j
  /-- A reserved name that a module has is listed once, for the definition of its kind, and no
  declaration takes it or has its type. -/
  listed : ∀ m errors, u.lower config = (.ok m, errors) → ∀ name ∈ reservedTypeNames,
    name ∈ m.types.named.map Prod.fst → ∃ (kind : BasicKind) (id : TypeId),
      kind.definitionName? = some name ∧ kind.Encodes config.wordBits m.types id ∧
      m.types.named.filter (fun entry => entry.1 = name) = [(name, id)] ∧
      name ∉ slottedNames u.typeDecls ∧
      ∀ other ∈ slottedNames u.typeDecls, m.types.lookup? other ≠ some id

theorem basic_stable (config : Config) (u : SourceUnit) : BasicStable config u where
  encoded t ht kind hvalid span := by
    obtain ⟨id, t', hrun, -, -, hencodes⟩ :=
      Typing.basic_leads ht.synthetic hvalid config.wordBits span
    exact ⟨id, t', hrun, hencodes⟩
  invalid t span := ⟨_, Typing.basic_invalid config.wordBits span t⟩
  same kind s s' t t' span at_ i j hs hi hs' ht hj ht' := by
    have hlast {x x' : TypeStore} {k : TypeId} {place : Span} (hx : u.Reaches config x)
        (hrun : runOn (Typing.basic config.wordBits kind place) x = (.ok k, x'))
        (hx' : u.Reaches config x') :
        kind.typeIn? config.wordBits (u.lastTypes config) = some k := by
      have hvalid : kind ≠ .invalid := by
        rintro rfl
        cases hrun
      obtain ⟨id, x'', hrun', -, hid, -⟩ :=
        Typing.basic_leads hx.synthetic hvalid config.wordBits place
      cases hrun.symm.trans hrun'
      exact typeIn?_keeps hx'.keeps_last hid
    exact Option.some.inj ((hlast hs hi hs').symm.trans (hlast ht hj ht'))
  listed m errors h name hreserved hname := by
    obtain ⟨-, s, hpasses⟩ := types_of_lower h
    obtain ⟨ctx, kept, hlowers⟩ := lowers_of_lower h
    have hlinked := hlowers.ready.wf.linked
    obtain ⟨⟨_, id⟩, hentry, rfl⟩ := List.mem_map.mp hname
    have hid := hlinked.mem_named_iff.mp hentry
    obtain ⟨kind, hkind⟩ := exists_definitionName? hreserved
    refine ⟨kind, id, hkind, hpasses.synthetic kind _ id hkind hid config.wordBits,
      hlinked.filter_named hid, not_mem_slottedNames hreserved, fun other hother heq => ?_⟩
    obtain ⟨_, hslot⟩ := TypeStore.slot?_of_lookup? hid
    obtain ⟨_, hslot'⟩ := TypeStore.slot?_of_lookup? heq
    cases hslot.symm.trans hslot'
    exact not_mem_slottedNames hreserved hother

/-- Where the first constant is lowered, only `void` is there, and the type of the constant is
added. Wherever the run asks for that kind again, it is given the same type. -/
theorem basic_stable_constants : ∃ s : TypeStore,
    untypedFirst.Reaches ⟨64, true⟩ s ∧ s.size = 1 ∧
    (∃ s', runOn (Typing.basic 64 .untypedInt .empty) s = (.ok ⟨1⟩, s') ∧
      untypedFirst.Reaches ⟨64, true⟩ s') ∧
    ∀ t t' j, untypedFirst.Reaches ⟨64, true⟩ t →
      runOn (Typing.basic 64 .untypedInt .empty) t = (.ok j, t') →
      untypedFirst.Reaches ⟨64, true⟩ t' → j = ⟨1⟩ := by
  have hlast : untypedFirst.lastTypes ⟨64, true⟩ =
      ⟨#[⟨none, .void⟩, ⟨some "untyped_int", .int 64⟩]⟩ := by decide +kernel
  have hfrom : TypeStore.empty ≤ (TypeStore.empty.push ⟨none, .void⟩).2 := TypeStore.le_push rfl
  have hto : (⟨#[⟨none, .void⟩]⟩ : TypeStore) ≤
      (TypeStore.push ⟨#[⟨none, .void⟩]⟩ ⟨some "untyped_int", .int 64⟩).2 := TypeStore.le_push rfl
  have hs : untypedFirst.Reaches ⟨64, true⟩ ⟨#[⟨none, .void⟩]⟩ := .lowering
    ⟨untypedFirst_passes.splits, untypedFirst_passes.resolves, hfrom, hlast ▸ hto⟩
  have hs' : untypedFirst.Reaches ⟨64, true⟩
      ⟨#[⟨none, .void⟩, ⟨some "untyped_int", .int 64⟩]⟩ := hlast ▸ reaches_last _ _
  have hrun : runOn (Typing.basic 64 .untypedInt .empty) ⟨#[⟨none, .void⟩]⟩ =
      (.ok ⟨1⟩, ⟨#[⟨none, .void⟩, ⟨some "untyped_int", .int 64⟩]⟩) := by
    have hnone : (⟨#[⟨none, .void⟩]⟩ : TypeStore).lookup? "untyped_int" = none := by decide +kernel
    rw [Typing.basic, Typing.memoized, Typing.runOn_ofStore, TypeStore.memoized_of_none hnone]
    rfl
  refine ⟨_, hs, rfl, ⟨_, hrun, hs'⟩, fun t t' j ht hj ht' => ?_⟩
  exact ((basic_stable ⟨64, true⟩ untypedFirst).same .untypedInt _ _ t t' .empty .empty ⟨1⟩ j
    hs hrun hs' ht hj ht').symm

end SourceUnit

end Midend
