import Midend.Proofs.Typing

/-!
# Midend.Proofs.Denote

What a type as written stands for, read off a store without adding to it: a name stands for its
definition, and anything else for the anonymous type of its body (`TypeExpr.idIn?`). That is what
finding the type comes to (`Typing.ofExpr_found`), and it stays so while types are added and
declared types are given their bodies (`TypeStore.Keeps`).
-/

namespace Midend

open Ir

namespace Ir.TypeStore

/-- What is found in `s` is found in `t`, under the same number. -/
structure Keeps (s t : TypeStore) : Prop where
  lookup : ∀ name id, s.lookup? name = some id → t.lookup? name = some id
  interned : ∀ body id, s.interned? body = some id → t.interned? body = some id

theorem Keeps.refl (s : TypeStore) : s.Keeps s := ⟨fun _ _ h => h, fun _ _ h => h⟩

theorem Keeps.trans {s t u : TypeStore} (h₁ : s.Keeps t) (h₂ : t.Keeps u) : s.Keeps u :=
  ⟨fun name id h => h₂.lookup name id (h₁.lookup name id h),
    fun body id h => h₂.interned body id (h₁.interned body id h)⟩

theorem Keeps.of_le {s t : TypeStore} (h : s ≤ t) : s.Keeps t :=
  ⟨fun _ _ => lookup?_le h, fun _ _ => interned?_le h⟩

theorem has_of_interned? {s : TypeStore} {body : Ty} {id : TypeId}
    (h : s.interned? body = some id) : s.Has id :=
  ⟨body, body?_of_slot? (slot?_of_interned? h)⟩

theorem has_of_lookup? {s : TypeStore} {name : String} {id : TypeId}
    (h : s.lookup? name = some id) : s.Has id := by
  obtain ⟨body, hslot⟩ := slot?_of_lookup? h
  exact ⟨body, body?_of_slot? hslot⟩

end Ir.TypeStore

/-- The body of a basic kind, if the types in it are there. -/
def BasicKind.bodyIn? (s : TypeStore) (wordBits : Nat) : BasicKind → Option Ty
  | .bool => some (.int 1)
  | .int | .uint | .uintptr | .unsafePointer => some (.int wordBits)
  | .int8 | .uint8 => some (.int 8)
  | .int16 | .uint16 => some (.int 16)
  | .int32 | .uint32 => some (.int 32)
  | .int64 | .uint64 => some (.int 64)
  | .float32 => some (.float .single)
  | .float64 => some (.float .double)
  | .complex64 => (s.interned? (.float .single)).map fun part => .struct [part, part]
  | .complex128 => (s.interned? (.float .double)).map fun part => .struct [part, part]
  | .string => do
    let byte ← s.interned? (.int 8)
    let data ← s.interned? (.pointer byte)
    let length ← s.interned? (.int 64)
    return .struct [data, length]
  | .invalid | .untypedBool | .untypedInt | .untypedRune | .untypedFloat | .untypedComplex
  | .untypedString | .untypedNil => none

def BasicKind.idIn? (s : TypeStore) (wordBits : Nat) (kind : BasicKind) : Option TypeId :=
  (kind.bodyIn? s wordBits).bind s.interned?

namespace TypeExpr

mutual

/-- The type that a type expression stands for in a field or behind a pointer. -/
def idIn? (s : TypeStore) (wordBits : Nat) : TypeExpr → Option TypeId
  | .ident _ name =>
    match BasicKind.ofName? name with
    | some kind => kind.idIn? s wordBits
    | none => s.lookup? name
  | .qualified _ package name =>
    if isUnsafePointer package name then s.interned? (.int wordBits) else none
  | .pointer _ elem => (idIn? s wordBits elem).bind fun elem => s.interned? (.pointer elem)
  | .struct _ fields => (idsIn? s wordBits fields).bind fun ids => s.interned? (.struct ids)
  | .array _ _ _ | .map _ _ _ | .func _ _ _ | .interface _ => none

def idsIn? (s : TypeStore) (wordBits : Nat) : List Field → Option (List TypeId)
  | [] => some []
  | .mk names type _ :: rest => do
    let id ← idIn? s wordBits type
    let ids ← idsIn? s wordBits rest
    return List.replicate (max names.length 1) id ++ ids

end

/-- The body of a type whose alias chain ends with the type expression. -/
def bodyIn? (s : TypeStore) (wordBits : Nat) : TypeExpr → Option Ty
  | .ident _ name => (BasicKind.ofName? name).bind (BasicKind.bodyIn? s wordBits)
  | .qualified _ package name =>
    if isUnsafePointer package name then some (.int wordBits) else none
  | .pointer _ elem => (elem.idIn? s wordBits).map .pointer
  | .struct _ fields => (idsIn? s wordBits fields).map .struct
  | .array _ _ _ | .map _ _ _ | .func _ _ _ | .interface _ => none

end TypeExpr

section

variable {s t : TypeStore} {wordBits : Nat}

theorem BasicKind.bodyIn?_keeps (h : s.Keeps t) {kind : BasicKind} {body : Ty}
    (hbody : kind.bodyIn? s wordBits = some body) : kind.bodyIn? t wordBits = some body := by
  have hcomplex : ∀ k,
      (s.interned? (.float k)).map (fun part => Ty.struct [part, part]) = some body →
      (t.interned? (.float k)).map (fun part => Ty.struct [part, part]) = some body := by
    intro k hk
    obtain ⟨part, hpart, hstruct⟩ := Option.map_eq_some_iff.mp hk
    rw [h.interned _ _ hpart]
    exact congrArg some hstruct
  cases kind with
  | complex64 => exact hcomplex _ hbody
  | complex128 => exact hcomplex _ hbody
  | string =>
    simp only [bodyIn?, Option.bind_eq_bind, Option.bind_eq_some_iff] at hbody
    obtain ⟨byte, hbyte, data, hdata, length, hlength, hstruct⟩ := hbody
    simp only [bodyIn?, Option.bind_eq_bind, h.interned _ _ hbyte, h.interned _ _ hdata,
      h.interned _ _ hlength, Option.bind_some]
    exact hstruct
  | _ => exact hbody

theorem BasicKind.idIn?_keeps (h : s.Keeps t) {kind : BasicKind} {id : TypeId}
    (hid : kind.idIn? s wordBits = some id) : kind.idIn? t wordBits = some id := by
  obtain ⟨body, hbody, hintern⟩ := Option.bind_eq_some_iff.mp hid
  exact Option.bind_eq_some_iff.mpr ⟨body, bodyIn?_keeps h hbody, h.interned _ _ hintern⟩

namespace TypeExpr

mutual

theorem idIn?_keeps (h : s.Keeps t) (e : TypeExpr) {id : TypeId}
    (hid : e.idIn? s wordBits = some id) : e.idIn? t wordBits = some id := by
  cases e with
  | ident span name =>
    rw [idIn?] at hid ⊢
    cases hkind : BasicKind.ofName? name with
    | some kind =>
      rw [hkind] at hid
      exact BasicKind.idIn?_keeps h hid
    | none =>
      rw [hkind] at hid
      exact h.lookup _ _ hid
  | qualified span package name =>
    rw [idIn?] at hid ⊢
    split at hid
    · rename_i hunsafe
      rw [if_pos hunsafe]
      exact h.interned _ _ hid
    · cases hid
  | pointer span elem =>
    rw [idIn?] at hid ⊢
    obtain ⟨id', helem, hintern⟩ := Option.bind_eq_some_iff.mp hid
    exact Option.bind_eq_some_iff.mpr ⟨id', idIn?_keeps h elem helem, h.interned _ _ hintern⟩
  | struct span fields =>
    rw [idIn?] at hid ⊢
    obtain ⟨ids, hfields, hintern⟩ := Option.bind_eq_some_iff.mp hid
    exact Option.bind_eq_some_iff.mpr ⟨ids, idsIn?_keeps h fields hfields, h.interned _ _ hintern⟩
  | array | map | func | interface =>
    rw [idIn?] at hid
    cases hid

theorem idsIn?_keeps (h : s.Keeps t) (fields : List Field) {ids : List TypeId}
    (hids : idsIn? s wordBits fields = some ids) : idsIn? t wordBits fields = some ids := by
  cases fields with
  | nil =>
    rw [idsIn?] at hids ⊢
    exact hids
  | cons field rest =>
    obtain ⟨names, type, span⟩ := field
    simp only [idsIn?, Option.bind_eq_bind, Option.bind_eq_some_iff] at hids ⊢
    obtain ⟨id, hid, ids', hrest, hall⟩ := hids
    exact ⟨id, idIn?_keeps h type hid, ids', idsIn?_keeps h rest hrest, hall⟩

end

theorem bodyIn?_keeps (h : s.Keeps t) {e : TypeExpr} {body : Ty}
    (hbody : e.bodyIn? s wordBits = some body) : e.bodyIn? t wordBits = some body := by
  cases e with
  | ident span name =>
    obtain ⟨kind, hkind, hbody⟩ := Option.bind_eq_some_iff.mp hbody
    exact Option.bind_eq_some_iff.mpr ⟨kind, hkind, BasicKind.bodyIn?_keeps h hbody⟩
  | qualified => exact hbody
  | pointer span elem =>
    obtain ⟨id, hid, hbody⟩ := Option.map_eq_some_iff.mp hbody
    exact Option.map_eq_some_iff.mpr ⟨id, idIn?_keeps h elem hid, hbody⟩
  | struct span fields =>
    obtain ⟨ids, hids, hbody⟩ := Option.map_eq_some_iff.mp hbody
    exact Option.map_eq_some_iff.mpr ⟨ids, idsIn?_keeps h fields hids, hbody⟩
  | array | map | func | interface => cases hbody

end TypeExpr

end

section

variable {s : TypeStore} {wordBits : Nat}

theorem TypeExpr.has_of_idIn? {e : TypeExpr} {id : TypeId} (h : e.idIn? s wordBits = some id) :
    s.Has id := by
  cases e with
  | ident span name =>
    rw [idIn?] at h
    split at h
    · obtain ⟨body, _, hintern⟩ := Option.bind_eq_some_iff.mp h
      exact TypeStore.has_of_interned? hintern
    · exact TypeStore.has_of_lookup? h
  | qualified span package name =>
    rw [idIn?] at h
    split at h
    · exact TypeStore.has_of_interned? h
    · cases h
  | pointer span elem =>
    rw [idIn?] at h
    obtain ⟨_, _, hintern⟩ := Option.bind_eq_some_iff.mp h
    exact TypeStore.has_of_interned? hintern
  | struct span fields =>
    rw [idIn?] at h
    obtain ⟨_, _, hintern⟩ := Option.bind_eq_some_iff.mp h
    exact TypeStore.has_of_interned? hintern
  | array | map | func | interface =>
    rw [idIn?] at h
    cases h

theorem TypeExpr.has_of_idsIn? {fields : List Field} {ids : List TypeId}
    (h : TypeExpr.idsIn? s wordBits fields = some ids) : ∀ id ∈ ids, s.Has id := by
  induction fields generalizing ids with
  | nil =>
    rw [idsIn?] at h
    cases h
    simp
  | cons field rest ih =>
    obtain ⟨names, type, span⟩ := field
    simp only [idsIn?, Option.bind_eq_bind, Option.bind_eq_some_iff] at h
    obtain ⟨id, hid, ids', hrest, hall⟩ := h
    cases hall
    intro id' hid'
    rcases List.mem_append.mp hid' with hmem | hmem
    · obtain rfl := List.eq_of_mem_replicate hmem
      exact has_of_idIn? hid
    · exact ih hrest id' hmem

theorem BasicKind.has_of_bodyIn? {kind : BasicKind} {body : Ty}
    (h : kind.bodyIn? s wordBits = some body) :
    body ≠ .void ∧ body.isPending = false ∧ ∀ ref ∈ body.refs, s.Has ref := by
  have hcomplex : ∀ k,
      (s.interned? (.float k)).map (fun part => Ty.struct [part, part]) = some body →
      body ≠ .void ∧ body.isPending = false ∧ ∀ ref ∈ body.refs, s.Has ref := by
    intro k hk
    obtain ⟨part, hpart, rfl⟩ := Option.map_eq_some_iff.mp hk
    exact ⟨by simp, rfl, by simpa [Ty.refs] using TypeStore.has_of_interned? hpart⟩
  cases kind with
  | complex64 => exact hcomplex _ h
  | complex128 => exact hcomplex _ h
  | string =>
    simp only [bodyIn?, Option.bind_eq_bind, Option.bind_eq_some_iff] at h
    obtain ⟨byte, _, data, hdata, length, hlength, hstruct⟩ := h
    cases hstruct
    exact ⟨by simp, rfl, by
      simpa [Ty.refs] using ⟨TypeStore.has_of_interned? hdata, TypeStore.has_of_interned? hlength⟩⟩
  | invalid | untypedBool | untypedInt | untypedRune | untypedFloat | untypedComplex
  | untypedString | untypedNil => cases h
  | _ =>
    cases h
    exact ⟨by simp, rfl, by simp [Ty.refs]⟩

theorem TypeExpr.has_of_bodyIn? {e : TypeExpr} {body : Ty} (h : e.bodyIn? s wordBits = some body) :
    body ≠ .void ∧ body.isPending = false ∧ ∀ ref ∈ body.refs, s.Has ref := by
  cases e with
  | ident span name =>
    obtain ⟨kind, _, hbody⟩ := Option.bind_eq_some_iff.mp h
    exact kind.has_of_bodyIn? hbody
  | qualified span package name =>
    rw [bodyIn?] at h
    split at h
    · cases h
      exact ⟨by simp, rfl, by simp [Ty.refs]⟩
    · cases h
  | pointer span elem =>
    obtain ⟨id, hid, rfl⟩ := Option.map_eq_some_iff.mp h
    exact ⟨by simp, rfl, by simpa [Ty.refs] using has_of_idIn? hid⟩
  | struct span fields =>
    obtain ⟨ids, hids, rfl⟩ := Option.map_eq_some_iff.mp h
    exact ⟨by simp, rfl, by simpa [Ty.refs] using has_of_idsIn? hids⟩
  | array | map | func | interface => cases h

end

/-! ## Finding types -/

namespace Typing

variable {s : TypeStore}

theorem intern_found (hs : s.WF) {body : Ty} (hp : body.isPending = false)
    (hrefs : ∀ ref ∈ body.refs, s.Has ref) :
    (ofStore (TypeStore.intern body)).Adds s fun id s' => s'.interned? body = some id := by
  have hfound := TypeStore.interned?_intern s body
  refine .of_ok (runOn_ofStore _ s) (TypeStore.le_intern s hp)
    (hs.intern hp fun ref hr => (hrefs ref hr).index_lt) hfound fun t ht => ?_
  rw [runOn_ofStore, TypeStore.intern_of_some (TypeStore.interned?_le ht hfound)]

theorem int_found (hs : s.WF) (bits : Nat) :
    (int bits).Adds s fun id s' => s'.interned? (.int bits) = some id :=
  intern_found hs rfl (by simp [Ty.refs])

theorem pointerTo_found (hs : s.WF) {elem : TypeId} (he : s.Has elem) :
    (pointerTo elem).Adds s fun id s' => s'.interned? (.pointer elem) = some id :=
  intern_found hs rfl (by simpa [Ty.refs] using he)

theorem struct_found (hs : s.WF) {fields : List TypeId} (hf : ∀ field ∈ fields, s.Has field) :
    (struct fields).Adds s fun id s' => s'.interned? (.struct fields) = some id :=
  intern_found hs rfl (by simpa [Ty.refs] using hf)

theorem complex_found (hs : s.WF) (kind : FloatKind) :
    (complex kind).Adds s fun id s' => ∃ part, s'.interned? (.float kind) = some part ∧
      s'.interned? (.struct [part, part]) = some id := by
  have hfloat : (float kind).Adds s fun id s' => s'.interned? (.float kind) = some id :=
    intern_found hs rfl (by simp [Ty.refs])
  refine hfloat.bind fun part s₁ _ hw₁ hpart => ?_
  refine (struct_found hw₁ (by simpa using TypeStore.has_of_interned? hpart)).mono ?_
  intro id s₂ hle hid
  exact ⟨part, TypeStore.interned?_le hle hpart, hid⟩

theorem stringFields_found (hs : s.WF) :
    stringFields.Adds s fun fields s' => ∃ byte data length, s'.interned? (.int 8) = some byte ∧
      s'.interned? (.pointer byte) = some data ∧ s'.interned? (.int 64) = some length ∧
      fields = [data, length] := by
  refine (int_found hs 8).bind fun byte s₁ _ hw₁ hbyte => ?_
  refine (pointerTo_found hw₁ (TypeStore.has_of_interned? hbyte)).bind
    fun data s₂ hle₂ hw₂ hdata => ?_
  refine (int_found hw₂ 64).bind fun length s₃ hle₃ hw₃ hlength => ?_
  exact .pure hw₃ ⟨byte, data, length, TypeStore.interned?_le (TypeStore.le_trans hle₂ hle₃) hbyte,
    TypeStore.interned?_le hle₃ hdata, hlength, rfl⟩

theorem string_found (hs : s.WF) (wordBits : Nat) (span : Span) :
    (basic wordBits .string span).Adds s fun id s' =>
      BasicKind.string.idIn? s' wordBits = some id := by
  refine (stringFields_found hs).bind fun fields s₁ _ hw₁ hfields => ?_
  obtain ⟨byte, data, length, hbyte, hdata, hlength, rfl⟩ := hfields
  refine (struct_found hw₁ ?_).mono fun id s₂ hle hid => ?_
  · simpa using ⟨TypeStore.has_of_interned? hdata, TypeStore.has_of_interned? hlength⟩
  · simp only [BasicKind.idIn?, BasicKind.bodyIn?, Option.bind_eq_bind,
      TypeStore.interned?_le hle hbyte, TypeStore.interned?_le hle hdata,
      TypeStore.interned?_le hle hlength, Option.bind_some]
    exact hid

theorem plain_found (hs : s.WF) (wordBits : Nat) {kind : BasicKind} (hkind : kind.isPlain = true)
    (span : Span) :
    (basic wordBits kind span).Adds s fun id s' => kind.idIn? s' wordBits = some id := by
  have hcomplex : ∀ k, (complex k).Adds s fun id s' =>
      ((s'.interned? (.float k)).map fun part => Ty.struct [part, part]).bind s'.interned? =
        some id := fun k =>
    (complex_found hs k).mono fun id s' _ ⟨part, hpart, hid⟩ => by simp [hpart, hid]
  cases kind with
  | bool | int | int8 | int16 | int32 | int64 | uint | uint8 | uint16 | uint32 | uint64 | uintptr
  | unsafePointer => exact int_found hs _
  | float32 | float64 => exact intern_found hs rfl (by simp [Ty.refs])
  | complex64 | complex128 => exact hcomplex _
  | string => exact string_found hs wordBits span
  | invalid | untypedBool | untypedInt | untypedRune | untypedFloat | untypedComplex
  | untypedString | untypedNil => cases hkind

theorem named_found (hs : s.WF) (name : String) (span : Span) :
    (named name span).Adds s fun id s' => s'.lookup? name = some id := by
  cases h : s.lookup? name with
  | some id =>
    refine .of_ok (by rw [runOn_named, h]) (TypeStore.le_refl s) hs h fun t ht => ?_
    rw [runOn_named, TypeStore.lookup?_le ht h]
  | none =>
    have hplain : (Fault.report (.undefinedType name span)).Tame := trivial
    exact .of_error (by rw [runOn_named, h]) (TypeStore.le_refl s) hs hplain

mutual

theorem ofExpr_found (wordBits : Nat) (e : TypeExpr) {s : TypeStore} (hs : s.WF) :
    (ofExpr wordBits e).Adds s fun id s' => e.idIn? s' wordBits = some id := by
  cases e with
  | ident span name =>
    simp only [ofExpr, TypeExpr.idIn?]
    cases hkind : BasicKind.ofName? name with
    | some kind => exact plain_found hs wordBits (BasicKind.isPlain_of_ofName? hkind) span
    | none => exact named_found hs name span
  | qualified span package name =>
    simp only [ofExpr, TypeExpr.idIn?]
    split
    · exact int_found hs wordBits
    · exact .abort hs
  | pointer span elem =>
    simp only [ofExpr, TypeExpr.idIn?]
    refine (ofExpr_found wordBits elem hs).bind fun id s₁ _ hw₁ hid => ?_
    refine (pointerTo_found hw₁ (TypeExpr.has_of_idIn? hid)).mono fun id' s₂ hle hid' => ?_
    rw [TypeExpr.idIn?_keeps (.of_le hle) elem hid]
    exact hid'
  | struct span fields =>
    simp only [ofExpr, TypeExpr.idIn?]
    refine (ofFields_found wordBits fields hs).bind fun ids s₁ _ hw₁ hids => ?_
    refine (struct_found hw₁ (TypeExpr.has_of_idsIn? hids)).mono fun id s₂ hle hid => ?_
    rw [TypeExpr.idsIn?_keeps (.of_le hle) fields hids]
    exact hid
  | array span len elem => rw [ofExpr]; exact .abort hs
  | map span key value => rw [ofExpr]; exact .abort hs
  | func span params results => rw [ofExpr]; exact .abort hs
  | interface span => rw [ofExpr]; exact .abort hs

theorem ofFields_found (wordBits : Nat) (fields : List Field) {s : TypeStore} (hs : s.WF) :
    (ofFields wordBits fields).Adds s fun ids s' =>
      TypeExpr.idsIn? s' wordBits fields = some ids := by
  cases fields with
  | nil =>
    simp only [ofFields, TypeExpr.idsIn?]
    exact .pure hs rfl
  | cons field rest =>
    obtain ⟨names, type, span⟩ := field
    simp only [ofFields, TypeExpr.idsIn?]
    refine (ofExpr_found wordBits type hs).bind fun id s₁ _ hw₁ hid => ?_
    refine (ofFields_found wordBits rest hw₁).bind fun ids s₂ hle₂ hw₂ hids => ?_
    refine .pure hw₂ ?_
    rw [TypeExpr.idIn?_keeps (.of_le hle₂) type hid, hids]
    rfl

end

end Typing

end Midend
