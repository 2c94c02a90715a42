import Midend.Proofs.Alias
import Midend.Proofs.Denote

/-!
# Midend.Proofs.Undefined

Which name of a type as written is undefined. That is read off the type and the names that are known
(`TypeExpr.undefined?`), and it is what finding the type reports (`Typing.ofExpr_finds`).
-/

namespace Midend

open Ir

namespace Ir.TypeStore

def names (s : TypeStore) : List String := s.slots.toList.filterMap Slot.name

theorem slot?_eq_toList {s : TypeStore} {id : TypeId} : s.slot? id = s.slots.toList[id.index]? :=
  Array.getElem?_toList.symm

theorem mem_names_of_slot? {s : TypeStore} {id : TypeId} {name : String} {body : Ty}
    (h : s.slot? id = some ⟨some name, body⟩) : name ∈ s.names := by
  rw [slot?_eq_toList] at h
  exact List.mem_filterMap.mpr ⟨_, List.mem_of_getElem? h, rfl⟩

theorem lookup?_isSome {s : TypeStore} {name : String} :
    (s.lookup? name).isSome = true ↔ name ∈ s.names := by
  constructor
  · intro h
    obtain ⟨id, hid⟩ := Option.isSome_iff_exists.mp h
    obtain ⟨body, hslot⟩ := slot?_of_lookup? hid
    exact mem_names_of_slot? hslot
  · intro h
    obtain ⟨slot, hslot, hname⟩ := List.mem_filterMap.mp h
    obtain ⟨i, hi⟩ := List.mem_iff_getElem?.mp hslot
    cases hnone : s.lookup? name with
    | some id => rfl
    | none =>
      have hget : s.slot? ⟨i⟩ = some slot := by
        rw [slot?_eq_toList]
        exact hi
      have := find?_eq_none.mp hnone ⟨i⟩ slot hget
      simp [hname] at this

theorem lookup?_eq_none {s : TypeStore} {name : String} (h : name ∉ s.names) :
    s.lookup? name = none :=
  Option.not_isSome_iff_eq_none.mp (mt lookup?_isSome.mp h)

theorem names_intern (s : TypeStore) (body : Ty) : (intern body s).2.names = s.names := by
  rcases intern_cases s body with ⟨id, _, h⟩ | ⟨_, h⟩ <;> rw [h]
  simp [names, push]

end Ir.TypeStore

namespace TypeExpr

mutual

/-- The first name that is neither predeclared nor known. -/
def undefined? (known : List String) : TypeExpr → Option (String × Span)
  | .ident span name =>
    if (BasicKind.ofName? name).isSome ∨ name ∈ known then none else some (name, span)
  | .pointer _ elem => undefined? known elem
  | .struct _ fields => undefinedField? known fields
  | .qualified _ _ _ | .array _ _ _ | .map _ _ _ | .func _ _ _ | .interface _ => none

def undefinedField? (known : List String) : List Field → Option (String × Span)
  | [] => none
  | .mk _ type _ :: rest => (undefined? known type).or (undefinedField? known rest)

end

end TypeExpr

namespace Typing

/-- The step takes no name, and if it reports an error then that the given name is undefined. -/
structure Finds {α : Type} (m : Typing α) (s : TypeStore) (u : Option (String × Span)) : Prop where
  names : (runOn m s).2.names = s.names
  outcome : match (runOn m s).1 with
    | .ok _ => u = none
    | .error (.report e) => ∃ name span, u = some (name, span) ∧ e = .undefinedType name span
    | .error _ => True

variable {α β : Type} {s : TypeStore}

theorem Finds.of_ok {m : Typing α} {s' : TypeStore} {a : α} (h : runOn m s = (.ok a, s'))
    (hnames : s'.names = s.names) : m.Finds s none := by
  constructor <;> rw [h]
  exact hnames

theorem Finds.pure {a : α} : Finds (Pure.pure a) s none := .of_ok (runOn_pure a s) rfl

theorem Finds.abort {u : Unsupported} {v : Option (String × Span)} :
    Finds (MonadExcept.throw (Fault.abort u) : Typing α) s v := ⟨rfl, trivial⟩

theorem Finds.bind {x : Typing α} {f : α → Typing β} {u v : Option (String × Span)}
    (hx : x.Finds s u) (hf : ∀ a s', s'.names = s.names → (f a).Finds s' v) :
    (x >>= f).Finds s (u.or v) := by
  obtain ⟨hnames, houtcome⟩ := hx
  obtain ⟨r, s', hrun⟩ : ∃ r s', runOn x s = (r, s') := ⟨_, _, rfl⟩
  rw [hrun] at hnames houtcome
  cases r with
  | ok a =>
    obtain rfl : u = none := houtcome
    obtain ⟨hnames', houtcome'⟩ := hf a s' hnames
    constructor <;> rw [runOn_bind_ok hrun]
    · exact hnames'.trans hnames
    · exact houtcome'
  | error e =>
    constructor <;> rw [runOn_bind_error hrun]
    · exact hnames
    · cases e with
      | report e =>
        obtain ⟨name, span, rfl, rfl⟩ := houtcome
        exact ⟨name, span, rfl, rfl⟩
      | abort u => trivial
      | breach b => trivial

theorem intern_finds (body : Ty) : (ofStore (TypeStore.intern body)).Finds s none :=
  .of_ok (runOn_ofStore _ s) (TypeStore.names_intern s body)

theorem body_finds (id : TypeId) : (body id).Finds s none := by
  constructor <;> rw [body, runOn_ask] <;> cases s.body id <;> trivial

theorem complex_finds (kind : FloatKind) : (complex kind).Finds s none :=
  (intern_finds _).bind fun _ _ _ => intern_finds _

theorem string_finds (wordBits : Nat) (span : Span) :
    (basic wordBits .string span).Finds s none :=
  ((intern_finds _).bind fun _ _ _ =>
    (intern_finds _).bind fun _ _ _ => (intern_finds _).bind fun _ _ _ => .pure).bind
      fun _ _ _ => intern_finds _

theorem plain_finds (wordBits : Nat) {kind : BasicKind} (hkind : kind.isPlain = true)
    (span : Span) : (basic wordBits kind span).Finds s none := by
  cases kind with
  | bool | int | int8 | int16 | int32 | int64 | uint | uint8 | uint16 | uint32 | uint64 | uintptr
  | unsafePointer | float32 | float64 => exact intern_finds _
  | complex64 | complex128 => exact complex_finds _
  | string => exact string_finds wordBits span
  | invalid | untypedBool | untypedInt | untypedRune | untypedFloat | untypedComplex
  | untypedString | untypedNil => cases hkind

theorem ident_finds {known : List String} (hknown : s.names = known) (wordBits : Nat) (span : Span)
    (name : String) :
    (ofExpr wordBits (.ident span name)).Finds s
      (TypeExpr.undefined? known (.ident span name)) := by
  rw [ofExpr, TypeExpr.undefined?]
  cases hkind : BasicKind.ofName? name with
  | some kind =>
    rw [if_pos (by simp)]
    exact plain_finds wordBits (BasicKind.isPlain_of_ofName? hkind) span
  | none =>
    have hmem := @TypeStore.lookup?_isSome s name
    rw [hknown] at hmem
    cases hid : s.lookup? name with
    | some id =>
      rw [hid] at hmem
      rw [if_pos (.inr (hmem.mp rfl))]
      exact .of_ok (by rw [runOn_named, hid]) rfl
    | none =>
      rw [hid] at hmem
      have hnot : name ∉ known := fun h => by simpa using hmem.mpr h
      rw [if_neg (by simp [hnot])]
      constructor <;> rw [runOn_named, hid]
      exact ⟨name, span, rfl, rfl⟩

mutual

theorem ofExpr_finds {known : List String} (wordBits : Nat) (t : TypeExpr) {s : TypeStore}
    (hknown : s.names = known) : (ofExpr wordBits t).Finds s (t.undefined? known) := by
  cases t with
  | ident span name => exact ident_finds hknown wordBits span name
  | qualified span package name =>
    rw [ofExpr, TypeExpr.undefined?]
    split
    · exact intern_finds _
    · exact .abort
  | pointer span elem =>
    rw [ofExpr, TypeExpr.undefined?, ← Option.or_none (o := TypeExpr.undefined? known elem)]
    exact (ofExpr_finds wordBits elem hknown).bind fun _ _ _ => intern_finds _
  | struct span fields =>
    rw [ofExpr, TypeExpr.undefined?, ← Option.or_none (o := TypeExpr.undefinedField? known fields)]
    exact (ofFields_finds wordBits fields hknown).bind fun _ _ _ => intern_finds _
  | array span len elem => rw [ofExpr]; exact .abort
  | map span key value => rw [ofExpr]; exact .abort
  | func span params results => rw [ofExpr]; exact .abort
  | interface span => rw [ofExpr]; exact .abort

theorem ofFields_finds {known : List String} (wordBits : Nat) (fields : List Field) {s : TypeStore}
    (hknown : s.names = known) :
    (ofFields wordBits fields).Finds s (TypeExpr.undefinedField? known fields) := by
  cases fields with
  | nil => rw [ofFields, TypeExpr.undefinedField?]; exact .pure
  | cons field rest =>
    obtain ⟨names, type, span⟩ := field
    rw [ofFields, TypeExpr.undefinedField?]
    refine (ofExpr_finds wordBits type hknown).bind fun id s₁ hnames => ?_
    rw [← Option.or_none (o := TypeExpr.undefinedField? known rest)]
    exact (ofFields_finds wordBits rest (hnames.trans hknown)).bind fun ids s₂ _ => .pure

end

end Typing

/-! ## Declared types -/

/-- The first undefined name of the type that a declaration comes to. -/
def TypeDecl.undefined? (declared : Declared) (known : List String) (decl : TypeDecl) :
    Option (String × Span) :=
  (followAlias declared decl.type).bind (TypeExpr.undefined? known)

theorem lookup_of_followAlias {declared : Declared} {t : TypeExpr} {span : Span} {name : String}
    (h : followAlias declared t = some (.ident span name))
    (hname : BasicKind.ofName? name = none) : declared.lookup name = none := by
  obtain ⟨names, hchain⟩ := followAlias_eq_some_iff.mp h
  rw [← nextAlias?_ident hname]
  exact hchain.next_last

namespace Typing

variable {declared : Declared} {known : List String} {s : TypeStore}

theorem bodyOf_finds (wordBits : Nat) (decl : TypeDecl) (span : Span) (hknown : s.names = known)
    (hdeclared : ∀ name ∈ known, (declared.lookup name).isSome)
    (hshape : (followAlias declared decl.type).isSome) :
    (bodyOf wordBits declared decl span).Finds s (decl.undefined? declared known) := by
  rw [bodyOf, TypeDecl.undefined?]
  obtain ⟨t, ht⟩ := Option.isSome_iff_exists.mp hshape
  rw [ht, Option.bind_some]
  cases t with
  | ident at_ name =>
    simp only
    rw [TypeExpr.undefined?]
    cases hkind : BasicKind.ofName? name with
    | some kind =>
      rw [if_pos (by simp)]
      exact (plain_finds wordBits (BasicKind.isPlain_of_ofName? hkind) at_).bind
        fun _ _ _ => body_finds _
    | none =>
      have hnone := lookup_of_followAlias ht hkind
      have hnot : name ∉ known := fun h => by
        have := hdeclared name h
        rw [hnone] at this
        cases this
      rw [if_neg (by simp [hnot])]
      exact ⟨rfl, name, at_, rfl, rfl⟩
  | pointer at_ elem =>
    simp only
    rw [TypeExpr.undefined?, ← Option.or_none (o := TypeExpr.undefined? known elem)]
    exact (ofExpr_finds wordBits elem hknown).bind fun _ _ _ => .pure
  | struct at_ fields =>
    simp only
    rw [TypeExpr.undefined?, ← Option.or_none (o := TypeExpr.undefinedField? known fields)]
    exact (ofFields_finds wordBits fields hknown).bind fun _ _ _ => .pure
  | qualified | array | map | func | interface =>
    rw [← Option.or_none (o := TypeExpr.undefined? known _)]
    exact (ofExpr_finds wordBits _ hknown).bind fun _ _ _ => body_finds _

theorem body_found {m : Typing TypeId} (find : TypeStore → Option Ty)
    (hm : m.Adds s fun id s' => (find s').bind s'.interned? = some id) :
    (do let id ← m; body id : Typing Ty).Adds s fun body s' => find s' = some body := by
  refine hm.bind fun id s₁ _ hw₁ hid => ?_
  obtain ⟨ty, hty, hintern⟩ := Option.bind_eq_some_iff.mp hid
  have hbody := TypeStore.body?_of_slot? (TypeStore.slot?_of_interned? hintern)
  refine .of_ok (runOn_body hbody) (TypeStore.le_refl _) hw₁ hty fun t ht => ?_
  exact runOn_body (TypeStore.body?_le ht hbody)

theorem bodyOf_found (wordBits : Nat) (decl : TypeDecl) (span : Span) (hs : s.WF) :
    (bodyOf wordBits declared decl span).Adds s fun body s' =>
      ∃ last, followAlias declared decl.type = some last ∧
        last.bodyIn? s' wordBits = some body := by
  rw [bodyOf]
  cases hlast : followAlias declared decl.type with
  | none => exact .throw hs (by exact trivial)
  | some last =>
    simp only [Option.some.injEq, exists_eq_left']
    cases last with
    | ident at_ name =>
      simp only
      cases hkind : BasicKind.ofName? name with
      | none => exact .throw hs (by exact trivial)
      | some kind =>
        refine (body_found (BasicKind.bodyIn? · wordBits kind)
          (plain_found hs wordBits (BasicKind.isPlain_of_ofName? hkind) at_)).mono ?_
        intro body s' _ hbody
        simp [TypeExpr.bodyIn?, hkind, hbody]
    | pointer at_ elem =>
      refine (ofExpr_found wordBits elem hs).bind fun id s₁ _ hw₁ hid => .pure hw₁ ?_
      simp [TypeExpr.bodyIn?, hid]
    | struct at_ fields =>
      refine (ofFields_found wordBits fields hs).bind fun ids s₁ _ hw₁ hids => .pure hw₁ ?_
      simp [TypeExpr.bodyIn?, hids]
    | qualified at_ package name =>
      simp only [ofExpr, TypeExpr.bodyIn?]
      split
      · exact body_found (fun _ => some (.int wordBits)) (int_found hs wordBits)
      · exact Adds.bind (P := fun _ _ => False) (.abort hs) fun _ _ _ _ h => h.elim
    | array | map | func | interface =>
      simp only [ofExpr]
      exact Adds.bind (P := fun _ _ => False) (.abort hs) fun _ _ _ _ h => h.elim

end Typing

theorem BasicKind.shape_of_bodyIn? {s : TypeStore} {wordBits : Nat} {kind : BasicKind} {body : Ty}
    (h : kind.bodyIn? s wordBits = some body) :
    body.shape = match kind with
      | .string | .complex64 | .complex128 => .struct
      | _ => .scalar := by
  cases kind with
  | complex64 | complex128 =>
    obtain ⟨part, _, rfl⟩ := Option.map_eq_some_iff.mp h
    rfl
  | string =>
    simp only [bodyIn?, Option.bind_eq_bind, Option.bind_eq_some_iff] at h
    obtain ⟨byte, _, data, _, length, _, hstruct⟩ := h
    cases hstruct
    rfl
  | invalid | untypedBool | untypedInt | untypedRune | untypedFloat | untypedComplex
  | untypedString | untypedNil => cases h
  | _ =>
    cases h
    rfl

theorem shape_of_bodyIn? {declared : Declared} {t last : TypeExpr} {shape : Shape} {s : TypeStore}
    {wordBits : Nat} {body : Ty} (hshape : shapeOf declared t = .ok (some shape))
    (hlast : followAlias declared t = some last) (hbody : last.bodyIn? s wordBits = some body) :
    body.shape = shape := by
  rw [shapeOf, hlast] at hshape
  cases last with
  | ident at_ name =>
    obtain ⟨kind, hkind, hbody⟩ := Option.bind_eq_some_iff.mp hbody
    rw [BasicKind.shape_of_bodyIn? hbody]
    simp only [hkind] at hshape
    cases kind <;> cases hshape <;> rfl
  | qualified at_ package name =>
    simp only at hshape
    rw [TypeExpr.bodyIn?] at hbody
    split at hbody
    · rename_i hunsafe
      rw [if_pos hunsafe] at hshape
      cases hbody
      cases hshape
      rfl
    · cases hbody
  | pointer at_ elem =>
    obtain ⟨id, _, rfl⟩ := Option.map_eq_some_iff.mp hbody
    cases hshape
    rfl
  | struct at_ fields =>
    obtain ⟨ids, _, rfl⟩ := Option.map_eq_some_iff.mp hbody
    cases hshape
    rfl
  | array | map | func | interface => cases hbody

end Midend
