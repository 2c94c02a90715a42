import Mathlib.Data.List.Forall2
import Midend.Proofs.Resolve

/-!
# Midend.Proofs.Resolution

The resolver of declared types is exact (`Pass.resolveTypes_exact`): which names have a definition,
which body each definition has, which ones stay pending, and what is reported for them, are what the
declarations say, in whatever order they come and however they refer to one another.
-/

namespace Midend

open Ir

namespace TypeExpr

mutual

/-- The names in a type expression. -/
def names : TypeExpr → List String
  | .ident _ name => [name]
  | .qualified _ _ _ | .interface _ => []
  | .pointer _ elem => names elem
  | .struct _ fields => fieldNames fields
  | .array _ _ elem => names elem
  | .map _ key value => names key ++ names value
  | .func _ params results => fieldNames params ++ fieldNames results

def fieldNames : List Field → List String
  | [] => []
  | .mk _ type _ :: rest => names type ++ fieldNames rest

end

/-- The basic kind that a type expression is the name of. -/
def basicKind? : TypeExpr → Option BasicKind
  | .ident _ name => BasicKind.ofName? name
  | .qualified _ package name => if isUnsafePointer package name then some .unsafePointer else none
  | .pointer _ _ | .struct _ _ | .array _ _ _ | .map _ _ _ | .func _ _ _ | .interface _ => none

end TypeExpr

/-- The name is neither a basic kind's nor that of a type in the store. -/
def Missing (s : TypeStore) (name : String) : Prop :=
  BasicKind.ofName? name = none ∧ s.lookup? name = none

section

variable {s : TypeStore} {wordBits : Nat}

theorem not_missing_of_kind {name : String} {kind : BasicKind}
    (h : BasicKind.ofName? name = some kind) : ¬ Missing s name := by
  rintro ⟨hnone, _⟩
  rw [h] at hnone
  cases hnone

mutual

theorem TypeExpr.not_missing_of_idIn? (e : TypeExpr) {id : TypeId}
    (h : e.idIn? s wordBits = some id) : ∀ name ∈ e.names, ¬ Missing s name := by
  cases e with
  | ident span name =>
    intro n hn
    obtain rfl : n = name := by simpa [names] using hn
    rintro ⟨hkind, hlookup⟩
    simp [idIn?, hkind, hlookup] at h
  | qualified => simp [names]
  | pointer span elem =>
    rw [idIn?] at h
    obtain ⟨id', helem, _⟩ := Option.bind_eq_some_iff.mp h
    rw [names]
    exact not_missing_of_idIn? elem helem
  | struct span fields =>
    rw [idIn?] at h
    obtain ⟨ids, hfields, _⟩ := Option.bind_eq_some_iff.mp h
    rw [names]
    exact not_missing_of_idsIn? fields hfields
  | array | map | func | interface =>
    rw [idIn?] at h
    cases h

theorem TypeExpr.not_missing_of_idsIn? (fields : List Field) {ids : List TypeId}
    (h : TypeExpr.idsIn? s wordBits fields = some ids) :
    ∀ name ∈ TypeExpr.fieldNames fields, ¬ Missing s name := by
  cases fields with
  | nil => simp [fieldNames]
  | cons field rest =>
    obtain ⟨names, type, span⟩ := field
    simp only [idsIn?, Option.bind_eq_bind, Option.bind_eq_some_iff] at h
    obtain ⟨id, hid, ids', hrest, _⟩ := h
    intro n hn
    rw [fieldNames] at hn
    rcases List.mem_append.mp hn with hn | hn
    · exact not_missing_of_idIn? type hid n hn
    · exact not_missing_of_idsIn? rest hrest n hn

end

theorem TypeExpr.not_missing_of_bodyIn? {e : TypeExpr} {body : Ty}
    (h : e.bodyIn? s wordBits = some body) : ∀ name ∈ e.names, ¬ Missing s name := by
  cases e with
  | ident span name =>
    obtain ⟨kind, hkind, _⟩ := Option.bind_eq_some_iff.mp h
    intro n hn
    obtain rfl : n = name := by simpa [names] using hn
    exact not_missing_of_kind hkind
  | qualified => simp [names]
  | pointer span elem =>
    obtain ⟨id, hid, _⟩ := Option.map_eq_some_iff.mp h
    rw [names]
    exact not_missing_of_idIn? elem hid
  | struct span fields =>
    obtain ⟨ids, hids, _⟩ := Option.map_eq_some_iff.mp h
    rw [names]
    exact not_missing_of_idsIn? fields hids
  | array | map | func | interface => cases h

mutual

theorem TypeExpr.missing_of_undefined? (e : TypeExpr) {u : String × Span}
    (h : e.undefined? s.names = some u) : u.1 ∈ e.names ∧ Missing s u.1 := by
  cases e with
  | ident span name =>
    rw [undefined?] at h
    split at h
    · cases h
    · rename_i hnot
      cases h
      rw [not_or] at hnot
      refine ⟨by simp [names], by simpa using hnot.1, ?_⟩
      rw [← TypeStore.lookup?_isSome] at hnot
      simpa using hnot.2
  | pointer span elem =>
    rw [undefined?] at h
    rw [names]
    exact missing_of_undefined? elem h
  | struct span fields =>
    rw [undefined?] at h
    rw [names]
    exact missing_of_undefinedField? fields h
  | qualified | array | map | func | interface =>
    rw [undefined?] at h
    cases h

theorem TypeExpr.missing_of_undefinedField? (fields : List Field) {u : String × Span}
    (h : TypeExpr.undefinedField? s.names fields = some u) :
    u.1 ∈ TypeExpr.fieldNames fields ∧ Missing s u.1 := by
  cases fields with
  | nil =>
    rw [undefinedField?] at h
    cases h
  | cons field rest =>
    obtain ⟨names, type, span⟩ := field
    rw [undefinedField?] at h
    rw [fieldNames]
    cases htype : undefined? s.names type with
    | some u' =>
      rw [htype] at h
      cases h
      obtain ⟨hmem, hmissing⟩ := missing_of_undefined? type htype
      exact ⟨List.mem_append_left _ hmem, hmissing⟩
    | none =>
      rw [htype] at h
      obtain ⟨hmem, hmissing⟩ := missing_of_undefinedField? rest h
      exact ⟨List.mem_append_right _ hmem, hmissing⟩

end

theorem TypeExpr.bodyIn?_of_basicKind? {e : TypeExpr} {kind : BasicKind}
    (h : e.basicKind? = some kind) : e.bodyIn? s wordBits = kind.bodyIn? s wordBits := by
  cases e with
  | ident span name =>
    have hkind : BasicKind.ofName? name = some kind := h
    simp [bodyIn?, hkind]
  | qualified span package name =>
    rw [basicKind?] at h
    split at h
    · rename_i hunsafe
      cases h
      rw [bodyIn?, if_pos hunsafe]
      rfl
    · cases h
  | pointer | struct | array | map | func | interface => cases h

theorem TypeExpr.not_missing_of_basicKind? {e : TypeExpr} {kind : BasicKind}
    (h : e.basicKind? = some kind) : ∀ name ∈ e.names, ¬ Missing s name := by
  cases e with
  | ident span name =>
    intro n hn
    obtain rfl : n = name := by simpa [names] using hn
    exact not_missing_of_kind h
  | qualified => simp [names]
  | pointer | struct | array | map | func | interface => cases h

theorem TypeExpr.composite_of_basicKind? {e : TypeExpr} {body : Ty} (h : e.basicKind? = none)
    (hbody : e.bodyIn? s wordBits = some body) :
    (∃ elem, body = .pointer elem) ∨ ∃ fields, body = .struct fields := by
  cases e with
  | ident span name =>
    have hkind : BasicKind.ofName? name = none := h
    simp [bodyIn?, hkind] at hbody
  | qualified span package name =>
    rw [basicKind?] at h
    rw [bodyIn?] at hbody
    split at h
    · cases h
    · rename_i hunsafe
      rw [if_neg hunsafe] at hbody
      cases hbody
  | pointer span elem =>
    obtain ⟨id, _, rfl⟩ := Option.map_eq_some_iff.mp hbody
    exact .inl ⟨id, rfl⟩
  | struct span fields =>
    obtain ⟨ids, _, rfl⟩ := Option.map_eq_some_iff.mp hbody
    exact .inr ⟨ids, rfl⟩
  | array | map | func | interface => cases hbody

end

theorem underlyingBasic?_named {declared : Declared} {name : String} {t last : TypeExpr}
    (ht : declared.lookup name = some t) (hlast : followAlias declared t = some last) :
    underlyingBasic? declared (.named name) = last.basicKind? := by
  rw [underlyingBasic?, ht, Option.bind_some, hlast]
  cases last <;> rfl

/-! ## Definitions -/

/-- The definition of the name, which is declared, and the end of its alias chain. -/
structure Defines (declared : Declared) (s : TypeStore) (name : String) (id : TypeId)
    (last : TypeExpr) : Prop where
  lookup : s.lookup? name = some id
  chain : ∃ t names, declared.lookup name = some t ∧ AliasChain declared names t last

/-- Whether the type of that name is in the store without a body. -/
def Pending (s : TypeStore) (name : String) : Prop :=
  ∃ id shape, s.lookup? name = some id ∧ s.body? id = some (.pending shape)

/-- The types of a unit are what its declarations say. Of a name only the first declaration counts,
and of a reserved name none. -/
structure Resolution (wordBits : Nat) (decls : List (TypeDecl × Span)) (declared : Declared)
    (s : Session) : Prop where
  first : ∀ name t, declared.lookup name = some t ↔ name ∉ reservedTypeNames ∧
    ∃ d, decls.find? (fun d => d.1.name = name) = some d ∧ d.1.type = t
  /-- The declared names whose alias chains come to an end have a definition. -/
  known : ∀ name, (s.types.lookup? name).isSome ↔
    ∃ t names last, declared.lookup name = some t ∧ AliasChain declared names t last
  /-- The body is that of the end of the chain, in which names stand for their definitions. -/
  body : ∀ name id last, Defines declared s.types name id last →
    (∀ n ∈ last.names, ¬ Missing s.types n) →
    ∃ body, last.bodyIn? s.types wordBits = some body ∧ s.types.body? id = some body ∧
      body.isPending = false
  /-- It stays pending if a name in it is missing. -/
  pending : ∀ name id last, Defines declared s.types name id last →
    (∃ n ∈ last.names, Missing s.types n) → Pending s.types name
  /-- One missing name is reported for each definition that stays pending, in order. -/
  reported : ∃ before undefined waiting, s.errors = before ++ undefined ∧
    (∀ e ∈ before, ∀ name span, e ≠ .undefinedType name span) ∧
    waiting.Sublist decls ∧ (waiting.map fun d => d.1.name).Nodup ∧
    (∀ d, d ∈ waiting ↔ decls.find? (fun d' => d'.1.name = d.1.name) = some d ∧
      Pending s.types d.1.name) ∧
    List.Forall₂ (fun d e => ∃ name span, e = LowerError.undefinedType name span ∧
      Missing s.types name ∧ ∃ names last, AliasChain declared names d.1.type last ∧
        name ∈ last.names) waiting undefined
  /-- Two names have two definitions, with equal bodies if their chains have one end. -/
  aliases : ∀ name name' id id' last, name ≠ name' → Defines declared s.types name id last →
    Defines declared s.types name' id' last → id ≠ id' ∧ s.types.body? id = s.types.body? id'
  /-- The basic kind seen through a name is the one that its chain ends with. -/
  kinds : ∀ name id last, Defines declared s.types name id last →
    underlyingBasic? declared (.named name) = last.basicKind? ∧
    isUnsigned declared (.named name) = last.basicKind?.any BasicKind.isUnsigned
  /-- The body is then that of the kind, and otherwise a pointer or a struct if it is there. -/
  encoded : ∀ name id last, Defines declared s.types name id last →
    match last.basicKind? with
    | some kind => ∃ body, kind.bodyIn? s.types wordBits = some body ∧ s.types.body? id = some body
    | none => Pending s.types name ∨ (∃ elem, s.types.body? id = some (.pointer elem)) ∨
        ∃ fields, s.types.body? id = some (.struct fields)

section

variable {wordBits : Nat} {decls : List (TypeDecl × Span)} {s : Session}

theorem mem_slottedNames {name : String} : name ∈ slottedNames decls ↔
    ∃ t names last, (declaredTypes decls).lookup name = some t ∧
      AliasChain (declaredTypes decls) names t last := by
  constructor
  · intro h
    obtain ⟨d, hd, rfl⟩ := List.mem_map.mp h
    obtain ⟨hadmitted, hend⟩ := List.mem_filter.mp hd
    obtain ⟨hreserved, _, hfind⟩ := (mem_admitted_iff [] decls).mp hadmitted
    obtain ⟨last, hlast⟩ := Option.isSome_iff_exists.mp hend
    obtain ⟨names, hchain⟩ := followAlias_eq_some_iff.mp hlast
    exact ⟨d.1.type, names, last, lookup_declaredTypes.mpr ⟨hreserved, d, hfind, rfl⟩, hchain⟩
  · rintro ⟨t, names, last, hlookup, hchain⟩
    obtain ⟨hreserved, d, hfind, rfl⟩ := lookup_declaredTypes.mp hlookup
    obtain rfl : d.1.name = name := by simpa using List.find?_some hfind
    refine List.mem_map.mpr ⟨d, List.mem_filter.mpr ⟨?_, ?_⟩, rfl⟩
    · exact (mem_admitted_iff [] decls).mpr ⟨hreserved, by simp, hfind⟩
    · exact Option.isSome_iff_exists.mpr ⟨last, followAlias_eq_some_iff.mpr ⟨names, hchain⟩⟩

theorem Defines.slotted {name : String} {id : TypeId} {last : TypeExpr}
    (h : Defines (declaredTypes decls) s.types name id last) :
    ∃ d ∈ slotted decls, d.1.name = name ∧
      followAlias (declaredTypes decls) d.1.type = some last := by
  obtain ⟨t, names, hlookup, hchain⟩ := h.chain
  have hlast := followAlias_eq_some_iff.mpr ⟨names, hchain⟩
  obtain ⟨hreserved, d, hfind, rfl⟩ := lookup_declaredTypes.mp hlookup
  obtain rfl : d.1.name = name := by simpa using List.find?_some hfind
  refine ⟨d, List.mem_filter.mpr ⟨?_, by simp [hlast]⟩, rfl, hlast⟩
  exact (mem_admitted_iff [] decls).mpr ⟨hreserved, by simp, hfind⟩

namespace Resolved

theorem defined (h : Resolved wordBits decls s) {name : String} {id : TypeId} {last : TypeExpr}
    (hd : Defines (declaredTypes decls) s.types name id last) :
    (∃ body, last.bodyIn? s.types wordBits = some body ∧ s.types.body? id = some body) ∨
      (∃ n ∈ last.names, Missing s.types n) ∧
        ∃ t shape, followAlias (declaredTypes decls) t = some last ∧
          shapeOf (declaredTypes decls) t = .ok (some shape) ∧
          s.types.body? id = some (.pending shape) := by
  obtain ⟨d, hslotted, rfl, hlast⟩ := hd.slotted
  obtain ⟨id', slot, hlookup, hslot, hfilled⟩ := h.filled d hslotted
  rw [hd.lookup] at hlookup
  cases hlookup
  have hbody := TypeStore.body?_of_slot? hslot
  cases hfilled with
  | body _ hlast' hin =>
    rw [hlast] at hlast'
    cases hlast'
    exact .inl ⟨_, hin, hbody⟩
  | @pending u shape hundefined hshape =>
    refine .inr ⟨⟨u.1, ?_⟩, d.1.type, shape, hlast, hshape, hbody⟩
    rw [TypeDecl.undefined?, hlast, Option.bind_some, ← h.names] at hundefined
    exact TypeExpr.missing_of_undefined? last hundefined

theorem pending_iff (h : Resolved wordBits decls s) {d : TypeDecl × Span} (hd : d ∈ slotted decls) :
    Pending s.types d.1.name ↔
      (d.1.undefined? (declaredTypes decls) (slottedNames decls)).isSome := by
  obtain ⟨id, slot, hlookup, hslot, hfilled⟩ := h.filled d hd
  have hbody := TypeStore.body?_of_slot? hslot
  rw [← hfilled.isPending]
  constructor
  · rintro ⟨id', shape, hlookup', hpending⟩
    rw [hlookup] at hlookup'
    cases hlookup'
    rw [Option.some.inj (hbody.symm.trans hpending)]
    rfl
  · intro hp
    cases hb : slot.body with
    | pending shape => exact ⟨id, shape, hlookup, hb ▸ hbody⟩
    | void | int | float | pointer | struct =>
      rw [hb] at hp
      cases hp

theorem mem_unpopulated (h : Resolved wordBits decls s) {d : TypeDecl × Span} :
    d ∈ unpopulated decls ↔ decls.find? (fun d' => d'.1.name = d.1.name) = some d ∧
      Pending s.types d.1.name := by
  rw [unpopulated, List.mem_filter]
  constructor
  · rintro ⟨hd, hundefined⟩
    obtain ⟨_, _, hfind⟩ := (mem_admitted_iff [] decls).mp (List.mem_filter.mp hd).1
    exact ⟨hfind, (h.pending_iff hd).mpr hundefined⟩
  · rintro ⟨hfind, hpending⟩
    obtain ⟨id, shape, hlookup, hbody⟩ := id hpending
    have hname : d.1.name ∈ slottedNames decls := by
      rw [← h.names, ← TypeStore.lookup?_isSome, hlookup]
      rfl
    obtain ⟨d', hd', hsame⟩ := List.mem_map.mp hname
    obtain ⟨_, _, hfind'⟩ := (mem_admitted_iff [] decls).mp (List.mem_filter.mp hd').1
    rw [hsame, hfind] at hfind'
    cases hfind'
    exact ⟨hd', (h.pending_iff hd').mp hpending⟩

theorem forall₂_filterMap {α β : Type} (f : α → Option β) (l : List α) :
    List.Forall₂ (fun a b => f a = some b) (l.filter fun a => (f a).isSome) (l.filterMap f) := by
  induction l with
  | nil => exact .nil
  | cons a rest ih =>
    cases ha : f a with
    | none => simpa [ha] using ih
    | some b => simpa [ha] using ih

theorem not_undefinedType {e : LowerError}
    (h : e ∈ admitErrors [] decls ++
      (Midend.admitted [] decls).filterMap (loopError? (declaredTypes decls)))
    (name : String) (span : Span) : e ≠ .undefinedType name span := by
  have hadmit : ∀ (taken : List String) (ds : List (TypeDecl × Span)),
      ∀ e ∈ admitErrors taken ds, e ≠ .undefinedType name span := by
    intro taken ds
    induction ds generalizing taken with
    | nil => simp [admitErrors]
    | cons d rest ih =>
      rw [admitErrors]
      split
      · exact List.forall_mem_cons.mpr ⟨by simp, ih taken⟩
      · split
        · exact List.forall_mem_cons.mpr ⟨by simp, ih taken⟩
        · exact ih _
  rcases List.mem_append.mp h with h | h
  · exact hadmit [] decls e h
  · obtain ⟨d, _, he⟩ := List.mem_filterMap.mp h
    rw [loopError?] at he
    split at he
    · cases he
    · cases he
      simp

theorem reports (h : Resolved wordBits decls s) :
    List.Forall₂ (fun d e => ∃ name span, e = LowerError.undefinedType name span ∧
        Missing s.types name ∧ ∃ names last, AliasChain (declaredTypes decls) names d.1.type last ∧
          name ∈ last.names) (unpopulated decls)
      ((slotted decls).filterMap (undefinedError? (declaredTypes decls) (slottedNames decls))) := by
  have hall := forall₂_filterMap (undefinedError? (declaredTypes decls) (slottedNames decls))
    (slotted decls)
  have hsame : unpopulated decls = (slotted decls).filter fun d =>
      (undefinedError? (declaredTypes decls) (slottedNames decls) d).isSome := by
    simp [unpopulated, undefinedError?]
  rw [hsame]
  refine hall.imp fun d e he => ?_
  obtain ⟨⟨name, span⟩, hundefined, rfl⟩ := Option.map_eq_some_iff.mp he
  rw [TypeDecl.undefined?] at hundefined
  obtain ⟨last, hlast, hname⟩ := Option.bind_eq_some_iff.mp hundefined
  obtain ⟨names, hchain⟩ := followAlias_eq_some_iff.mp hlast
  rw [← h.names] at hname
  obtain ⟨hmem, hmissing⟩ := TypeExpr.missing_of_undefined? last hname
  exact ⟨name, span, rfl, hmissing, names, last, hchain, hmem⟩

theorem aliases (h : Resolved wordBits decls s) {name name' : String} {id id' : TypeId}
    {last : TypeExpr} (hne : name ≠ name') (hd : Defines (declaredTypes decls) s.types name id last)
    (hd' : Defines (declaredTypes decls) s.types name' id' last) :
    id ≠ id' ∧ s.types.body? id = s.types.body? id' := by
  constructor
  · rintro rfl
    obtain ⟨body, hslot⟩ := TypeStore.slot?_of_lookup? hd.lookup
    obtain ⟨body', hslot'⟩ := TypeStore.slot?_of_lookup? hd'.lookup
    rw [hslot] at hslot'
    simp at hslot'
    exact hne hslot'.1
  · rcases h.defined hd with
      ⟨body, hin, hbody⟩ | ⟨⟨n, hn, hmissing⟩, t, shape, hlast, hshape, hbody⟩
    · rcases h.defined hd' with ⟨body', hin', hbody'⟩ | ⟨⟨n, hn, hmissing⟩, _⟩
      · rw [hin] at hin'
        cases hin'
        rw [hbody, hbody']
      · exact absurd hmissing (TypeExpr.not_missing_of_bodyIn? hin n hn)
    · rcases h.defined hd' with ⟨body', hin', _⟩ | ⟨_, t', shape', hlast', hshape', hbody'⟩
      · exact absurd hmissing (TypeExpr.not_missing_of_bodyIn? hin' n hn)
      · have hshapes : shapeOf (declaredTypes decls) t = shapeOf (declaredTypes decls) t' := by
          rw [shapeOf, shapeOf, hlast, hlast']
        rw [hshape, hshape'] at hshapes
        cases hshapes
        rw [hbody, hbody']

theorem encoded (h : Resolved wordBits decls s) {name : String} {id : TypeId} {last : TypeExpr}
    (hd : Defines (declaredTypes decls) s.types name id last) :
    match last.basicKind? with
    | some kind => ∃ body, kind.bodyIn? s.types wordBits = some body ∧ s.types.body? id = some body
    | none => Pending s.types name ∨ (∃ elem, s.types.body? id = some (.pointer elem)) ∨
        ∃ fields, s.types.body? id = some (.struct fields) := by
  rcases h.defined hd with ⟨body, hin, hbody⟩ | ⟨⟨n, hn, hmissing⟩, t, shape, _, _, hbody⟩
  · cases hkind : last.basicKind? with
    | some kind => exact ⟨body, by rw [← TypeExpr.bodyIn?_of_basicKind? hkind]; exact hin, hbody⟩
    | none =>
      rcases TypeExpr.composite_of_basicKind? hkind hin with ⟨elem, rfl⟩ | ⟨fields, rfl⟩
      · exact .inr (.inl ⟨elem, hbody⟩)
      · exact .inr (.inr ⟨fields, hbody⟩)
  · cases hkind : last.basicKind? with
    | some kind => exact absurd hmissing (TypeExpr.not_missing_of_basicKind? hkind n hn)
    | none => exact .inl ⟨id, shape, hd.lookup, hbody⟩

theorem resolution (h : Resolved wordBits decls s) :
    Resolution wordBits decls (declaredTypes decls) s where
  first name t := lookup_declaredTypes
  known name := by rw [TypeStore.lookup?_isSome, h.names, mem_slottedNames]
  body name id last hd hall := by
    rcases h.defined hd with ⟨body, hin, hbody⟩ | ⟨⟨n, hn, hmissing⟩, _⟩
    · exact ⟨body, hin, hbody, (TypeExpr.has_of_bodyIn? hin).2.1⟩
    · exact absurd hmissing (hall n hn)
  pending name id last hd := by
    rintro ⟨n, hn, hmissing⟩
    rcases h.defined hd with ⟨body, hin, _⟩ | ⟨_, t, shape, _, _, hbody⟩
    · exact absurd hmissing (TypeExpr.not_missing_of_bodyIn? hin n hn)
    · exact ⟨id, shape, hd.lookup, hbody⟩
  reported := by
    refine ⟨_, _, unpopulated decls, h.errors, fun e he => not_undefinedType he, ?_, ?_,
      fun d => h.mem_unpopulated, h.reports⟩
    · exact List.filter_sublist.trans (List.filter_sublist.trans (admitted_sublist [] decls))
    · exact (admitted_names [] decls).1.sublist
        ((List.filter_sublist.trans List.filter_sublist).map _)
  aliases name name' id id' last := h.aliases
  kinds name id last hd := by
    obtain ⟨t, names, hlookup, hchain⟩ := hd.chain
    have hlast := followAlias_eq_some_iff.mpr ⟨names, hchain⟩
    refine ⟨underlyingBasic?_named hlookup hlast, ?_⟩
    rw [isUnsigned, underlyingBasic?_named hlookup hlast]
  encoded name id last := h.encoded

end Resolved

end

/-- The resolver is exact. -/
theorem Pass.resolveTypes_exact {wordBits : Nat} {decls : List (TypeDecl × Span)}
    {declared : Declared} {s : Session}
    (h : runOn (Pass.resolveTypes wordBits decls) ⟨.empty, []⟩ = (.ok declared, s)) :
    Resolution wordBits decls declared s := by
  obtain ⟨rfl, hresolved⟩ := (Pass.resolveTypes_comes wordBits decls).of_ok h
  exact hresolved.resolution

/-- A type that points to itself, an alias of it, a loop, a missing name, a name declared twice and
a reserved one. -/
def Resolution.sample : List (TypeDecl × Span) :=
  let ident (name : String) : TypeExpr := .ident .empty name
  [("Node", .struct .empty [.mk ["val"] (ident "int") .empty,
      .mk ["next"] (.pointer .empty (ident "Node")) .empty]),
    ("Alias", ident "Node"), ("Loop", ident "Back"), ("Back", ident "Loop"),
    ("Wild", .pointer .empty (ident "Nowhere")), ("Alias", ident "bool"),
    ("untyped_int", ident "int")].map fun d => (⟨d.1, d.2⟩, .empty)

theorem Pass.resolveTypes_exact_sample :
    ∃ declared s, runOn (Pass.resolveTypes 64 Resolution.sample) ⟨.empty, []⟩ = (.ok declared, s) ∧
      s.errors.length = 5 ∧ Resolution 64 Resolution.sample declared s := by
  have hok :
      (runOn (Pass.resolveTypes 64 Resolution.sample) ⟨.empty, []⟩).1.toOption.isSome = true := by
    decide +kernel
  have herrors :
      (runOn (Pass.resolveTypes 64 Resolution.sample) ⟨.empty, []⟩).2.errors.length = 5 := by
    decide +kernel
  obtain ⟨r, s, hrun⟩ :
      ∃ r s, runOn (Pass.resolveTypes 64 Resolution.sample) ⟨.empty, []⟩ = (r, s) :=
    ⟨_, _, rfl⟩
  rw [hrun] at hok herrors
  cases r with
  | error f => cases hok
  | ok declared => exact ⟨declared, s, hrun, herrors, Pass.resolveTypes_exact hrun⟩

end Midend
