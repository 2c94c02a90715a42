import Midend.Ir.Verify

/-!
# Midend.Proofs.Store

A store of types only grows while code is lowered: `s ≤ t` says that every slot of `s` is a slot of
`t`, unchanged. Looking up a name or an anonymous body answers the same in every later store.

`TypeStore.WF` is what the operations keep. An anonymous body refers to earlier slots only, so that
writing out a type comes to an end (`Founded.ref?_isSome`).
-/

namespace Midend
namespace Ir

/-- The types that a body refers to. -/
def Ty.refs : Ty → List TypeId
  | .pointer elem => [elem]
  | .struct fields => fields
  | .void | .int _ | .float _ | .pending _ => []

/-- The text of a body, where `ref` writes the types that it refers to. -/
def Ty.text? (ref : TypeId → Option String) : Ty → Option String
  | .void => some "void"
  | .int bits => some ("i" ++ toString bits)
  | .float .single => some "float"
  | .float .double => some "double"
  | .pointer elem => (ref elem).map fun t => t ++ "*"
  | .struct [] => some "\x7b\x7d"
  | .struct fields =>
    (fields.mapM ref).map fun ts => "\x7b " ++ String.intercalate ", " ts ++ " \x7d"
  | .pending _ => some "opaque"

theorem mapM_isSome_iff {α β : Type} {f : α → Option β} {l : List α} :
    (l.mapM f).isSome ↔ ∀ a ∈ l, (f a).isSome := by
  induction l with
  | nil => simp
  | cons a rest ih =>
    rw [List.forall_mem_cons, ← ih, List.mapM_cons]
    cases f a with
    | none => simp
    | some b => cases rest.mapM f <;> simp

/-- A body can be written just if the types that it refers to can. -/
theorem Ty.text?_isSome_iff {ref : TypeId → Option String} {body : Ty} :
    (body.text? ref).isSome ↔ ∀ id ∈ body.refs, (ref id).isSome := by
  cases body with
  | void | int | pending | pointer => simp [text?, refs]
  | float kind => cases kind <;> simp [text?, refs]
  | struct fields =>
    cases fields with
    | nil => simp [text?, refs]
    | cons field fields =>
      rw [text?, Option.isSome_map]
      · exact mapM_isSome_iff
      · exact List.cons_ne_nil field fields

theorem mapM_congr {α β : Type} {f g : α → Option β} {l : List α} (h : ∀ a ∈ l, f a = g a) :
    l.mapM f = l.mapM g := by
  induction l with
  | nil => rfl
  | cons a rest ih =>
    obtain ⟨ha, hrest⟩ := List.forall_mem_cons.mp h
    rw [List.mapM_cons, List.mapM_cons, ha, ih hrest]

theorem Ty.text?_congr {f g : TypeId → Option String} {body : Ty}
    (h : ∀ ref ∈ body.refs, f ref = g ref) : body.text? f = body.text? g := by
  cases body with
  | void | int | pending => rfl
  | float kind => cases kind <;> rfl
  | pointer elem => rw [text?, text?, h elem (by simp [Ty.refs])]
  | struct fields =>
    cases fields with
    | nil => rfl
    | cons field fields =>
      have hall : (field :: fields).mapM f = (field :: fields).mapM g := mapM_congr h
      simp only [text?, hall]

namespace TypeStore

theorem slot?_mk (slots : Array Slot) (id : TypeId) :
    slot? ⟨slots⟩ id = slots[id.index]? := rfl

theorem index_lt {s : TypeStore} {id : TypeId} {slot : Slot} (h : s.slot? id = some slot) :
    id.index < s.size := by
  obtain ⟨hlt, _⟩ := Array.getElem?_eq_some_iff.mp h
  exact hlt

theorem body?_of_slot? {s : TypeStore} {id : TypeId} {slot : Slot} (h : s.slot? id = some slot) :
    s.body? id = some slot.body := by
  simp [body?, h]

theorem slot?_of_body? {s : TypeStore} {id : TypeId} {t : Ty} (h : s.body? id = some t) :
    ∃ slot, s.slot? id = some slot ∧ slot.body = t := by
  simpa [body?] using h

/-- Slots stay as they are, and a new one is never pending. -/
structure Grown (s t : TypeStore) : Prop where
  slot : ∀ id slot, s.slot? id = some slot → t.slot? id = some slot
  pending : ∀ id slot, t.slot? id = some slot → slot.body.isPending = true →
    s.slot? id = some slot

instance : LE TypeStore := ⟨Grown⟩

theorem le_refl (s : TypeStore) : s ≤ s := ⟨fun _ _ h => h, fun _ _ h _ => h⟩

theorem le_trans {s t u : TypeStore} (h₁ : s ≤ t) (h₂ : t ≤ u) : s ≤ u :=
  ⟨fun id slot h => h₂.slot id slot (h₁.slot id slot h),
    fun id slot h hp => h₁.pending id slot (h₂.pending id slot h hp) hp⟩

theorem slot?_le {s t : TypeStore} (h : s ≤ t) {id : TypeId} {slot : Slot}
    (hs : s.slot? id = some slot) : t.slot? id = some slot := h.slot id slot hs

theorem body?_le {s t : TypeStore} (h : s ≤ t) {id : TypeId} {ty : Ty}
    (hs : s.body? id = some ty) : t.body? id = some ty := by
  obtain ⟨slot, hslot, rfl⟩ := slot?_of_body? hs
  exact body?_of_slot? (slot?_le h hslot)

theorem body_eq {s : TypeStore} {id : TypeId} {ty : Ty} (h : s.body? id = some ty) :
    s.body id = .ok ty := by
  simp [body, h]

theorem ref_eq {s : TypeStore} {id : TypeId} {text : String} (h : s.ref? id = some text) :
    s.ref id = .ok text := by
  simp [ref, h]

theorem find?_eq_some {s : TypeStore} {p : Slot → Bool} {id : TypeId} :
    s.find? p = some id ↔
      (∃ slot, s.slot? id = some slot ∧ p slot = true) ∧
        ∀ j slot, s.slot? j = some slot → j.index < id.index → p slot = false := by
  obtain ⟨i⟩ := id
  simp only [find?, Option.map_eq_some_iff, TypeId.mk.injEq, exists_eq_right,
    Array.findIdx?_eq_some_iff_getElem, slot?]
  constructor
  · rintro ⟨hi, hp, hlt⟩
    refine ⟨⟨_, Array.getElem?_eq_getElem hi, hp⟩, fun j slot hj hji => ?_⟩
    have := hlt j.index hji
    rw [Array.getElem?_eq_getElem (by omega)] at hj
    cases hj
    simpa using this
  · rintro ⟨⟨slot, hslot, hp⟩, hlt⟩
    obtain ⟨hi, rfl⟩ := Array.getElem?_eq_some_iff.mp hslot
    refine ⟨hi, hp, fun j hji => ?_⟩
    have hj : s.slots[j]? = some s.slots[j] := Array.getElem?_eq_getElem (Nat.lt_trans hji hi)
    simpa using hlt ⟨j⟩ _ hj hji

theorem find?_eq_none {s : TypeStore} {p : Slot → Bool} :
    s.find? p = none ↔ ∀ id slot, s.slot? id = some slot → p slot = false := by
  simp only [find?, Option.map_eq_none_iff, Array.findIdx?_eq_none_iff, slot?]
  constructor
  · intro h id slot hslot
    exact h slot (Array.mem_of_getElem? hslot)
  · intro h slot hslot
    obtain ⟨i, hi, rfl⟩ := Array.mem_iff_getElem.mp hslot
    exact h ⟨i⟩ _ (Array.getElem?_eq_getElem hi)

theorem find?_le {s t : TypeStore} (h : s ≤ t) {p : Slot → Bool} {id : TypeId}
    (hs : s.find? p = some id) : t.find? p = some id := by
  obtain ⟨⟨slot, hslot, hp⟩, hlt⟩ := find?_eq_some.mp hs
  refine find?_eq_some.mpr ⟨⟨slot, slot?_le h hslot, hp⟩, fun j other hj hji => ?_⟩
  have hj' : j.index < s.slots.size := Nat.lt_trans hji (index_lt hslot)
  have hold : s.slot? j = some s.slots[j.index] := Array.getElem?_eq_getElem hj'
  have hsame : other = s.slots[j.index] := by
    have := slot?_le h hold
    rw [hj] at this
    exact Option.some.inj this
  exact hsame ▸ hlt j _ hold hji

theorem lookup?_le {s t : TypeStore} (h : s ≤ t) {name : String} {id : TypeId}
    (hs : s.lookup? name = some id) : t.lookup? name = some id := find?_le h hs

theorem interned?_le {s t : TypeStore} (h : s ≤ t) {body : Ty} {id : TypeId}
    (hs : s.interned? body = some id) : t.interned? body = some id := find?_le h hs

theorem slot?_of_lookup? {s : TypeStore} {name : String} {id : TypeId}
    (h : s.lookup? name = some id) : ∃ body, s.slot? id = some ⟨some name, body⟩ := by
  obtain ⟨⟨⟨n, body⟩, hslot, hp⟩, _⟩ := find?_eq_some.mp h
  obtain rfl : n = some name := by simpa using hp
  exact ⟨body, hslot⟩

theorem slot?_of_interned? {s : TypeStore} {body : Ty} {id : TypeId}
    (h : s.interned? body = some id) : s.slot? id = some ⟨none, body⟩ := by
  obtain ⟨⟨⟨n, b⟩, hslot, hp⟩, _⟩ := find?_eq_some.mp h
  obtain ⟨rfl, rfl⟩ : n = none ∧ b = body := by simpa using hp
  exact hslot

/-- The type is in the store. -/
def Has (s : TypeStore) (id : TypeId) : Prop := ∃ body, s.body? id = some body

/-- The type is in the store and has values that can be passed around. -/
def Proper (s : TypeStore) (id : TypeId) : Prop := ∃ body, s.body? id = some body ∧ body ≠ .void

/-- The type is in the store and has been defined. -/
def Solid (s : TypeStore) (id : TypeId) : Prop :=
  ∃ body, s.body? id = some body ∧ body ≠ .void ∧ body.isPending = false

theorem Solid.proper {s : TypeStore} {id : TypeId} (h : s.Solid id) : s.Proper id := by
  obtain ⟨body, hb, hv, _⟩ := h
  exact ⟨body, hb, hv⟩

theorem Has.le {s t : TypeStore} (h : s ≤ t) {id : TypeId} (hs : s.Has id) : t.Has id := by
  obtain ⟨body, hb⟩ := hs
  exact ⟨body, body?_le h hb⟩

theorem Has.index_lt {s : TypeStore} {id : TypeId} (h : s.Has id) : id.index < s.size := by
  obtain ⟨body, hb⟩ := h
  obtain ⟨slot, hslot, _⟩ := slot?_of_body? hb
  exact TypeStore.index_lt hslot

theorem Proper.has {s : TypeStore} {id : TypeId} (h : s.Proper id) : s.Has id := by
  obtain ⟨body, hb, _⟩ := h
  exact ⟨body, hb⟩

theorem Proper.le {s t : TypeStore} (h : s ≤ t) {id : TypeId} (hs : s.Proper id) : t.Proper id := by
  obtain ⟨body, hb, hv⟩ := hs
  exact ⟨body, body?_le h hb, hv⟩

theorem slot?_push {s : TypeStore} {slot : Slot} {id : TypeId} :
    (s.push slot).2.slot? id = if id.index = s.size then some slot else s.slot? id :=
  Array.getElem?_push

theorem push_fst {s : TypeStore} {slot : Slot} : (s.push slot).1 = ⟨s.size⟩ := rfl

theorem slot?_push_self {s : TypeStore} {slot : Slot} :
    (s.push slot).2.slot? (s.push slot).1 = some slot := by
  rw [slot?_push, push_fst, if_pos rfl]

theorem le_push {s : TypeStore} {slot : Slot} (hp : slot.body.isPending = false) :
    s ≤ (s.push slot).2 := by
  refine ⟨fun id old h => ?_, fun id other h hpending => ?_⟩
  · rw [slot?_push, if_neg (Nat.ne_of_lt (index_lt h))]
    exact h
  · rw [slot?_push] at h
    split at h
    · cases h
      rw [hp] at hpending
      cases hpending
    · exact h

theorem size_push {s : TypeStore} {slot : Slot} : (s.push slot).2.size = s.size + 1 := by
  simp [push, size]

theorem find?_push {s : TypeStore} {slot : Slot} {p : Slot → Bool} (hnone : s.find? p = none)
    (hp : p slot = true) : (s.push slot).2.find? p = some (s.push slot).1 := by
  refine find?_eq_some.mpr ⟨⟨slot, slot?_push_self, hp⟩, fun j other hj hji => ?_⟩
  have hne : j.index ≠ s.size := Nat.ne_of_lt hji
  rw [slot?_push, if_neg hne] at hj
  exact find?_eq_none.mp hnone j other hj

theorem find?_push_of_some {s : TypeStore} {slot : Slot} {p : Slot → Bool} {id : TypeId}
    (h : s.find? p = some id) : (s.push slot).2.find? p = some id := by
  obtain ⟨⟨old, hold, hp⟩, hlt⟩ := find?_eq_some.mp h
  have hid : id.index < s.size := index_lt hold
  refine find?_eq_some.mpr ⟨⟨old, ?_, hp⟩, fun j other hj hji => ?_⟩
  · rw [slot?_push, if_neg (Nat.ne_of_lt hid)]
    exact hold
  · rw [slot?_push, if_neg (Nat.ne_of_lt (Nat.lt_trans hji hid))] at hj
    exact hlt j other hj hji

theorem declare_of_some {s : TypeStore} {name : String} {id : TypeId} (shape : Shape)
    (h : s.lookup? name = some id) : declare name shape s = (none, s) := by
  simp [declare, h]

theorem declare_of_none {s : TypeStore} {name : String} (shape : Shape)
    (h : s.lookup? name = none) :
    declare name shape s = (some ⟨s.size⟩, (s.push ⟨some name, .pending shape⟩).2) := by
  simp [declare, h, push, size]

/-- The store with another body in the slot of a named type. -/
def filled (s : TypeStore) (id : TypeId) (name : String) (body : Ty) : TypeStore :=
  ⟨s.slots.setIfInBounds id.index ⟨some name, body⟩⟩

theorem define_of_pending {s : TypeStore} {id : TypeId} {name : String} {body : Ty} {shape : Shape}
    (hslot : s.slot? id = some ⟨some name, .pending shape⟩) (hshape : body.shape = shape) :
    s.define id body = .ok (s.filled id name body) := by
  simp [define, hslot, hshape, filled]

section

variable {s : TypeStore} {id : TypeId} {name : String} {old body : Ty}

theorem slot?_filled (h : s.slot? id = some ⟨some name, old⟩) (j : TypeId) :
    (s.filled id name body).slot? j = if j = id then some ⟨some name, body⟩ else s.slot? j := by
  have hlt : id.index < s.slots.size := index_lt h
  have hindex : id.index = j.index ↔ j = id := by
    cases id
    cases j
    simp [eq_comm]
  rw [filled, slot?_mk, Array.getElem?_setIfInBounds]
  by_cases hj : j = id
  · rw [if_pos (hindex.mpr hj), if_pos hj, if_pos hlt]
  · rw [if_neg (mt hindex.mp hj), if_neg hj]
    rfl

theorem find?_filled (h : s.slot? id = some ⟨some name, old⟩) {p : Slot → Bool}
    (hp : p ⟨some name, body⟩ = p ⟨some name, old⟩) :
    (s.filled id name body).find? p = s.find? p := by
  have hhit : ∀ j b, (∃ slot, (s.filled id name body).slot? j = some slot ∧ p slot = b) ↔
      ∃ slot, s.slot? j = some slot ∧ p slot = b := by
    intro j b
    rw [slot?_filled h]
    by_cases hj : j = id
    · subst hj
      simp [h, hp]
    · simp [hj]
  have hmiss : ∀ i : TypeId, (∀ j slot, (s.filled id name body).slot? j = some slot →
      j.index < i.index → p slot = false) ↔
        ∀ j slot, s.slot? j = some slot → j.index < i.index → p slot = false := by
    intro i
    constructor <;> intro hall j slot hslot hlt
    · refine Bool.eq_false_iff.mpr fun htrue => ?_
      obtain ⟨slot', hslot', hp'⟩ := (hhit j true).mpr ⟨slot, hslot, htrue⟩
      rw [hall j slot' hslot' hlt] at hp'
      cases hp'
    · refine Bool.eq_false_iff.mpr fun htrue => ?_
      obtain ⟨slot', hslot', hp'⟩ := (hhit j true).mp ⟨slot, hslot, htrue⟩
      rw [hall j slot' hslot' hlt] at hp'
      cases hp'
  ext i
  rw [find?_eq_some, find?_eq_some, hhit i true, hmiss i]

theorem lookup?_filled (h : s.slot? id = some ⟨some name, old⟩) (n : String) :
    (s.filled id name body).lookup? n = s.lookup? n := find?_filled h rfl

theorem interned?_filled (h : s.slot? id = some ⟨some name, old⟩) (b : Ty) :
    (s.filled id name body).interned? b = s.interned? b := find?_filled h (by simp)

theorem slot?_filled_cases (h : s.slot? id = some ⟨some name, old⟩) {j : TypeId} {slot : Slot}
    (hget : (s.filled id name body).slot? j = some slot) :
    j = id ∧ slot = ⟨some name, body⟩ ∨ s.slot? j = some slot := by
  rw [slot?_filled h] at hget
  split at hget
  · rename_i hj
    exact .inl ⟨hj, (Option.some.inj hget).symm⟩
  · exact .inr hget

end

/-- A name and an anonymous body have one slot. -/
structure Linked (s : TypeStore) : Prop where
  interned : ∀ id body, s.slot? id = some ⟨none, body⟩ → s.interned? body = some id
  looked : ∀ id name body, s.slot? id = some ⟨some name, body⟩ → s.lookup? name = some id

theorem slot?_empty (id : TypeId) : TypeStore.empty.slot? id = none := by
  simp [slot?, TypeStore.empty]

theorem slot?_push_cases {s : TypeStore} {slot other : Slot} {id : TypeId}
    (h : (s.push slot).2.slot? id = some other) :
    id = (s.push slot).1 ∧ other = slot ∨ s.slot? id = some other := by
  rw [slot?_push] at h
  split at h
  · rename_i hid
    exact .inl ⟨by rw [push_fst, ← hid], (Option.some.inj h).symm⟩
  · exact .inr h

namespace Linked

theorem empty : TypeStore.empty.Linked where
  interned _ _ h := by simp [slot?_empty] at h
  looked _ _ _ h := by simp [slot?_empty] at h

variable {s : TypeStore} (h : s.Linked)

include h

theorem interned?_iff {body : Ty} {id : TypeId} :
    s.interned? body = some id ↔ s.slot? id = some ⟨none, body⟩ :=
  ⟨slot?_of_interned?, h.interned id body⟩

theorem lookup?_iff {name : String} {id : TypeId} :
    s.lookup? name = some id ↔ ∃ body, s.slot? id = some ⟨some name, body⟩ :=
  ⟨slot?_of_lookup?, fun ⟨body, hslot⟩ => h.looked id name body hslot⟩

theorem push_anonymous {body : Ty} (hnew : s.interned? body = none) :
    (s.push ⟨none, body⟩).2.Linked where
  interned id b hb := by
    rcases slot?_push_cases hb with ⟨rfl, heq⟩ | hold
    · cases heq
      exact find?_push hnew (by simp)
    · exact find?_push_of_some (h.interned id b hold)
  looked id name b hb := by
    rcases slot?_push_cases hb with ⟨_, heq⟩ | hold
    · cases heq
    · exact find?_push_of_some (h.looked id name b hold)

theorem push_named {name : String} {body : Ty} (hnew : s.lookup? name = none) :
    (s.push ⟨some name, body⟩).2.Linked where
  interned id b hb := by
    rcases slot?_push_cases hb with ⟨_, heq⟩ | hold
    · cases heq
    · exact find?_push_of_some (h.interned id b hold)
  looked id n b hb := by
    rcases slot?_push_cases hb with ⟨rfl, heq⟩ | hold
    · cases heq
      exact find?_push hnew (by simp)
    · exact find?_push_of_some (h.looked id n b hold)

theorem filled {id : TypeId} {name : String} {old body : Ty}
    (hslot : s.slot? id = some ⟨some name, old⟩) : (s.filled id name body).Linked where
  interned j b hget := by
    rcases slot?_filled_cases hslot hget with ⟨_, heq⟩ | hold
    · cases heq
    · exact (interned?_filled hslot b).trans (h.interned j b hold)
  looked j n b hget := by
    rcases slot?_filled_cases hslot hget with ⟨rfl, heq⟩ | hold
    · cases heq
      exact (lookup?_filled hslot _).trans (h.looked j _ old hslot)
    · exact (lookup?_filled hslot n).trans (h.looked j n b hold)

end Linked

/-! ## Well-formed stores -/

/-- Bodies refer to types that there are, and anonymous ones to earlier types only. -/
structure Founded (s : TypeStore) : Prop where
  earlier : ∀ id body, s.slot? id = some ⟨none, body⟩ → ∀ ref ∈ body.refs, ref.index < id.index
  closed : ∀ id slot, s.slot? id = some slot → ∀ ref ∈ slot.body.refs, ref.index < s.size

theorem Founded.push {s : TypeStore} (h : s.Founded) {slot : Slot}
    (hrefs : ∀ ref ∈ slot.body.refs, ref.index < s.size) : (s.push slot).2.Founded where
  earlier id body hslot ref href := by
    rcases slot?_push_cases hslot with ⟨rfl, rfl⟩ | hold
    · exact hrefs ref href
    · exact h.earlier id body hold ref href
  closed id other hslot ref href := by
    rw [size_push]
    rcases slot?_push_cases hslot with ⟨-, rfl⟩ | hold
    · exact Nat.lt_succ_of_lt (hrefs ref href)
    · exact Nat.lt_succ_of_lt (h.closed id other hold ref href)

/-- An anonymous body is there and refers to earlier slots; a named type is never `void`. Names and
anonymous bodies have one slot each, and bodies refer to slots that there are. -/
structure WF (s : TypeStore) : Prop where
  anonymous : ∀ id body, s.slot? id = some ⟨none, body⟩ →
    body.isPending = false ∧ ∀ ref ∈ body.refs, ref.index < id.index
  named : ∀ id name body, s.slot? id = some ⟨some name, body⟩ → body ≠ .void
  interned : ∀ id body, s.slot? id = some ⟨none, body⟩ → s.interned? body = some id
  looked : ∀ id name body, s.slot? id = some ⟨some name, body⟩ → s.lookup? name = some id
  closed : ∀ id slot, s.slot? id = some slot → ∀ ref ∈ slot.body.refs, ref.index < s.size

theorem WF.linked {s : TypeStore} (h : s.WF) : s.Linked := ⟨h.interned, h.looked⟩

theorem WF.empty : TypeStore.empty.WF where
  anonymous _ _ h := by simp [slot?_empty] at h
  named _ _ _ h := by simp [slot?_empty] at h
  interned _ _ h := by simp [slot?_empty] at h
  looked _ _ _ h := by simp [slot?_empty] at h
  closed _ _ h := by simp [slot?_empty] at h

theorem WF.founded {s : TypeStore} (h : s.WF) : s.Founded :=
  ⟨fun id body hslot => (h.anonymous id body hslot).2, h.closed⟩

theorem WF.push_anonymous {s : TypeStore} (h : s.WF) {body : Ty} (hp : body.isPending = false)
    (hnew : s.interned? body = none) (hrefs : ∀ ref ∈ body.refs, ref.index < s.size) :
    (s.push ⟨none, body⟩).2.WF where
  anonymous id b hb := by
    rcases slot?_push_cases hb with ⟨rfl, heq⟩ | hold
    · cases heq
      exact ⟨hp, hrefs⟩
    · exact h.anonymous id b hold
  named id name b hb := by
    rcases slot?_push_cases hb with ⟨_, heq⟩ | hold
    · cases heq
    · exact h.named id name b hold
  interned := (h.linked.push_anonymous hnew).interned
  looked := (h.linked.push_anonymous hnew).looked
  closed := (h.founded.push hrefs).closed

theorem WF.push_named {s : TypeStore} (h : s.WF) {name : String} {body : Ty} (hb : body ≠ .void)
    (hnew : s.lookup? name = none) (hrefs : ∀ ref ∈ body.refs, ref.index < s.size) :
    (s.push ⟨some name, body⟩).2.WF where
  anonymous id b hslot := by
    rcases slot?_push_cases hslot with ⟨_, heq⟩ | hold
    · cases heq
    · exact h.anonymous id b hold
  named id n b hslot := by
    rcases slot?_push_cases hslot with ⟨_, heq⟩ | hold
    · cases heq
      exact hb
    · exact h.named id n b hold
  interned := (h.linked.push_named hnew).interned
  looked := (h.linked.push_named hnew).looked
  closed := (h.founded.push hrefs).closed

theorem mem_namedFrom {name : String} {id : TypeId} {n : Nat} {slots : List Slot} :
    (name, id) ∈ namedFrom n slots ↔
      ∃ i body, id = ⟨n + i⟩ ∧ slots[i]? = some ⟨some name, body⟩ := by
  induction slots generalizing n with
  | nil => simp [namedFrom]
  | cons slot rest ih =>
    obtain ⟨name', b⟩ := slot
    have hrest : (name, id) ∈ namedFrom (n + 1) rest ↔
        ∃ i body, id = ⟨n + (i + 1)⟩ ∧ rest[i]? = some ⟨some name, body⟩ := by
      simp only [ih, Nat.add_assoc, Nat.add_comm 1]
    constructor
    · intro h
      cases name' with
      | none =>
        obtain ⟨i, body, hid, hslot⟩ := hrest.mp h
        exact ⟨i + 1, body, hid, hslot⟩
      | some name' =>
        rcases List.mem_cons.mp h with heq | h
        · cases heq
          exact ⟨0, b, rfl, rfl⟩
        · obtain ⟨i, body, hid, hslot⟩ := hrest.mp h
          exact ⟨i + 1, body, hid, hslot⟩
    · rintro ⟨i, body, hid, hslot⟩
      cases i with
      | zero =>
        cases hslot
        rw [hid]
        exact List.mem_cons_self
      | succ i =>
        have h := hrest.mpr ⟨i, body, hid, hslot⟩
        cases name' with
        | none => exact h
        | some name' => exact List.mem_cons_of_mem _ h

theorem mem_named {s : TypeStore} {name : String} {id : TypeId} :
    (name, id) ∈ s.named ↔ ∃ body, s.slot? id = some ⟨some name, body⟩ := by
  rw [named, mem_namedFrom]
  constructor
  · rintro ⟨i, body, rfl, hslot⟩
    refine ⟨body, ?_⟩
    rw [slot?, Nat.zero_add, ← Array.getElem?_toList]
    exact hslot
  · rintro ⟨body, hslot⟩
    refine ⟨id.index, body, by rw [Nat.zero_add], ?_⟩
    rw [Array.getElem?_toList]
    exact hslot

/-! ## Texts -/

/-- An order of the types in which an anonymous type comes after the anonymous types that it refers
to. -/
def Descends (s : TypeStore) (rank : TypeId → Nat) : Prop :=
  ∀ i a, s.slot? i = some ⟨none, a⟩ → ∀ ref ∈ a.refs, ∀ b, s.slot? ref = some ⟨none, b⟩ →
    rank ref < rank i

theorem Founded.descends {s : TypeStore} (h : s.Founded) : s.Descends TypeId.index :=
  fun i a hi ref href _ _ => h.earlier i a hi ref href

/-- Where a named type is left out, the anonymous types are one less. -/
theorem Founded.descends_without {s : TypeStore} {i : TypeId} (h : s.Founded)
    (hi : ∀ a, s.slot? i ≠ some ⟨none, a⟩) :
    s.Descends fun j => if i.index < j.index then j.index - 1 else j.index := by
  intro j a hj ref href b hb
  have hlt := h.earlier j a hj ref href
  have hne : ref.index ≠ i.index := fun heq => hi b (by rw [← hb, slot?, slot?, heq])
  have hne' : j.index ≠ i.index := fun heq => hi a (by rw [← hj, slot?, slot?, heq])
  dsimp only
  split <;> split <;> omega

theorem exists_slot {s : TypeStore} {id : TypeId} (hid : id.index < s.size) :
    ∃ slot, s.slot? id = some slot := ⟨_, Array.getElem?_eq_getElem hid⟩

theorem bodyText?_succ (s : TypeStore) (fuel : Nat) (id : TypeId) : s.bodyText? (fuel + 1) id =
    (s.body? id).bind (Ty.text? (s.refVia? (s.bodyText? fuel))) := by
  rw [bodyText?]
  cases s.body? id with
  | none => rfl
  | some body =>
    cases body with
    | void | int | pending | pointer => rfl
    | float kind => cases kind <;> rfl
    | struct fields => cases fields <;> rfl

theorem bodyText?_isSome_iff {s : TypeStore} {id : TypeId} {body : Ty} {fuel : Nat}
    (hbody : s.body? id = some body) : (s.bodyText? (fuel + 1) id).isSome ↔
      ∀ ref ∈ body.refs, (s.refVia? (s.bodyText? fuel) ref).isSome := by
  rw [bodyText?_succ, hbody]
  exact Ty.text?_isSome_iff

/-- In such a store every reference can be written: the fuel lasts for the anonymous bodies on the
way. -/
theorem Founded.refVia?_isSome {s : TypeStore} (h : s.Founded) {rank : TypeId → Nat}
    (hrank : s.Descends rank) (fuel : Nat) (id : TypeId) (slot : Slot)
    (hslot : s.slot? id = some slot) (hfuel : slot.name = none → rank id < fuel) :
    (s.refVia? (s.bodyText? fuel) id).isSome := by
  induction fuel generalizing id slot with
  | zero =>
    obtain ⟨name, body⟩ := slot
    cases name with
    | none => exact absurd (hfuel rfl) (Nat.not_lt_zero _)
    | some name => simp [refVia?, hslot]
  | succ fuel ih =>
    obtain ⟨name, body⟩ := slot
    cases name with
    | some name => simp [refVia?, hslot]
    | none =>
      simp only [refVia?, hslot]
      refine (bodyText?_isSome_iff (body?_of_slot? hslot)).mpr fun ref href => ?_
      obtain ⟨⟨name, b⟩, hother⟩ := exists_slot (h.closed id _ hslot ref href)
      refine ih ref _ hother fun hnone => ?_
      obtain rfl : name = none := hnone
      have := hrank id body hslot ref href b hother
      have := hfuel rfl
      omega

theorem Founded.ref?_isSome {s : TypeStore} (h : s.Founded) {id : TypeId}
    (hid : id.index < s.size) : ∃ text, s.ref? id = some text := by
  obtain ⟨slot, hslot⟩ := exists_slot hid
  rw [← Option.isSome_iff_exists]
  exact h.refVia?_isSome h.descends _ id slot hslot fun _ => hid

theorem ref?_isSome {s : TypeStore} (h : s.WF) {id : TypeId} {body : Ty}
    (hb : s.body? id = some body) : ∃ text, s.ref? id = some text :=
  h.founded.ref?_isSome (Has.index_lt ⟨body, hb⟩)

/-- The types that a body refers to can be written with less fuel than there are slots: a named
type's slot is not among the anonymous ones, and an anonymous type comes after those it refers to.
-/
theorem Founded.refs_isSome {s : TypeStore} (h : s.Founded) {id : TypeId} {slot : Slot}
    (hslot : s.slot? id = some slot) {n : Nat} (hn : s.size = n + 1) :
    ∀ ref ∈ slot.body.refs, (s.refVia? (s.bodyText? n) ref).isSome := by
  intro ref href
  have hid : id.index < n + 1 := hn ▸ index_lt hslot
  obtain ⟨other, hother⟩ := exists_slot (h.closed id slot hslot ref href)
  obtain ⟨name, body⟩ := slot
  cases name with
  | none =>
    refine h.refVia?_isSome h.descends n ref other hother fun _ => ?_
    have := h.earlier id body hslot ref href
    omega
  | some name =>
    refine h.refVia?_isSome (h.descends_without (i := id) fun a ha => ?_) n ref other hother
      fun hnone => ?_
    · rw [hslot] at ha
      cases ha
    · have hlt : ref.index < n + 1 := hn ▸ index_lt hother
      have hne : ref.index ≠ id.index := fun heq => by
        rw [slot?, heq, ← slot?, hslot] at hother
        cases hother
        cases hnone
      split <;> omega

theorem Founded.definition?_isSome {s : TypeStore} (h : s.Founded) {id : TypeId}
    (hid : id.index < s.size) : ∃ text, s.definition? id = some text := by
  obtain ⟨n, hn⟩ := Nat.exists_eq_add_one_of_ne_zero (Nat.ne_zero_of_lt hid)
  obtain ⟨slot, hslot⟩ := exists_slot hid
  rw [← Option.isSome_iff_exists, definition?, hn]
  exact (bodyText?_isSome_iff (body?_of_slot? hslot)).mpr (h.refs_isSome hslot hn)

section

variable {s : TypeStore} {id : TypeId}

theorem ref?_of_named {name : String} {body : Ty} (h : s.slot? id = some ⟨some name, body⟩) :
    s.ref? id = some ("%" ++ name) := by
  simp [ref?, refVia?, h]

theorem ref?_of_anonymous {body : Ty} (h : s.slot? id = some ⟨none, body⟩) :
    s.ref? id = s.definition? id := by
  simp [ref?, refVia?, h, definition?]

theorem refVia?_congr {f g : TypeId → Option String}
    (h : ∀ body, s.slot? id = some ⟨none, body⟩ → f id = g id) :
    s.refVia? f id = s.refVia? g id := by
  rw [refVia?, refVia?]
  cases hslot : s.slot? id with
  | none => rfl
  | some slot =>
    obtain ⟨name, body⟩ := slot
    cases name with
    | some name => rfl
    | none => exact h body hslot

/-- More fuel does not change what was written. -/
theorem refVia?_more {fuel : Nat} (h : (s.refVia? (s.bodyText? fuel) id).isSome) :
    s.refVia? (s.bodyText? (fuel + 1)) id = s.refVia? (s.bodyText? fuel) id := by
  induction fuel generalizing id with
  | zero =>
    refine refVia?_congr fun body hslot => ?_
    simp [refVia?, hslot, bodyText?] at h
  | succ fuel ih =>
    refine refVia?_congr fun body hslot => ?_
    have hbody := body?_of_slot? hslot
    rw [refVia?, hslot] at h
    rw [bodyText?_succ, bodyText?_succ, hbody]
    exact Ty.text?_congr fun ref href => ih ((bodyText?_isSome_iff hbody).mp h ref href)

theorem Founded.definition?_eq (h : s.Founded) (id : TypeId) :
    s.definition? id = (s.body? id).bind (Ty.text? s.ref?) := by
  cases hbody : s.body? id with
  | none =>
    rw [definition?]
    cases s.size with
    | zero => rfl
    | succ n => rw [bodyText?_succ, hbody]; rfl
  | some body =>
    obtain ⟨slot, hslot, rfl⟩ := slot?_of_body? hbody
    obtain ⟨n, hn⟩ := Nat.exists_eq_add_one_of_ne_zero (Nat.ne_zero_of_lt (index_lt hslot))
    rw [definition?, hn, bodyText?_succ, hbody]
    refine Ty.text?_congr fun ref href => ?_
    have hsome := h.refs_isSome hslot hn ref href
    rw [ref?, hn]
    exact (refVia?_more hsome).symm

end

theorem intern_of_some {s : TypeStore} {body : Ty} {id : TypeId}
    (h : s.interned? body = some id) : intern body s = (id, s) := by
  simp [intern, h]

theorem memoized_of_some {s : TypeStore} {name : String} {body : Ty} {id : TypeId}
    (h : s.lookup? name = some id) : memoized name body s = (id, s) := by
  simp [memoized, h]

theorem intern_cases (s : TypeStore) (body : Ty) :
    (∃ id, s.interned? body = some id ∧ intern body s = (id, s)) ∨
      (s.interned? body = none ∧ intern body s = s.push ⟨none, body⟩) := by
  cases h : s.interned? body with
  | some id => exact .inl ⟨id, rfl, intern_of_some h⟩
  | none => exact .inr ⟨rfl, by simp [intern, h]⟩

theorem memoized_cases (s : TypeStore) (name : String) (body : Ty) :
    (∃ id, s.lookup? name = some id ∧ memoized name body s = (id, s)) ∨
      (s.lookup? name = none ∧ memoized name body s = s.push ⟨some name, body⟩) := by
  cases h : s.lookup? name with
  | some id => exact .inl ⟨id, rfl, memoized_of_some h⟩
  | none => exact .inr ⟨rfl, by simp [memoized, h]⟩

theorem le_intern (s : TypeStore) {body : Ty} (hp : body.isPending = false) :
    s ≤ (intern body s).2 := by
  rcases intern_cases s body with ⟨id, _, h⟩ | ⟨_, h⟩ <;> rw [h]
  · exact le_refl s
  · exact le_push hp

theorem interned?_intern (s : TypeStore) (body : Ty) :
    (intern body s).2.interned? body = some (intern body s).1 := by
  rcases intern_cases s body with ⟨id, hid, h⟩ | ⟨hnone, h⟩ <;> rw [h]
  · exact hid
  · exact find?_push hnone (by simp)

theorem WF.intern {s : TypeStore} (h : s.WF) {body : Ty} (hp : body.isPending = false)
    (hrefs : ∀ ref ∈ body.refs, ref.index < s.size) : (TypeStore.intern body s).2.WF := by
  rcases intern_cases s body with ⟨id, _, he⟩ | ⟨hnew, he⟩ <;> rw [he]
  · exact h
  · exact h.push_anonymous hp hnew hrefs

theorem le_memoized (s : TypeStore) (name : String) {body : Ty} (hp : body.isPending = false) :
    s ≤ (memoized name body s).2 := by
  rcases memoized_cases s name body with ⟨id, _, h⟩ | ⟨_, h⟩ <;> rw [h]
  · exact le_refl s
  · exact le_push hp

theorem lookup?_memoized (s : TypeStore) (name : String) (body : Ty) :
    (memoized name body s).2.lookup? name = some (memoized name body s).1 := by
  rcases memoized_cases s name body with ⟨id, hid, h⟩ | ⟨hnone, h⟩ <;> rw [h]
  · exact hid
  · exact find?_push hnone (by simp)

theorem WF.memoized {s : TypeStore} (h : s.WF) {name : String} {body : Ty} (hb : body ≠ .void)
    (hrefs : ∀ ref ∈ body.refs, ref.index < s.size) : (TypeStore.memoized name body s).2.WF := by
  rcases memoized_cases s name body with ⟨id, _, he⟩ | ⟨hnew, he⟩ <;> rw [he]
  · exact h
  · exact h.push_named hb hnew hrefs

end TypeStore

end Ir
end Midend
