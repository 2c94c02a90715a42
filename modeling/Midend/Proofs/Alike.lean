import Mathlib.Data.List.Forall2
import Midend.Proofs.Denote

/-!
# Midend.Proofs.Alike

Types of two stores that are the same type (`TypeStore.Alike`). Numbers do not matter, and neither
does what else the stores hold: two named types are alike if they have the same name, two anonymous
types if their bodies have the same form and refer to types that are alike. Whether two types of one
store are the same can then be read off either store (`Alike.eq_iff`), and so can their texts
(`Alike.ref?_eq`).
-/

namespace Midend
namespace Ir

/-- The bodies have the same form and refer to related types. -/
inductive Ty.Matches (R : TypeId → TypeId → Prop) : Ty → Ty → Prop where
  | void : Matches R .void .void
  | int (bits : Nat) : Matches R (.int bits) (.int bits)
  | float (kind : FloatKind) : Matches R (.float kind) (.float kind)
  | pointer {e e' : TypeId} : R e e' → Matches R (.pointer e) (.pointer e')
  | struct {fs fs' : List TypeId} : List.Forall₂ R fs fs' → Matches R (.struct fs) (.struct fs')
  | pending (shape : Shape) : Matches R (.pending shape) (.pending shape)

namespace Ty.Matches

variable {R R' : TypeId → TypeId → Prop} {a a' b b' : Ty}

theorem forall₂_mono {fs fs' : List TypeId} (h : List.Forall₂ R fs fs')
    (hr : ∀ i ∈ fs, ∀ j ∈ fs', R i j → R' i j) : List.Forall₂ R' fs fs' := by
  induction h with
  | nil => exact .nil
  | cons hij _ ih =>
    exact .cons (hr _ (by simp) _ (by simp) hij)
      (ih fun i hi j hj => hr i (by simp [hi]) j (by simp [hj]))

theorem mono (h : a.Matches R b) (hr : ∀ i ∈ a.refs, ∀ j ∈ b.refs, R i j → R' i j) :
    a.Matches R' b := by
  cases h with
  | void => exact .void
  | int => exact .int _
  | float => exact .float _
  | pointer hij => exact .pointer (hr _ (by simp [refs]) _ (by simp [refs]) hij)
  | struct hall => exact .struct (forall₂_mono hall hr)
  | pending => exact .pending _

theorem refl (hr : ∀ i ∈ a.refs, R i i) : a.Matches R a := by
  cases a with
  | void => exact .void
  | int => exact .int _
  | float => exact .float _
  | pointer e => exact .pointer (hr e (by simp [refs]))
  | struct fs => exact .struct (List.forall₂_same.mpr hr)
  | pending => exact .pending _

theorem flip (h : a.Matches R b) : b.Matches (fun j i => R i j) a := by
  cases h with
  | void => exact .void
  | int => exact .int _
  | float => exact .float _
  | pointer hij => exact .pointer hij
  | struct hall => exact .struct hall.flip
  | pending => exact .pending _

theorem forall₂_unique {fs gs gs' : List TypeId} (h : List.Forall₂ R fs gs)
    (h' : List.Forall₂ R' fs gs') (hr : ∀ i ∈ fs, ∀ j j', R i j → R' i j' → j = j') : gs = gs' := by
  induction h generalizing gs' with
  | nil => cases h'; rfl
  | cons hij _ ih =>
    cases h' with
    | cons hij' hrest =>
      rw [hr _ (by simp) _ _ hij hij', ih hrest fun i hi => hr i (by simp [hi])]

theorem unique (h : a.Matches R b) (h' : a.Matches R' b')
    (hr : ∀ i ∈ a.refs, ∀ j j', R i j → R' i j' → j = j') : b = b' := by
  cases h with
  | void => cases h'; rfl
  | int => cases h'; rfl
  | float => cases h'; rfl
  | pointer hij =>
    cases h' with
    | pointer hij' => rw [hr _ (by simp [refs]) _ _ hij hij']
  | struct hall =>
    cases h' with
    | struct hall' => rw [forall₂_unique hall hall' hr]
  | pending => cases h'; rfl

theorem mapM_eq {f g : TypeId → Option String} {fs gs : List TypeId}
    (h : List.Forall₂ (fun i j => f i = g j) fs gs) : fs.mapM f = gs.mapM g := by
  induction h with
  | nil => rfl
  | cons hij _ ih => rw [List.mapM_cons, List.mapM_cons, hij, ih]

theorem text?_eq {f g : TypeId → Option String} (h : a.Matches (fun i j => f i = g j) b) :
    a.text? f = b.text? g := by
  cases h with
  | void | int | pending => rfl
  | float kind => cases kind <;> rfl
  | pointer hij => rw [text?, text?, hij]
  | struct hall =>
    have htexts := mapM_eq hall
    cases hall with
    | nil => rfl
    | cons => simp only [text?, htexts]

theorem isPending (h : a.Matches R b) : a.isPending = b.isPending := by cases h <;> rfl

theorem refs_left {P : TypeId → Prop} (h : a.Matches R b) (hr : ∀ i j, R i j → P i) :
    ∀ ref ∈ a.refs, P ref := by
  cases h with
  | void | int | float | pending => simp [refs]
  | pointer hij => simpa [refs] using hr _ _ hij
  | struct hall =>
    induction hall with
    | nil => simp [refs]
    | cons hij _ ih => exact List.forall_mem_cons.mpr ⟨hr _ _ hij, ih⟩

theorem intBits? (h : a.Matches R b) : a.intBits? = b.intBits? := by cases h <;> rfl

theorem isInt (h : a.Matches R b) : a.isInt = b.isInt := by cases h <;> rfl

theorem isFloat (h : a.Matches R b) : a.isFloat = b.isFloat := by cases h <;> rfl

theorem isBool (h : a.Matches R b) : a.isBool = b.isBool := by cases h <;> rfl

theorem isVoid (h : a.Matches R b) : a.isVoid = b.isVoid := by cases h <;> rfl

end Ty.Matches

namespace TypeStore

/-- The type of one store is that of the other. -/
inductive Alike (s t : TypeStore) : TypeId → TypeId → Prop where
  | named {i j : TypeId} {name : String} {a b : Ty} : s.slot? i = some ⟨some name, a⟩ →
      t.slot? j = some ⟨some name, b⟩ → Alike s t i j
  | anonymous {i j : TypeId} {a b : Ty} : s.slot? i = some ⟨none, a⟩ →
      t.slot? j = some ⟨none, b⟩ → a.Matches (Alike s t) b → Alike s t i j

namespace Alike

variable {s s' t t' : TypeStore} {i i' j j' : TypeId}

theorem has_left (h : Alike s t i j) : s.Has i := by
  cases h with
  | named hi hj => exact ⟨_, body?_of_slot? hi⟩
  | anonymous hi hj _ => exact ⟨_, body?_of_slot? hi⟩

theorem has_right (h : Alike s t i j) : t.Has j := by
  cases h with
  | named hi hj => exact ⟨_, body?_of_slot? hj⟩
  | anonymous hi hj _ => exact ⟨_, body?_of_slot? hj⟩

/-- By induction on the type: an anonymous type refers to earlier types only. -/
theorem induction {P : TypeId → TypeId → Prop} (hs : s.WF)
    (named : ∀ i j name a b, s.slot? i = some ⟨some name, a⟩ → t.slot? j = some ⟨some name, b⟩ →
      P i j)
    (anonymous : ∀ i j a b, s.slot? i = some ⟨none, a⟩ → t.slot? j = some ⟨none, b⟩ →
      a.Matches (fun i j => Alike s t i j ∧ P i j) b → P i j)
    (h : Alike s t i j) : P i j := by
  obtain ⟨n, hn⟩ : ∃ n, i.index < n := ⟨_, Nat.lt_succ_self _⟩
  induction n generalizing i j with
  | zero => exact absurd hn (Nat.not_lt_zero _)
  | succ n ih =>
    cases h with
    | named hi hj => exact named _ _ _ _ _ hi hj
    | @anonymous _ _ a b hi hj hm =>
      refine anonymous _ _ _ _ hi hj (hm.mono fun ref href j _ hij => ⟨hij, ih hij ?_⟩)
      have hlt := (hs.anonymous i a hi).2 ref href
      omega

theorem mono (hs : s.WF) (hle : s ≤ s') (hle' : t ≤ t') (h : Alike s t i j) : Alike s' t' i j := by
  refine h.induction hs (fun i j name a b hi hj => ?_) fun i j a b hi hj hm => ?_
  · exact .named (slot?_le hle hi) (slot?_le hle' hj)
  · exact .anonymous (slot?_le hle hi) (slot?_le hle' hj) (hm.mono fun _ _ _ _ h => h.2)

theorem symm (hs : s.WF) (h : Alike s t i j) : Alike t s j i := by
  refine h.induction (P := fun i j => Alike t s j i) hs (fun i j name a b hi hj => ?_)
    fun i j a b hi hj hm => ?_
  · exact .named hj hi
  · exact .anonymous hj hi (hm.flip.mono fun _ _ _ _ h => h.2)

theorem refl (hs : s.WF) (hi : s.Has i) : Alike s s i i := by
  obtain ⟨n, hn⟩ : ∃ n, i.index < n := ⟨_, Nat.lt_succ_self _⟩
  induction n generalizing i with
  | zero => exact absurd hn (Nat.not_lt_zero _)
  | succ n ih =>
    obtain ⟨body, hbody⟩ := hi
    obtain ⟨⟨name, a⟩, hslot, _⟩ := slot?_of_body? hbody
    cases name with
    | some name => exact .named hslot hslot
    | none =>
      refine .anonymous hslot hslot (.refl fun ref href => ?_)
      have hlt := (hs.anonymous i a hslot).2 ref href
      have hsize : ref.index < s.slots.size := Nat.lt_trans hlt (index_lt hslot)
      have hget : s.slot? ref = some s.slots[ref.index] := Array.getElem?_eq_getElem hsize
      exact ih ⟨_, body?_of_slot? hget⟩ (by omega)

theorem unique (hs : s.WF) (ht : t.WF) (h : Alike s t i j) (h' : Alike s t i j') : j = j' := by
  refine h.induction (P := fun i j => ∀ j', Alike s t i j' → j = j') hs ?_ ?_ j' h'
  · intro i j name a b hi hj j' h'
    cases h' with
    | named hi' hj' =>
      rw [hi] at hi'
      cases hi'
      exact Option.some.inj ((ht.looked _ _ _ hj).symm.trans (ht.looked _ _ _ hj'))
    | anonymous hi' =>
      rw [hi] at hi'
      cases hi'
  · intro i j a b hi hj hm j' h'
    cases h' with
    | named hi' =>
      rw [hi] at hi'
      cases hi'
    | anonymous hi' hj' hm' =>
      rw [hi] at hi'
      cases hi'
      obtain rfl := hm.unique hm' fun i _ j j' h h' => h.2 j' h'
      exact Option.some.inj ((ht.interned _ _ hj).symm.trans (ht.interned _ _ hj'))

theorem eq_iff (hs : s.WF) (ht : t.WF) (h : Alike s t i j) (h' : Alike s t i' j') :
    i = i' ↔ j = j' := by
  constructor
  · rintro rfl
    exact unique hs ht h h'
  · rintro rfl
    exact unique ht hs (h.symm hs) (h'.symm hs)

end Alike

section

variable {s t : TypeStore} {i j : TypeId} {a b : Ty}

theorem Alike.ref?_eq (hs : s.WF) (ht : t.WF) (h : Alike s t i j) : s.ref? i = t.ref? j := by
  refine h.induction (P := fun i j => s.ref? i = t.ref? j) hs (fun i j name a b hi hj => ?_)
    fun i j a b hi hj hm => ?_
  · rw [ref?_of_named hi, ref?_of_named hj]
  · rw [ref?_of_anonymous hi, ref?_of_anonymous hj, hs.founded.definition?_eq,
      ht.founded.definition?_eq, body?_of_slot? hi, body?_of_slot? hj]
    exact (hm.mono fun _ _ _ _ h => h.2).text?_eq

theorem definition?_eq {name name' : Option String} (hs : s.WF) (ht : t.WF)
    (hi : s.slot? i = some ⟨name, a⟩) (hj : t.slot? j = some ⟨name', b⟩)
    (hm : a.Matches (Alike s t) b) : s.definition? i = t.definition? j := by
  rw [hs.founded.definition?_eq, ht.founded.definition?_eq, body?_of_slot? hi, body?_of_slot? hj]
  exact (hm.mono fun _ _ _ _ h => h.ref?_eq hs ht).text?_eq

end

end TypeStore

end Ir
end Midend
