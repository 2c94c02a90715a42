import Mathlib.Data.List.Nodup
import Mathlib.Data.List.Perm.Subperm
import Mathlib.Logic.Relation
import Midend.Proofs.Store

/-!
# Midend.Proofs.Contains

What it takes to write a type. A store contains a type if the type has a slot, and so have the types
that its text is made of. No such type is made of itself, so that the number of slots is fuel enough
(`ref?_isSome_iff`).
-/

namespace Midend.Ir.TypeStore

open Relation

/-- The type can be written down to named types, whose own bodies are left out. -/
inductive Contains (s : TypeStore) : TypeId → Prop where
  | named {id : TypeId} {name : String} {body : Ty} :
      s.slot? id = some ⟨some name, body⟩ → Contains s id
  | anonymous {id : TypeId} {body : Ty} : s.slot? id = some ⟨none, body⟩ →
      (∀ ref ∈ body.refs, Contains s ref) → Contains s id

/-- `ref` stands in the text of the anonymous type `id`. -/
def Part (s : TypeStore) (ref id : TypeId) : Prop :=
  ∃ body, s.slot? id = some ⟨none, body⟩ ∧ ref ∈ body.refs

variable {s : TypeStore} {id : TypeId}

theorem Contains.exists_slot (h : s.Contains id) : ∃ slot, s.slot? id = some slot := by
  cases h with
  | named hslot => exact ⟨_, hslot⟩
  | anonymous hslot _ => exact ⟨_, hslot⟩

theorem Contains.has (h : s.Contains id) : s.Has id := by
  obtain ⟨slot, hslot⟩ := h.exists_slot
  exact ⟨slot.body, body?_of_slot? hslot⟩

theorem Contains.not_part_of_self (h : s.Contains id) : ¬ TransGen (Part s) id id := by
  induction h with
  | named hslot =>
    intro hcycle
    obtain ⟨_, _, body, hother, _⟩ := TransGen.tail'_iff.mp hcycle
    rw [hslot] at hother
    cases hother
  | anonymous hslot _ ih =>
    intro hcycle
    obtain ⟨ref, hpath, body, hother, href⟩ := TransGen.tail'_iff.mp hcycle
    have hsame := hother
    rw [hslot] at hsame
    cases hsame
    exact ih ref href (.head' ⟨_, hother, href⟩ hpath)

theorem length_le_size {ids : List TypeId} (hnodup : ids.Nodup)
    (hslots : ∀ i ∈ ids, i.index < s.size) : ids.length ≤ s.size := by
  have hinj : ∀ i ∈ ids, ∀ j ∈ ids, i.index = j.index → i = j := by
    rintro ⟨i⟩ _ ⟨j⟩ _ rfl
    rfl
  have hsub : ids.map TypeId.index ⊆ List.range s.size := fun i hi => by
    obtain ⟨id, hid, rfl⟩ := List.mem_map.mp hi
    exact List.mem_range.mpr (hslots id hid)
  have hle := ((hnodup.map_on hinj).subperm hsub).length_le
  rwa [List.length_map, List.length_range] at hle

theorem Contains.nodup_cons (h : s.Contains id) {above : List TypeId} (hnodup : above.Nodup)
    (habove : ∀ a ∈ above, TransGen (Part s) id a) : (id :: above).Nodup :=
  List.nodup_cons.mpr ⟨fun hmem => h.not_part_of_self (habove id hmem), hnodup⟩

/-- The fuel lasts if it is one for each slot that is not above the type: `above` are anonymous
types that have it in their texts, which it is not among. -/
theorem Contains.refVia?_isSome {fuel : Nat} (h : s.Contains id) {above : List TypeId}
    (hnodup : above.Nodup) (habove : ∀ a ∈ above, TransGen (Part s) id a)
    (hslots : ∀ a ∈ above, a.index < s.size) (hfuel : s.size ≤ above.length + fuel) :
    (s.refVia? (s.bodyText? fuel) id).isSome := by
  induction fuel generalizing id above with
  | zero =>
    have hnodup := h.nodup_cons hnodup habove
    cases h with
    | named hslot => simp [refVia?, hslot]
    | anonymous hslot hrefs =>
      have hle := length_le_size hnodup (List.forall_mem_cons.mpr ⟨index_lt hslot, hslots⟩)
      rw [List.length_cons] at hle
      omega
  | succ fuel ih =>
    have hnodup := h.nodup_cons hnodup habove
    cases h with
    | named hslot => simp [refVia?, hslot]
    | anonymous hslot hrefs =>
      simp only [refVia?, hslot]
      refine (bodyText?_isSome_iff (body?_of_slot? hslot)).mpr fun ref href => ?_
      have hpart : Part s ref id := ⟨_, hslot, href⟩
      refine ih (hrefs ref href) hnodup
        (List.forall_mem_cons.mpr ⟨.single hpart, fun a ha => .head hpart (habove a ha)⟩)
        (List.forall_mem_cons.mpr ⟨index_lt hslot, hslots⟩) ?_
      rw [List.length_cons]
      omega

theorem contains_of_refVia?_isSome {fuel : Nat} (h : (s.refVia? (s.bodyText? fuel) id).isSome) :
    s.Contains id := by
  induction fuel generalizing id with
  | zero =>
    cases hslot : s.slot? id with
    | none => simp [refVia?, hslot] at h
    | some slot =>
      obtain ⟨name, body⟩ := slot
      cases name with
      | some name => exact .named hslot
      | none => simp [refVia?, hslot, bodyText?] at h
  | succ fuel ih =>
    cases hslot : s.slot? id with
    | none => simp [refVia?, hslot] at h
    | some slot =>
      obtain ⟨name, body⟩ := slot
      cases name with
      | some name => exact .named hslot
      | none =>
        simp only [refVia?, hslot] at h
        exact .anonymous hslot fun ref href =>
          ih ((bodyText?_isSome_iff (body?_of_slot? hslot)).mp h ref href)

theorem ref?_isSome_iff : (s.ref? id).isSome ↔ s.Contains id :=
  ⟨contains_of_refVia?_isSome, fun h =>
    h.refVia?_isSome .nil (by simp) (by simp) (by simp)⟩

end Midend.Ir.TypeStore
