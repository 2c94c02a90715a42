import Mathlib.Data.List.Perm.Basic

/-!
# Midend.Proofs.Lookup

Association lists with distinct keys: a key is found just with what is listed for it, in whatever
order.
-/

namespace Midend

variable {κ α : Type} [BEq κ] [LawfulBEq κ] {entries entries' : List (κ × α)}

theorem lookup_of_mem (hnodup : (entries.map Prod.fst).Nodup) {k : κ} {a : α}
    (h : (k, a) ∈ entries) : entries.lookup k = some a := by
  induction entries with
  | nil => cases h
  | cons entry rest ih =>
    obtain ⟨k', b⟩ := entry
    rw [List.map_cons, List.nodup_cons] at hnodup
    rcases List.mem_cons.mp h with heq | hrest
    · cases heq
      simp
    · have hne : (k == k') = false := by
        have : k ≠ k' := by
          rintro rfl
          exact hnodup.1 (List.mem_map.mpr ⟨_, hrest, rfl⟩)
        simpa using this
      rw [List.lookup_cons, hne]
      exact ih hnodup.2 hrest

theorem lookup_eq_some_iff_mem (hnodup : (entries.map Prod.fst).Nodup) {k : κ} {a : α} :
    entries.lookup k = some a ↔ (k, a) ∈ entries := by
  refine ⟨fun h => ?_, lookup_of_mem hnodup⟩
  obtain ⟨before, after, hsplit, _⟩ := List.lookup_eq_some_iff.mp h
  simp [hsplit]

theorem lookup_perm (hnodup : (entries.map Prod.fst).Nodup) (h : entries.Perm entries') (k : κ) :
    entries.lookup k = entries'.lookup k := by
  refine Option.ext fun a => ?_
  rw [lookup_eq_some_iff_mem hnodup, lookup_eq_some_iff_mem ((h.map Prod.fst).nodup_iff.mp hnodup)]
  exact h.mem_iff

end Midend
