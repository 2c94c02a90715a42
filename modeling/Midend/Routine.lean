/-!
# Midend.Routine

Routines that work in rounds until there is an answer. Less is left to do after every round, so the
rounds come to an end. Where a routine must not go round in circles, it keeps a list of what it has
seen, and `unseen` is what it has still to see.
-/

namespace Midend

/-- A round comes to an answer, or to a state in which less is left to do. -/
structure Routine (σ α : Type) where
  round : σ → α ⊕ σ
  left : σ → Nat
  descends : ∀ s s', round s = .inr s' → left s' < left s

namespace Routine

/-- The answer that the rounds from a state come to. -/
def run {σ α : Type} (r : Routine σ α) (s : σ) : α :=
  match _h : r.round s with
  | .inl a => a
  | .inr s' => r.run s'
termination_by r.left s
decreasing_by exact r.descends s s' _h

end Routine

def unseen {κ : Type} [DecidableEq κ] (keys seen : List κ) : Nat :=
  (keys.filter fun key => key ∉ seen).length

theorem unseen_nil {κ : Type} [DecidableEq κ] (keys : List κ) : unseen keys [] = keys.length := by
  rw [unseen, List.filter_eq_self.mpr]
  simp

theorem unseen_cons_lt {κ : Type} [DecidableEq κ] {keys seen : List κ} {key : κ}
    (hkey : key ∈ keys) (hnew : key ∉ seen) : unseen keys (key :: seen) < unseen keys seen := by
  have hfilter : (keys.filter fun k => k ∉ key :: seen) =
      (keys.filter fun k => k ∉ seen).filter fun k => k ≠ key := by
    rw [List.filter_filter]
    refine List.filter_congr fun k _ => ?_
    by_cases hk : k = key <;> simp [hk]
  rw [unseen, unseen, hfilter]
  exact List.length_filter_lt_length_iff_exists.mpr
    ⟨key, List.mem_filter.mpr ⟨hkey, by simpa using hnew⟩, by simp⟩

end Midend
