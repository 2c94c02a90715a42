import Midend.Routine

/-!
# Midend.Proofs.Routine

Running a routine is going through its rounds (`run_of_answer`, `run_of_next`). The answer comes
after no more rounds than there was left to do (`exists_rounds`), and in a state that has whatever
every round keeps (`answer_of_kept`).
-/

namespace Midend.Routine

variable {σ α : Type} {r : Routine σ α} {s t u : σ} {a : α} {n : Nat}

theorem run_of_answer (h : r.round s = .inl a) : r.run s = a := by
  rw [run]
  split
  · rename_i b hb
    exact Sum.inl.inj (hb.symm.trans h)
  · rename_i t ht
    cases ht.symm.trans h

theorem run_of_next (h : r.round s = .inr t) : r.run s = r.run t := by
  rw [run]
  split
  · rename_i b hb
    cases hb.symm.trans h
  · rename_i u hu
    rw [Sum.inr.inj (hu.symm.trans h)]

/-- The second state comes so many rounds after the first. -/
inductive Rounds (r : Routine σ α) : Nat → σ → σ → Prop where
  | none {s : σ} : Rounds r 0 s s
  | next {n : Nat} {s t u : σ} : r.round s = .inr t → Rounds r n t u → Rounds r (n + 1) s u

theorem Rounds.left_le (h : r.Rounds n s t) : n + r.left t ≤ r.left s := by
  induction h with
  | none => omega
  | next hround _ ih =>
    have hlt := r.descends _ _ hround
    omega

theorem Rounds.kept {P : σ → Prop} (hkept : ∀ s t, P s → r.round s = .inr t → P t)
    (h : r.Rounds n s t) (hs : P s) : P t := by
  induction h with
  | none => exact hs
  | next hround _ ih => exact ih (hkept _ _ hs hround)

/-- The rounds come to the answer, and each does a part of what was left to do. -/
theorem exists_rounds (r : Routine σ α) (s : σ) :
    ∃ n t, n ≤ r.left s ∧ r.Rounds n s t ∧ r.round t = .inl (r.run s) := by
  have hall : ∀ left s, r.left s = left → ∃ n t, r.Rounds n s t ∧ r.round t = .inl (r.run s) := by
    intro left
    induction left using Nat.strongRecOn with
    | ind left ih =>
    rintro s rfl
    cases hround : r.round s with
    | inl a => exact ⟨0, s, .none, by rw [hround, run_of_answer hround]⟩
    | inr t =>
      obtain ⟨n, u, hrounds, hanswer⟩ := ih _ (r.descends s t hround) t rfl
      exact ⟨n + 1, u, .next hround hrounds, by rw [hanswer, run_of_next hround]⟩
  obtain ⟨n, t, hrounds, hanswer⟩ := hall _ s rfl
  exact ⟨n, t, Nat.le_of_add_right_le hrounds.left_le, hrounds, hanswer⟩

theorem answer_of_kept {P : σ → Prop} (hkept : ∀ s t, P s → r.round s = .inr t → P t) (hs : P s) :
    ∃ t, P t ∧ r.round t = .inl (r.run s) := by
  obtain ⟨n, t, -, hrounds, hanswer⟩ := r.exists_rounds s
  exact ⟨t, hrounds.kept hkept hs, hanswer⟩

end Midend.Routine
