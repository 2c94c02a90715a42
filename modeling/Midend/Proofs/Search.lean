import Mathlib.Logic.Relation
import Midend.Proofs.Machine
import Midend.Proofs.Routine

/-!
# Midend.Proofs.Search

The search for a block finds it exactly if control can get there (`isReachable_iff`), so where it
says no, a run of the code never comes (`Machine.reached_of_steps`). It ends whatever the blocks are
like: there may be circles, open blocks, and terminators that name blocks that do not exist
(`isReachable_exact`).
-/

namespace Midend
namespace Ir

namespace Builder

open Relation

variable {b : Builder} {i j target : BlockId} {s t : Search}

/-- Control can get to the block from the entry. -/
inductive Reached (b : Builder) : BlockId → Prop where
  | entry : Reached b ⟨0⟩
  | edge {i j : BlockId} : Reached b i → b.Edge i j → Reached b j

theorem reached_iff_path : b.Reached target ↔ ReflTransGen b.Edge ⟨0⟩ target := by
  constructor
  · intro h
    induction h with
    | entry => exact .refl
    | edge _ hedge ih => exact ih.tail hedge
  · intro h
    induction h with
    | refl => exact .entry
    | tail _ hedge ih => exact .edge ih hedge

/-- What the search for a block has dealt with or still has on its stack. There is nothing to do for
another block that does not exist. -/
def Search.Covers (b : Builder) (target : BlockId) (s : Search) (i : BlockId) : Prop :=
  i ∈ s.seen ∨ i ∈ s.stack ∨ (b.block? i = none ∧ i ≠ target)

/-- What every round of a search keeps: control can get to what is on the stack, the target was not
missed, and of a visited block no edge was left out. -/
structure Searching (b : Builder) (target : BlockId) (s : Search) : Prop where
  found : ∀ i ∈ s.stack, b.Reached i
  missed : target ∉ s.seen
  entry : s.Covers b target ⟨0⟩
  edges : ∀ i ∈ s.seen, ∀ j, b.Edge i j → s.Covers b target j

namespace Searching

theorem start (b : Builder) (target : BlockId) : b.Searching target ⟨[], [⟨0⟩]⟩ where
  found i hi := by
    obtain rfl : i = ⟨0⟩ := by simpa using hi
    exact .entry
  missed := List.not_mem_nil
  entry := .inr (.inl List.mem_cons_self)
  edges i hi := absurd hi List.not_mem_nil

theorem covers_next {seen stack : List BlockId}
    (h : (⟨seen, i :: stack⟩ : Search).Covers b target j) (hseen : ∀ k ∈ seen, k ∈ s.seen)
    (hstack : ∀ k ∈ stack, k ∈ s.stack) (hi : s.Covers b target i) : s.Covers b target j := by
  rcases h with h | h | h
  · exact .inl (hseen j h)
  · rcases List.mem_cons.mp h with rfl | h
    · exact hi
    · exact .inr (.inl (hstack j h))
  · exact .inr (.inr h)

theorem drop {seen stack : List BlockId} (h : b.Searching target ⟨seen, i :: stack⟩)
    (hi : i ∈ seen ∨ (b.block? i = none ∧ i ≠ target)) : b.Searching target ⟨seen, stack⟩ := by
  have hcovers : (⟨seen, stack⟩ : Search).Covers b target i := hi.imp_right .inr
  exact {
    found := fun j hj => h.found j (List.mem_cons_of_mem i hj)
    missed := h.missed
    entry := covers_next h.entry (fun _ hk => hk) (fun _ hk => hk) hcovers
    edges := fun j hj k hedge =>
      covers_next (h.edges j hj k hedge) (fun _ hk => hk) (fun _ hk => hk) hcovers }

theorem visit {seen stack : List BlockId} {blk : Block}
    (h : b.Searching target ⟨seen, i :: stack⟩) (hne : i ≠ target) (hblk : b.block? i = some blk) :
    b.Searching target ⟨i :: seen, blk.successors.reverse ++ stack⟩ := by
  have hseen : ∀ k ∈ seen, k ∈ i :: seen := fun k hk => List.mem_cons_of_mem i hk
  have hstack : ∀ k ∈ stack, k ∈ blk.successors.reverse ++ stack :=
    fun k hk => List.mem_append_right _ hk
  have hcovers : (⟨i :: seen, blk.successors.reverse ++ stack⟩ : Search).Covers b target i :=
    .inl List.mem_cons_self
  refine ⟨fun j hj => ?_, ?_, covers_next h.entry hseen hstack hcovers, fun j hj k hedge => ?_⟩
  · rcases List.mem_append.mp hj with hj | hj
    · exact .edge (h.found i List.mem_cons_self) ⟨blk, hblk, List.mem_reverse.mp hj⟩
    · exact h.found j (List.mem_cons_of_mem i hj)
  · exact fun hmem => (List.mem_cons.mp hmem).elim (fun heq => hne heq.symm) h.missed
  · rcases List.mem_cons.mp hj with rfl | hj
    · obtain ⟨blk', hblk', hk⟩ := hedge
      obtain rfl : blk = blk' := Option.some.inj (hblk.symm.trans hblk')
      exact .inr (.inl (List.mem_append_left _ (List.mem_reverse.mpr hk)))
    · exact covers_next (h.edges j hj k hedge) hseen hstack hcovers

theorem round (h : b.Searching target s) (hround : b.searchRound target s = .inr t) :
    b.Searching target t := by
  obtain ⟨seen, stack⟩ := s
  cases stack with
  | nil => cases hround
  | cons i stack =>
    rw [searchRound] at hround
    split at hround
    · cases hround
    · rename_i hne
      split at hround
      · rename_i hnone
        cases hround
        exact h.drop (.inr ⟨hnone, hne⟩)
      · rename_i blk hblk
        split at hround
        · rename_i hseen
          cases hround
          exact h.drop (.inl hseen)
        · cases hround
          exact h.visit hne hblk

/-- Where the stack is empty, control gets no further than to what was visited. -/
theorem not_reached {seen : List BlockId} (h : b.Searching target ⟨seen, []⟩) :
    ¬ b.Reached target := by
  have hcovers : ∀ i, b.Reached i → (⟨seen, []⟩ : Search).Covers b target i := by
    intro i hi
    induction hi with
    | entry => exact h.entry
    | edge _ hedge ih =>
      rcases ih with hseen | hstack | ⟨hnone, -⟩
      · exact h.edges _ hseen _ hedge
      · exact absurd hstack List.not_mem_nil
      · obtain ⟨blk, hblk, -⟩ := hedge
        cases hnone.symm.trans hblk
  intro hreached
  rcases hcovers target hreached with hseen | hstack | ⟨-, hne⟩
  · exact h.missed hseen
  · exact absurd hstack List.not_mem_nil
  · exact hne rfl

/-- The answer of the last round is right. -/
theorem answer {found : Bool} (h : b.Searching target s)
    (hround : b.searchRound target s = .inl found) : found = true ↔ b.Reached target := by
  obtain ⟨seen, stack⟩ := s
  cases stack with
  | nil =>
    cases hround
    simpa using h.not_reached
  | cons i stack =>
    rw [searchRound] at hround
    split at hround
    · rename_i heq
      cases hround
      simpa using heq ▸ h.found i List.mem_cons_self
    · split at hround
      · cases hround
      · split at hround <;> cases hround

end Searching

theorem isReachable_iff : b.isReachable target = true ↔ b.Reached target := by
  obtain ⟨s, hs, hanswer⟩ := Routine.answer_of_kept (r := b.search target)
    (P := b.Searching target) (fun _ _ hs hround => hs.round hround) (.start b target)
  exact hs.answer hanswer

theorem searchLeft_start (b : Builder) : b.searchLeft ⟨[], [⟨0⟩]⟩ = 2 * b.size + 1 := by
  simp [searchLeft, unseen_nil, ids, size, Nat.add_comm]

/-- The search ends after two rounds for each block and one more at most, and what it says is
whether a path leads from the entry to the block. -/
theorem isReachable_exact (b : Builder) (target : BlockId) :
    (∃ rounds s, rounds ≤ 2 * b.size + 1 ∧ (b.search target).Rounds rounds ⟨[], [⟨0⟩]⟩ s ∧
      b.searchRound target s = .inl (b.isReachable target)) ∧
    (b.isReachable target = true ↔ ReflTransGen b.Edge ⟨0⟩ target) := by
  refine ⟨?_, isReachable_iff.trans reached_iff_path⟩
  obtain ⟨rounds, s, hle, hrounds, hanswer⟩ := (b.search target).exists_rounds ⟨[], [⟨0⟩]⟩
  exact ⟨rounds, s, b.searchLeft_start ▸ hle, hrounds, hanswer⟩

/-- A circle with a way out of it to a block that does not exist. -/
example : let b : Builder := { start "f" ⟨0⟩ with blocks :=
      #[⟨⟨0⟩, [], some (.br ⟨1⟩)⟩, ⟨⟨1⟩, [], some (.condBr ⟨.const (.bool true), ⟨0⟩⟩ ⟨0⟩ ⟨7⟩)⟩,
        ⟨⟨2⟩, [], some (.br ⟨2⟩)⟩] }
    (b.isReachable ⟨1⟩, b.isReachable ⟨7⟩, b.isReachable ⟨2⟩) = (true, true, false) := by
  decide +kernel

theorem block?_of_finish {blk : Block} (h : b.finish.block? i = some blk) :
    b.block? i = some blk := by
  unfold Function.block? at h
  split at h
  · rename_i blk' hblk'
    split at h
    · cases h
      exact hblk'
    · cases h
  · cases h

end Builder

namespace Machine

variable {V : Type} {m : Machine V} {c c' : Point V} {b : Builder}

/-- A step stays in its block, or goes on to a successor. -/
theorem block_of_step (h : m.step c = .to c') :
    c'.block = c.block ∨
      ∃ blk, m.code.block? c.block = some blk ∧ c'.block ∈ blk.successors := by
  unfold step at h
  split at h
  · cases h
  · rename_i blk hblk
    split at h
    · unfold execute at h
      split at h
      · cases h
        exact .inl rfl
      · cases h
    · split at h
      · rename_i t ht
        refine .inr ⟨blk, hblk, ?_⟩
        unfold Block.successors
        rw [ht]
        cases t with
        | br k =>
          cases h
          simp [Terminator.successors, enter]
        | condBr cond k k' =>
          rw [leave] at h
          split at h
          · cases h
            show (if _ then k else k') ∈ [k, k']
            split <;> simp
          · cases h
        | ret v =>
          cases v with
          | none => cases h
          | some v =>
            rw [leave] at h
            split at h <;> cases h
        | unreachable => cases h
      · cases h

theorem reached_of_steps (hcode : m.code = b.finish) {n : Nat} (h : m.Steps n c c')
    (hc : b.Reached c.block) : b.Reached c'.block := by
  induction h with
  | refl => exact hc
  | @cons n c c₁ c₂ hstep _ ih =>
    refine ih ?_
    rcases block_of_step hstep with heq | ⟨blk, hblk, hmem⟩
    · rw [heq]
      exact hc
    · rw [hcode] at hblk
      exact .edge hc ⟨blk, Builder.block?_of_finish hblk, hmem⟩

end Machine

end Ir
end Midend
