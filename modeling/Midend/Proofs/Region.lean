import Midend.Proofs.LifeCycle

/-!
# Midend.Proofs.Region

Code that is made at the cursor stays in a region of its own: the block under the cursor and the
blocks that are made meanwhile (`Builder.Own`). `Builder.Region` is for code on which work is still
under way, with the blocks of the region that may be open; `Builder.Confined` is for code that is
complete, where only the cursor's block may be. Nothing is assumed about the builder: it may hold
any code at all.
-/

namespace Midend
namespace Ir
namespace Builder

variable {b b' b₁ b₂ : Builder} {exits exits' live live' : List BlockId} {i j : BlockId}

/-- The block is the cursor's, or is made later. -/
def Own (b : Builder) (i : BlockId) : Prop := i = b.cursor ∨ b.size ≤ i.index

/-- What was done from `b` to `b'` was done to `b`'s own blocks. Of these, those in `live` may be
open; what was branched to is new, or one of `exits`. -/
structure Region (exits : List BlockId) (b b' : Builder) (live : List BlockId) : Prop where
  le : b.Le b'
  ids : ∀ i blk blk', b.block? i = some blk → b'.block? i = some blk' → blk'.id = blk.id
  made : ∀ i blk', b.size ≤ i.index → b'.block? i = some blk' → blk'.id = i
  kept : ∀ i, i.index < b.size → i ≠ b.cursor → b'.block? i = b.block? i
  opens : ∀ i, b.Own i → b'.Open i → i ∈ live
  own : ∀ i ∈ live, b.Own i
  edges : ∀ i j, b'.Edge i j → b.Edge i j ∨ (b.size ≤ j.index ∧ j.index < b'.size) ∨ j ∈ exits

/-- Complete code: only the block under the cursor may be open. -/
structure Confined (exits : List BlockId) (b b' : Builder) : Prop
    extends Region exits b b' [b'.cursor] where
  inRange : b'.cursor.index < b'.size

namespace Region

theorem refl (exits : List BlockId) (b : Builder) : Region exits b b [b.cursor] where
  le := .refl b
  ids i blk blk' h h' := by rw [h] at h'; cases h'; rfl
  made i blk' hge h := absurd (lt_size h) (Nat.not_lt.mpr hge)
  kept _ _ _ := rfl
  opens i hown hopen := by
    rcases hown with rfl | hge
    · simp
    · exact absurd hopen.lt_size (Nat.not_lt.mpr hge)
  own i hi := .inl (List.mem_singleton.mp hi)
  edges _ _ h := .inl h

theorem size (h : Region exits b b' live) : b.size ≤ b'.size := h.le.size

theorem open_iff (h : Region exits b b' live) (hi : i.index < b.size) (hc : i ≠ b.cursor) :
    b'.Open i ↔ b.Open i := by
  unfold Open
  rw [h.kept i hi hc]

theorem sealed (h : Region exits b b' live) (hi : i.index < b.size) (hs : ¬ b.Open i) :
    b'.block? i = b.block? i := by
  obtain ⟨blk, hblk⟩ := block?_of_lt hi
  cases ht : blk.terminator with
  | none => exact absurd ⟨blk, hblk, ht⟩ hs
  | some t => rw [hblk, h.le.sealed hblk ht]

theorem edge_iff (h : Region exits b b' live) (hj : j.index < b.size) (hx : j ∉ exits) :
    b'.Edge i j ↔ b.Edge i j := by
  refine ⟨fun hedge => ?_, h.le.edge⟩
  rcases h.edges i j hedge with hold | ⟨hnew, _⟩ | hexit
  · exact hold
  · exact absurd hj (Nat.not_lt.mpr hnew)
  · exact absurd hexit hx

theorem own_of_edge (h : Region exits b b' live) (hedge : b'.Edge i j) (hnew : ¬ b.Edge i j) :
    b.Own i ∧ (i.index < b.size → b.Open i) := by
  by_cases hi : i.index < b.size
  · by_cases hopen : b.Open i
    · refine ⟨.inl ?_, fun _ => hopen⟩
      by_contra hc
      exact hnew (by unfold Edge at hedge ⊢; rwa [h.kept i hi hc] at hedge)
    · exact absurd (by unfold Edge at hedge ⊢; rwa [h.sealed hi hopen] at hedge) hnew
  · exact ⟨.inr (Nat.not_lt.mp hi), fun hlt => absurd hlt hi⟩

theorem own_trans (h : Region exits b b₁ live) (hcur : b.Own b₁.cursor) (hi : b₁.Own i) :
    b.Own i := by
  rcases hi with rfl | hge
  · exact hcur
  · exact .inr (Nat.le_trans h.size hge)

/-- Code at the cursor, when `rest` are the other blocks that may be open. -/
theorem trans (h : Region exits b b₁ live) (hcur : b.Own b₁.cursor)
    (h' : Region exits' b₁ b₂ live') (rest : List BlockId)
    (hlive : ∀ i ∈ live, i ≠ b₁.cursor → i ∈ rest) (hrest : ∀ i ∈ rest, i ∈ live)
    (hexits : ∀ j ∈ exits', j ∈ exits ∨ (b.size ≤ j.index ∧ j.index < b₁.size)) :
    Region exits b b₂ (live' ++ rest) where
  le := h.le.trans h'.le
  ids i blk blk₂ hblk hblk₂ := by
    obtain ⟨blk₁, hblk₁, _⟩ := h.le.block i blk hblk
    exact (h'.ids i blk₁ blk₂ hblk₁ hblk₂).trans (h.ids i blk blk₁ hblk hblk₁)
  made i blk₂ hge hblk₂ := by
    by_cases hi : i.index < b₁.size
    · obtain ⟨blk₁, hblk₁⟩ := block?_of_lt hi
      exact (h'.ids i blk₁ blk₂ hblk₁ hblk₂).trans (h.made i blk₁ hge hblk₁)
    · exact h'.made i blk₂ (Nat.not_lt.mp hi) hblk₂
  kept i hi hc := by
    have hne : i ≠ b₁.cursor := by
      rintro rfl
      exact hcur.elim hc fun hge => absurd hi (Nat.not_lt.mpr hge)
    rw [h'.kept i (Nat.lt_of_lt_of_le hi h.size) hne, h.kept i hi hc]
  opens i hown hopen := by
    by_cases hown₁ : b₁.Own i
    · exact List.mem_append_left _ (h'.opens i hown₁ hopen)
    · obtain ⟨hc, hlt⟩ := not_or.mp hown₁
      have hopen₁ := (h'.open_iff (Nat.not_le.mp hlt) hc).mp hopen
      exact List.mem_append_right _ (hlive i (h.opens i hown hopen₁) hc)
  own i hi := by
    rcases List.mem_append.mp hi with hi | hi
    · exact h.own_trans hcur (h'.own i hi)
    · exact h.own i (hrest i hi)
  edges i j hedge := by
    have hsize := h.size
    have hsize' := h'.size
    rcases h'.edges i j hedge with hold | ⟨hge, hlt⟩ | hexit
    · rcases h.edges i j hold with hold | ⟨hge, hlt⟩ | hexit
      · exact .inl hold
      · exact .inr (.inl ⟨hge, Nat.lt_of_lt_of_le hlt hsize'⟩)
      · exact .inr (.inr hexit)
    · exact .inr (.inl ⟨Nat.le_trans hsize hge, hlt⟩)
    · rcases hexits j hexit with hexit | ⟨hge, hlt⟩
      · exact .inr (.inr hexit)
      · exact .inr (.inl ⟨hge, Nat.lt_of_lt_of_le hlt hsize'⟩)

theorem narrow (h : Region exits b b' live) (hl : ∀ i ∈ live, b'.Open i → i ∈ live')
    (hl' : ∀ i ∈ live', i ∈ live) : Region exits b b' live' where
  le := h.le
  ids := h.ids
  made := h.made
  kept := h.kept
  opens i hown hopen := hl i (h.opens i hown hopen) hopen
  own i hi := h.own i (hl' i hi)
  edges := h.edges

theorem withBlock (h : Region exits b b' live) :
    Region exits b b'.withBlock (⟨b'.size⟩ :: live) where
  le := h.le.trans (.withBlock b')
  ids i blk blk' hblk hblk' := by
    rcases block_withBlock_cases hblk' with ⟨hi, _⟩ | hold
    · have hlt := Nat.lt_of_lt_of_le (lt_size hblk) h.size
      exact absurd hi (Nat.ne_of_lt hlt)
    · exact h.ids i blk blk' hblk hold
  made i blk' hge hblk' := by
    rcases block_withBlock_cases hblk' with ⟨hi, rfl⟩ | hold
    · exact (index_inj hi).symm
    · exact h.made i blk' hge hold
  kept i hi hc := by
    rw [block?_withBlock, if_neg (Nat.ne_of_lt (Nat.lt_of_lt_of_le hi h.size)), h.kept i hi hc]
  opens i hown hopen := by
    rcases open_withBlock.mp hopen with hi | hopen
    · exact List.mem_cons.mpr (.inl (index_inj hi))
    · exact List.mem_cons_of_mem _ (h.opens i hown hopen)
  own i hi := by
    rcases List.mem_cons.mp hi with rfl | hi
    · exact .inr h.size
    · exact h.own i hi
  edges i j hedge := by
    refine (h.edges i j (edge_withBlock.mp hedge)).imp_right (Or.imp_left fun hj => ⟨hj.1, ?_⟩)
    rw [size_withBlock]
    exact Nat.lt_succ_of_lt hj.2

theorem moved (h : Region exits b b' live) (i : BlockId) : Region exits b (b'.moved i) live :=
  ⟨h.le.trans (.moved b' i), h.ids, h.made, h.kept, h.opens, h.own, h.edges⟩

theorem withLocal (h : Region exits b b' live) (type : TypeId) :
    Region exits b (b'.withLocal type) live :=
  ⟨h.le.trans (.withLocal b' type), h.ids, h.made, h.kept, h.opens, h.own, h.edges⟩

theorem emitted (h : Region exits b b' live) (hcur : b.Own b'.cursor) (hopen : b'.Open b'.cursor)
    (inst : Inst) : Region exits b (b'.emitted inst) live where
  le := h.le.trans (.emitted hopen inst)
  ids i blk blk' hblk hblk' := by
    rcases block_emitted_cases hblk' with ⟨_, old, hold, rfl⟩ | ⟨_, hold⟩
    · exact h.ids i blk old hblk hold
    · exact h.ids i blk blk' hblk hold
  made i blk' hge hblk' := by
    rcases block_emitted_cases hblk' with ⟨_, old, hold, rfl⟩ | ⟨_, hold⟩
    · exact h.made i old hge hold
    · exact h.made i blk' hge hold
  kept i hi hc := by
    have hne : b'.cursor ≠ i := by
      rintro rfl
      exact hcur.elim hc fun hge => absurd hi (Nat.not_lt.mpr hge)
    rw [block?_emitted, if_neg hne, h.kept i hi hc]
  opens i hown hopen := h.opens i hown (open_emitted.mp hopen)
  own := h.own
  edges i j hedge := by
    rw [size_emitted]
    exact h.edges i j (edge_emitted.mp hedge)

/-- An own block is sealed; `rest` are the others. -/
theorem closed (h : Region exits b b' live) {k : BlockId} (hopen : b'.Open k) (hk : b.Own k)
    {t : Terminator} (ht : ∀ j ∈ t.successors, (b.size ≤ j.index ∧ j.index < b'.size) ∨ j ∈ exits)
    (rest : List BlockId) (hlive : ∀ i ∈ live, i ≠ k → i ∈ rest) (hrest : ∀ i ∈ rest, i ∈ live) :
    Region exits b (b'.closed k t) rest where
  le := h.le.trans (.closed hopen t)
  ids i blk blk' hblk hblk' := by
    rcases block_closed_cases hblk' with ⟨_, old, hold, rfl⟩ | ⟨_, hold⟩
    · exact h.ids i blk old hblk hold
    · exact h.ids i blk blk' hblk hold
  made i blk' hge hblk' := by
    rcases block_closed_cases hblk' with ⟨_, old, hold, rfl⟩ | ⟨_, hold⟩
    · exact h.made i old hge hold
    · exact h.made i blk' hge hold
  kept i hi hc := by
    have hne : k ≠ i := by
      rintro rfl
      exact hk.elim hc fun hge => absurd hi (Nat.not_lt.mpr hge)
    rw [block?_closed, if_neg hne, h.kept i hi hc]
  opens i hown hopen := by
    obtain ⟨hne, hopen⟩ := open_closed.mp hopen
    exact hlive i (h.opens i hown hopen) hne
  own i hi := h.own i (hrest i hi)
  edges i j hedge := by
    rw [size_closed]
    rcases (edge_closed hopen).mp hedge with hold | ⟨_, hj⟩
    · exact h.edges i j hold
    · exact .inr (ht j hj)

end Region

namespace Confined

theorem refl (hc : b.cursor.index < b.size) : Confined exits b b := ⟨.refl exits b, hc⟩

theorem size (h : Confined exits b b') : b.size ≤ b'.size := h.toRegion.size

theorem moves (h : Confined exits b b') : b.Own b'.cursor := h.own b'.cursor (by simp)

theorem trans (h : Confined exits b b₁) (h' : Confined exits b₁ b₂) : Confined exits b b₂ where
  toRegion := by
    have hall := h.toRegion.trans h.moves h'.toRegion []
      (fun i hi hne => absurd (List.mem_singleton.mp hi) hne) (by simp) fun j hj => .inl hj
    rwa [List.append_nil] at hall
  inRange := h'.inRange

theorem weaken (h : Confined exits b b') (hsub : ∀ j ∈ exits, j ∈ exits') :
    Confined exits' b b' where
  toRegion :=
    { h.toRegion with
      edges := fun i j hedge => (h.edges i j hedge).imp_right (Or.imp_right (hsub j)) }
  inRange := h.inRange

theorem opened (hc : b.cursor.index < b.size) : Confined exits b b.opened := by
  by_cases h : b.Open b.cursor
  · rw [opened_of_open h]
    exact .refl hc
  · rw [opened_of_sealed hc h]
    refine ⟨((Region.refl exits b).withBlock.moved _).narrow ?_ (by simp [Builder.moved]), ?_⟩
    · intro i hi hopen
      rcases List.mem_cons.mp hi with rfl | hi
      · simp [Builder.moved]
      · obtain rfl : i = b.cursor := by simpa using hi
        rcases open_withBlock.mp hopen with hi | hopen
        · exact absurd hi (Nat.ne_of_lt hc)
        · exact absurd hopen h
    · show b.size < b.withBlock.size
      rw [size_withBlock]
      exact Nat.lt_succ_self _

theorem emitted (hopen : b.Open b.cursor) (inst : Inst) : Confined exits b (b.emitted inst) where
  toRegion := (Region.refl exits b).emitted (.inl rfl) hopen inst
  inRange := by
    rw [size_emitted]
    exact hopen.lt_size

theorem pushed (hopen : b.Open b.cursor) (type : TypeId) (operation : Operation) :
    Confined exits b (b.pushed type operation) where
  toRegion := ((Region.refl exits b).withLocal type).emitted (.inl rfl) hopen _
  inRange := by
    rw [Builder.pushed, size_emitted]
    exact hopen.lt_size

theorem closed (hopen : b.Open b.cursor) {t : Terminator}
    (ht : ∀ j ∈ t.successors, j ∈ exits) : Confined exits b (b.closed b.cursor t) where
  toRegion :=
    (Region.refl exits b).closed hopen (.inl rfl) (fun j hj => .inr (ht j hj)) _ (by simp)
      (fun i hi => hi)
  inRange := by
    rw [size_closed]
    exact hopen.lt_size

end Confined

end Builder
end Ir
end Midend
