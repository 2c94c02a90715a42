import Midend.Proofs.Region

/-!
# Midend.Proofs.Site

Work on several blocks at a time. A statement makes blocks, fills them one after the other, and
seals those that are open last. `Builder.Site` keeps the list of the own blocks that are open
meanwhile: every step of the work puts a block on the list or takes one off.
-/

namespace Midend
namespace Ir
namespace Builder

variable {b b' b₁ b₂ : Builder} {exits exits' live live' rest : List BlockId} {i j k : BlockId}
  {t : Terminator}

/-- The block under the cursor, if control can fall off its end. -/
def openEnd (b : Builder) : Option BlockId :=
  match b.cursorIsOpen with
  | .ok true => some b.cursor
  | _ => none

theorem openEnd_of_open (h : b.Open b.cursor) : b.openEnd = some b.cursor := by
  have hopen : b.cursorIsOpen = .ok true := isOpen_of_open h
  rw [openEnd, hopen]

theorem openEnd_of_sealed (hc : b.cursor.index < b.size) (h : ¬ b.Open b.cursor) :
    b.openEnd = none := by
  have hsealed : b.cursorIsOpen = .ok false := isOpen_of_sealed hc h
  rw [openEnd, hsealed]

theorem mem_openEnd (hc : b.cursor.index < b.size) :
    i ∈ b.openEnd.toList ↔ i = b.cursor ∧ b.Open i := by
  by_cases h : b.Open b.cursor
  · rw [openEnd_of_open h, Option.toList_some, List.mem_singleton]
    exact ⟨fun hi => ⟨hi, hi ▸ h⟩, And.left⟩
  · rw [openEnd_of_sealed hc h]
    refine ⟨by simp, ?_⟩
    rintro ⟨rfl, hopen⟩
    exact absurd hopen h

theorem nodup_openEnd (b : Builder) : b.openEnd.toList.Nodup := by
  cases b.openEnd <;> simp

def left (b : Builder) (t : Terminator) : Builder :=
  match b.cursorIsOpen with
  | .ok true => b.closed b.cursor t
  | _ => b

theorem left_of_open (h : b.Open b.cursor) : b.left t = b.closed b.cursor t := by
  have hopen : b.cursorIsOpen = .ok true := isOpen_of_open h
  rw [left, hopen]

theorem left_of_sealed (hc : b.cursor.index < b.size) (h : ¬ b.Open b.cursor) : b.left t = b := by
  have hsealed : b.cursorIsOpen = .ok false := isOpen_of_sealed hc h
  rw [left, hsealed]

@[simp] theorem size_left : (b.left t).size = b.size := by
  rw [left]
  split
  · exact size_closed b b.cursor t
  · rfl

@[simp] theorem ret_left : (b.left t).ret = b.ret := by
  rw [left]
  split <;> rfl

theorem edge_left (hc : b.cursor.index < b.size) :
    (b.left t).Edge i j ↔ b.Edge i j ∨ (i ∈ b.openEnd.toList ∧ j ∈ t.successors) := by
  by_cases h : b.Open b.cursor
  · rw [left_of_open h, edge_closed h, openEnd_of_open h, Option.toList_some, List.mem_singleton]
  · rw [left_of_sealed hc h, openEnd_of_sealed hc h]
    simp

/-- With control going on at `k` from each of the blocks. -/
def joined (b : Builder) (k : BlockId) (ends : List BlockId) : Builder :=
  ends.foldl (fun b i => b.closed i (.br k)) b

@[simp] theorem joined_nil : b.joined k [] = b := rfl

@[simp] theorem joined_cons {ends : List BlockId} :
    b.joined k (i :: ends) = (b.closed i (.br k)).joined k ends := rfl

@[simp] theorem size_joined {ends : List BlockId} : (b.joined k ends).size = b.size := by
  induction ends generalizing b with
  | nil => rfl
  | cons i ends ih => rw [joined_cons, ih, size_closed]

theorem edge_joined {ends : List BlockId} (hnodup : ends.Nodup) (hopen : ∀ i ∈ ends, b.Open i) :
    (b.joined k ends).Edge i j ↔ b.Edge i j ∨ (i ∈ ends ∧ j = k) := by
  induction ends generalizing b with
  | nil => simp
  | cons n ends ih =>
    obtain ⟨hn, hnodup⟩ := List.nodup_cons.mp hnodup
    have hrest : ∀ i ∈ ends, (b.closed n (.br k)).Open i := fun i hi =>
      open_closed.mpr ⟨fun heq => hn (heq ▸ hi), hopen i (List.mem_cons_of_mem _ hi)⟩
    rw [joined_cons, ih hnodup hrest, edge_closed (hopen n List.mem_cons_self)]
    simp only [Terminator.successors, List.mem_cons]
    tauto

theorem open_joined {ends : List BlockId} :
    (b.joined k ends).Open i ↔ i ∉ ends ∧ b.Open i := by
  induction ends generalizing b with
  | nil => simp
  | cons n ends ih =>
    rw [joined_cons, ih, open_closed, List.mem_cons]
    tauto

/-- With `n` more blocks. -/
def withBlocks (b : Builder) : Nat → Builder
  | 0 => b
  | n + 1 => (b.withBlock).withBlocks n

/-- The blocks that are made then. -/
def newBlocks (b : Builder) (n : Nat) : List BlockId := (List.range' b.size n).map BlockId.mk

theorem newBlocks_succ (n : Nat) :
    b.newBlocks (n + 1) = ⟨b.size⟩ :: b.withBlock.newBlocks n := by
  rw [newBlocks, newBlocks, List.range'_succ, size_withBlock, List.map_cons]

@[simp] theorem length_newBlocks (n : Nat) : (b.newBlocks n).length = n := by
  simp [newBlocks]

theorem exists_newBlocks_split (m n : Nat) : ∃ rest, rest.length = n ∧
    b.newBlocks (m + (n + 1)) = b.newBlocks m ++ ⟨b.size + m⟩ :: rest := by
  refine ⟨(List.range' (b.size + m + 1) n).map BlockId.mk, by simp, ?_⟩
  rw [newBlocks, newBlocks, ← List.map_cons, ← List.map_append, ← List.range'_succ,
    List.range'_append_1]

theorem mem_newBlocks {n : Nat} :
    i ∈ b.newBlocks n ↔ b.size ≤ i.index ∧ i.index < b.size + n := by
  simp only [newBlocks, List.mem_map, List.mem_range'_1]
  refine ⟨?_, fun h => ⟨i.index, h, rfl⟩⟩
  rintro ⟨x, hx, rfl⟩
  exact hx

theorem nodup_newBlocks (n : Nat) : (b.newBlocks n).Nodup :=
  List.Nodup.map (fun _ _ h => congrArg BlockId.index h) List.nodup_range'

@[simp] theorem size_withBlocks (n : Nat) : (b.withBlocks n).size = b.size + n := by
  induction n generalizing b with
  | zero => rfl
  | succ n ih =>
    rw [withBlocks, ih, size_withBlock]
    omega

@[simp] theorem cursor_withBlocks (n : Nat) : (b.withBlocks n).cursor = b.cursor := by
  induction n generalizing b with
  | zero => rfl
  | succ n ih => rw [withBlocks, ih]; rfl

@[simp] theorem ret_withBlocks (n : Nat) : (b.withBlocks n).ret = b.ret := by
  induction n generalizing b with
  | zero => rfl
  | succ n ih => rw [withBlocks, ih]; rfl

theorem edge_withBlocks {n : Nat} : (b.withBlocks n).Edge i j ↔ b.Edge i j := by
  induction n generalizing b with
  | zero => rfl
  | succ n ih => rw [withBlocks, ih, edge_withBlock]

theorem open_withBlocks {n : Nat} (h : b.Open i) : (b.withBlocks n).Open i := by
  induction n generalizing b with
  | zero => exact h
  | succ n ih => exact ih (open_withBlock.mpr (.inr h))

theorem openEnd_withBlocks (hc : b.cursor.index < b.size) (n : Nat) :
    (b.withBlocks n).openEnd = b.openEnd := by
  induction n generalizing b with
  | zero => rfl
  | succ n ih =>
    have hlt : b.withBlock.cursor.index < b.withBlock.size := by
      rw [size_withBlock]
      exact Nat.lt_succ_of_lt hc
    rw [withBlocks, ih hlt]
    by_cases h : b.Open b.cursor
    · rw [openEnd_of_open h, openEnd_of_open (open_withBlock.mpr (.inr h))]
      rfl
    · have hsealed : ¬ b.withBlock.Open b.withBlock.cursor := fun hopen =>
        (open_withBlock.mp hopen).elim (Nat.ne_of_lt hc) h
      rw [openEnd_of_sealed hc h, openEnd_of_sealed hlt hsealed]

/-! ## The site -/

/-- What was done from `b` to `b'` was done to `b`'s own blocks; `live` are those of them that are
open. -/
structure Site (exits : List BlockId) (b b' : Builder) (live : List BlockId) : Prop
    extends Region exits b b' live where
  nodup : live.Nodup
  opened : ∀ i ∈ live, b'.Open i

namespace Site

theorem start (exits : List BlockId) (hc : b.cursor.index < b.size) :
    Site exits b b b.openEnd.toList where
  toRegion := (Region.refl exits b).narrow
    (fun _ hi hopen => (mem_openEnd hc).mpr ⟨List.mem_singleton.mp hi, hopen⟩)
    (fun _ hi => List.mem_singleton.mpr ((mem_openEnd hc).mp hi).1)
  nodup := nodup_openEnd b
  opened _ hi := ((mem_openEnd hc).mp hi).2

theorem perm (h : Site exits b b' live) (hl : live.Perm live') : Site exits b b' live' where
  toRegion := h.toRegion.narrow (fun _ hi _ => hl.mem_iff.mp hi) fun _ hi => hl.mem_iff.mpr hi
  nodup := hl.nodup_iff.mp h.nodup
  opened i hi := h.opened i (hl.mem_iff.mpr hi)

theorem withBlock (h : Site exits b b' live) :
    Site exits b b'.withBlock (⟨b'.size⟩ :: live) where
  toRegion := h.toRegion.withBlock
  nodup := by
    refine List.nodup_cons.mpr ⟨fun hmem => ?_, h.nodup⟩
    exact absurd (h.opened _ hmem).lt_size (Nat.lt_irrefl _)
  opened i hi := by
    rcases List.mem_cons.mp hi with rfl | hi
    · exact open_withBlock.mpr (.inl rfl)
    · exact open_withBlock.mpr (.inr (h.opened i hi))

theorem withBlocks (h : Site exits b b' live) (n : Nat) :
    Site exits b (b'.withBlocks n) (b'.newBlocks n ++ live) := by
  induction n generalizing b' live with
  | zero => exact h
  | succ n ih =>
    refine (ih h.withBlock).perm ?_
    rw [newBlocks_succ, List.cons_append]
    exact List.perm_middle

theorem moved (h : Site exits b b' live) (i : BlockId) : Site exits b (b'.moved i) live :=
  ⟨h.toRegion.moved i, h.nodup, h.opened⟩

/-- One of the open blocks is entered and filled. -/
theorem part (h : Site exits b b₁ (k :: live)) (hm : Confined exits' (b₁.moved k) b₂)
    (hexits : ∀ j ∈ exits', j ∈ exits ∨ (b.size ≤ j.index ∧ j.index < b₁.size)) :
    Site exits b b₂ (b₂.openEnd.toList ++ live) := by
  obtain ⟨hk, hnodup⟩ := List.nodup_cons.mp h.nodup
  have hregion := (h.toRegion.moved k).trans (h.own k List.mem_cons_self) hm.toRegion live
    (fun i hi hne => (List.mem_cons.mp hi).resolve_left hne) (fun i hi => List.mem_cons_of_mem _ hi)
    hexits
  have hother : ∀ i ∈ live, i.index < (b₁.moved k).size ∧ i ≠ (b₁.moved k).cursor := fun i hi =>
    ⟨(h.opened i (List.mem_cons_of_mem _ hi)).lt_size, by rintro rfl; exact hk hi⟩
  refine ⟨hregion.narrow ?_ ?_, ?_, ?_⟩
  · intro i hi hopen
    refine (List.mem_append.mp hi).elim (fun hi => ?_) (List.mem_append_right _)
    exact List.mem_append_left _ ((mem_openEnd hm.inRange).mpr ⟨List.mem_singleton.mp hi, hopen⟩)
  · intro i hi
    refine (List.mem_append.mp hi).elim (fun hi => ?_) (List.mem_append_right _)
    exact List.mem_append_left _ (List.mem_singleton.mpr ((mem_openEnd hm.inRange).mp hi).1)
  · refine List.nodup_append.mpr ⟨nodup_openEnd b₂, hnodup, ?_⟩
    rintro i hi _ hmem rfl
    obtain ⟨rfl, -⟩ := (mem_openEnd hm.inRange).mp hi
    obtain ⟨hlt, hne⟩ := hother _ hmem
    exact hm.moves.elim hne fun hge => absurd hlt (Nat.not_lt.mpr hge)
  · intro i hi
    rcases List.mem_append.mp hi with hi | hi
    · exact ((mem_openEnd hm.inRange).mp hi).2
    · obtain ⟨hlt, hne⟩ := hother i hi
      exact (hm.open_iff hlt hne).mpr (h.opened i (List.mem_cons_of_mem _ hi))

theorem reopened (h : Site exits b b' (b'.openEnd.toList ++ live))
    (hc : b'.cursor.index < b'.size) : Site exits b b'.opened (b'.opened.cursor :: live) := by
  by_cases hopen : b'.Open b'.cursor
  · rw [openEnd_of_open hopen] at h
    rwa [opened_of_open hopen]
  · rw [openEnd_of_sealed hc hopen] at h
    rw [opened_of_sealed hc hopen]
    exact h.withBlock.moved _

theorem onward (h : Site exits b b₁ (b₁.cursor :: live)) (hm : Confined exits' b₁ b₂)
    (hexits : ∀ j ∈ exits', j ∈ exits ∨ (b.size ≤ j.index ∧ j.index < b₁.size)) :
    Site exits b b₂ (b₂.openEnd.toList ++ live) :=
  h.part (k := b₁.cursor) hm hexits

theorem closed (h : Site exits b b' (k :: live))
    (ht : ∀ j ∈ t.successors, (b.size ≤ j.index ∧ j.index < b'.size) ∨ j ∈ exits) :
    Site exits b (b'.closed k t) live := by
  obtain ⟨hk, hnodup⟩ := List.nodup_cons.mp h.nodup
  refine ⟨h.toRegion.closed (h.opened k List.mem_cons_self) (h.own k List.mem_cons_self) ht
    live (fun i hi hne => (List.mem_cons.mp hi).resolve_left hne)
    (fun i hi => List.mem_cons_of_mem _ hi), hnodup, fun i hi => ?_⟩
  exact open_closed.mpr ⟨fun heq => hk (heq ▸ hi), h.opened i (List.mem_cons_of_mem _ hi)⟩

theorem left (h : Site exits b b' (b'.openEnd.toList ++ live)) (hc : b'.cursor.index < b'.size)
    (ht : ∀ j ∈ t.successors, (b.size ≤ j.index ∧ j.index < b'.size) ∨ j ∈ exits) :
    Site exits b (b'.left t) live := by
  by_cases hopen : b'.Open b'.cursor
  · rw [left_of_open hopen]
    rw [openEnd_of_open hopen] at h
    exact h.closed ht
  · rw [left_of_sealed hc hopen]
    rwa [openEnd_of_sealed hc hopen] at h

/-- Control goes on at `k` from some of the open blocks. -/
theorem joined {ends : List BlockId} (h : Site exits b b' (ends ++ live))
    (hk : (b.size ≤ k.index ∧ k.index < b'.size) ∨ k ∈ exits) :
    Site exits b (b'.joined k ends) live := by
  induction ends generalizing b' with
  | nil => exact h
  | cons i ends ih =>
    have hclosed : Site exits b (b'.closed i (.br k)) (ends ++ live) :=
      h.closed fun j hj => (List.mem_singleton.mp hj) ▸ hk
    refine ih hclosed ?_
    rwa [size_closed]

theorem done (h : Site exits b b' [k]) : Confined exits b (b'.moved k) :=
  ⟨h.toRegion.moved k, (h.opened k List.mem_cons_self).lt_size⟩

end Site

end Builder
end Ir
end Midend
