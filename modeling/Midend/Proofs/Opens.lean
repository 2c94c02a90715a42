import Midend.Proofs.Ends

/-!
# Midend.Proofs.Opens

The open blocks of a statement that is being lowered. A statement makes blocks before it fills them,
so that several are open at once. `Opens g g' ends blanks` says which: those that were waiting at
`g`, the ends of what was lowered since, and the blocks that are still blank, each once. When there
is nothing left but the cursor's, the statement is complete (`Opens.toStep`).
-/

namespace Midend

open Ir

variable {ctx : FnContext} {c : BlockId} {g g' g₁ g₂ : Draft ctx}

namespace Draft

structure Opens (g g' : Draft ctx) (ends blanks : List BlockId) : Prop
    extends Since g.cur g g' where
  moved : g'.cur = g.cur ∨ g.size ≤ g'.cur.index
  opened : ∀ i, g'.Open i ↔ g.Waiting i ∨ i ∈ ends ++ blanks
  nodup : (ends ++ blanks).Nodup
  fresh : ∀ i ∈ ends ++ blanks, i = g.cur ∨ g.size ≤ i.index
  blank : ∀ k ∈ blanks, g'.Blank k

theorem not_waiting {i : BlockId} (h : i = g.cur ∨ g.size ≤ i.index) : ¬ g.Waiting i := by
  intro hi
  rcases h with rfl | h
  · exact hi.2 rfl
  · exact absurd hi.lt_size (Nat.not_lt.mpr h)

namespace Opens

variable {ends blanks : List BlockId} {last : Option BlockId} {i k : BlockId}

theorem start (h : g.IsEnd last) : Opens g g last.toList [] where
  toSince := .refl g.cur g
  moved := .inl rfl
  opened i := by
    rw [List.append_nil]
    exact h.open_iff i
  nodup := by
    cases last <;> simp
  fresh i hi := by
    rcases h with ⟨_, rfl⟩ | ⟨_, rfl⟩
    · exact .inl (by simpa using hi)
    · simp at hi
  blank k hk := by simp at hk

theorem mem_open (h : Opens g g' ends blanks) (hi : i ∈ ends ++ blanks) : g'.Open i :=
  (h.opened i).mpr (.inr hi)

theorem perm {ends' blanks' : List BlockId} (h : Opens g g' ends blanks) (he : ends.Perm ends')
    (hb : blanks.Perm blanks') : Opens g g' ends' blanks' where
  toSince := h.toSince
  moved := h.moved
  opened i := by rw [h.opened i, (he.append hb).mem_iff]
  nodup := (he.append hb).nodup_iff.mp h.nodup
  fresh i hi := h.fresh i ((he.append hb).mem_iff.mpr hi)
  blank k hk := h.blank k (hb.mem_iff.mpr hk)

theorem addTarget (h : Opens g g' ends blanks) : Opens g g'.addTarget ends (g'.next :: blanks) := by
  have hperm : (ends ++ g'.next :: blanks).Perm (g'.next :: (ends ++ blanks)) := List.perm_middle
  refine ⟨h.toSince.trans (since_addTarget g.cur g') (.inl rfl), h.moved, fun i => ?_, ?_,
    fun i hi => ?_, fun k hk => ?_⟩
  · rw [open_addTarget, h.opened, hperm.mem_iff, List.mem_cons]
    exact or_left_comm
  · refine hperm.nodup_iff.mpr (List.nodup_cons.mpr ⟨fun hmem => ?_, h.nodup⟩)
    exact g'.not_open_next (h.mem_open hmem)
  · rcases List.mem_cons.mp (hperm.mem_iff.mp hi) with rfl | hi
    · exact .inr h.size
    · exact h.fresh i hi
  · rcases List.mem_cons.mp hk with rfl | hk
    · exact g'.blank_addTarget
    · refine (h.blank k hk).since (since_addTarget g'.next g') ?_
      rintro rfl
      exact g'.not_open_next (h.blank _ hk).opened

theorem enter (h : Opens g g' ends blanks) {rest : List BlockId} (hk : blanks.Perm (k :: rest))
    (hlt : k.index < g'.size) : Opens g (g'.moveTo k hlt) (k :: ends) rest := by
  have hperm : (ends ++ blanks).Perm (k :: ends ++ rest) :=
    (hk.append_left ends).trans List.perm_middle
  refine ⟨h.toSince.trans (Since.moveTo g.cur) (.inl rfl), ?_, fun i => ?_,
    hperm.nodup_iff.mp h.nodup, fun i hi => h.fresh i (hperm.mem_iff.mpr hi), fun k' hk' => ?_⟩
  · exact h.fresh k (hperm.mem_iff.mpr (by simp))
  · rw [← hperm.mem_iff]
    exact h.opened i
  · have hblank := h.blank k' (hk.mem_iff.mpr (List.mem_cons_of_mem _ hk'))
    exact ⟨⟨hblank.lt, hblank.sight, hblank.phiFree⟩, hblank.blank⟩

theorem close (h : Opens g g' (i :: ends) blanks) {t : Terminator} {hc : g'.Closes i t} :
    Opens g (g'.close i t hc) ends blanks := by
  have hnodup := List.nodup_cons.mp h.nodup
  have hi := h.fresh i (by simp)
  refine ⟨h.toSince.trans Since.close hi, h.moved, fun j => ?_, hnodup.2,
    fun j hj => h.fresh j (List.mem_cons_of_mem _ hj), fun k hk => ?_⟩
  · rw [open_close, h.opened, List.cons_append, List.mem_cons]
    have hwaiting : g.Waiting j → j ≠ i := by
      rintro hj rfl
      exact not_waiting hi hj
    have hmem : j ∈ ends ++ blanks → j ≠ i := by
      rintro hj rfl
      exact hnodup.1 hj
    tauto
  · refine (h.blank k hk).since Since.close ?_
    rintro rfl
    exact hnodup.1 (List.mem_append_right _ hk)

theorem waiting_iff (h : Opens g g' (last.toList ++ ends) blanks) (hend : g'.IsEnd last)
    (i : BlockId) : g'.Waiting i ↔ g.Waiting i ∨ i ∈ ends ++ blanks := by
  have hopened := h.opened i
  have hnodup := h.nodup
  rw [List.append_assoc] at hopened hnodup
  constructor
  · rintro ⟨hopen, hne⟩
    rcases hopened.mp hopen with hwait | hmem
    · exact .inl hwait
    · rcases List.mem_append.mp hmem with hlast | hmem
      · exact absurd (hend.eq_cur hlast) hne
      · exact .inr hmem
  · rintro (hwait | hmem)
    · refine ⟨hopened.mpr (.inl hwait), ?_⟩
      rintro rfl
      exact not_waiting h.moved hwait
    · have hopen := hopened.mpr (.inr (List.mem_append_right _ hmem))
      refine ⟨hopen, ?_⟩
      rintro rfl
      rcases hend with ⟨_, rfl⟩ | ⟨hsealed, rfl⟩
      · exact (List.nodup_cons.mp hnodup).1 hmem
      · exact hsealed hopen

/-- A statement is lowered at the cursor, and leaves an end if control can fall through it. -/
theorem step (h : Opens g g' (last.toList ++ ends) blanks) (hend : g'.IsEnd last)
    (hs : g'.Step g₁) {last₁ : Option BlockId} (hend₁ : g₁.IsEnd last₁) :
    Opens g g₁ (last₁.toList ++ ends) blanks := by
  have hrest : ∀ i ∈ ends ++ blanks, g'.Waiting i :=
    fun i hi => (h.waiting_iff hend i).mpr (.inr hi)
  have hmoved : g₁.cur = g.cur ∨ g.size ≤ g₁.cur.index := by
    rcases hs.moved with heq | hge
    · rw [heq]
      exact h.moved
    · exact .inr (Nat.le_trans h.size hge)
  have hnodup := h.nodup
  rw [List.append_assoc] at hnodup
  refine ⟨h.toSince.trans hs.toSince h.moved, hmoved, fun i => ?_, ?_, fun i hi => ?_,
    fun k hk => (h.blank k hk).since hs.toSince (hrest k (List.mem_append_right _ hk)).2⟩
  · rw [hend₁.open_iff, hs.waiting, h.waiting_iff hend, List.append_assoc,
      List.mem_append (s := last₁.toList), or_assoc, or_comm (a := i ∈ ends ++ blanks)]
  · rw [List.append_assoc]
    refine List.nodup_append.mpr ⟨by cases last₁ <;> simp, (List.nodup_append.mp hnodup).2.1, ?_⟩
    rintro i hi j hj rfl
    obtain rfl := hend₁.eq_cur hi
    exact ((hs.waiting _).mpr (hrest _ hj)).2 rfl
  · rw [List.append_assoc] at hi
    rcases List.mem_append.mp hi with hi | hi
    · obtain rfl := hend₁.eq_cur hi
      exact hmoved
    · exact h.fresh i (by rw [List.append_assoc]; exact List.mem_append_right _ hi)

/-- With nothing left but the cursor's block, the statement is complete. -/
theorem toStep (h : Opens g g' last.toList []) (hend : g'.IsEnd last) : g.Step g' where
  toSince := h.toSince
  waiting i := by
    have h' : Opens g g' (last.toList ++ []) [] := by rwa [List.append_nil]
    rw [h'.waiting_iff hend]
    simp
  moved := h.moved

end Opens

/-- Blocks have been made, and nothing else has been done. -/
structure Prepared (g g' : Draft ctx) (last : Option BlockId) (blanks : List BlockId) : Prop
    extends Opens g g' last.toList blanks where
  isEnd : g'.IsEnd last
  cur : g'.cur = g.cur
  same : g'.builder.block? g.cur = g.builder.block? g.cur
  wires : ∀ m, Wires m g g' noEdge
  new : ∀ k ∈ blanks, g.size ≤ k.index

theorem Prepared.addTarget {last : Option BlockId} {blanks : List BlockId}
    (h : Prepared g g' last blanks) : Prepared g g'.addTarget last (g'.next :: blanks) where
  toOpens := h.toOpens.addTarget
  isEnd := h.isEnd.addTarget
  cur := h.cur
  same := by
    rw [(since_addTarget g'.next g').kept g.cur (h.cur ▸ g'.inRange) (h.cur ▸ g'.cur_ne_next)]
    exact h.same
  wires m := (h.wires m).noEdge_trans .addBlock
  new k hk := by
    rcases List.mem_cons.mp hk with rfl | hk
    · exact h.size
    · exact h.new k hk

theorem Prepared.open_cur_iff {last : Option BlockId} {blanks : List BlockId}
    (h : Prepared g g' last blanks) : g'.Open g'.cur ↔ g.Open g.cur := by
  rw [h.cur]
  show (∃ blk, g'.builder.block? g.cur = some blk ∧ _) ↔
    ∃ blk, g.builder.block? g.cur = some blk ∧ _
  rw [h.same]

theorem Prepared.live_iff {last : Option BlockId} {blanks : List BlockId}
    (h : Prepared g g' last blanks) (f : Builder) (n : Nat) : g'.Live f n ↔ g.Live f n := by
  rw [Live, Live, h.open_cur_iff, h.cur]

def endsOf (lasts : List (Option BlockId)) : List BlockId := lasts.flatMap Option.toList

@[simp] theorem endsOf_nil : endsOf [] = [] := rfl

@[simp] theorem endsOf_cons (last : Option BlockId) (lasts : List (Option BlockId)) :
    endsOf (last :: lasts) = last.toList ++ endsOf lasts := List.flatMap_cons

/-- Control goes on at `k` from each of the blocks; nothing else is new. -/
structure Joined (g f : Draft ctx) (k : BlockId) (ends : List BlockId) : Prop
    extends Le g f where
  cur : f.cur = g.cur
  seals : ∀ i ∈ ends, Seals g f i (.br k)
  kept : ∀ i, i ∉ ends → f.builder.block? i = g.builder.block? i
  wires : ∀ m, Wires m g f fun i j => i ∈ ends ∧ j = k

theorem Joined.seals_back {f : Draft ctx} {i k : BlockId} {ends : List BlockId}
    (h : Joined g.addTarget f k ends) (hi : i ∈ ends) (hopen : g.Open i) :
    Seals g f i (.br k) := by
  refine (h.seals i hi).back ((since_addTarget g.next g).kept i hopen.lt_size ?_)
  rintro rfl
  exact g.not_open_next hopen

theorem run_joinAt {follow : BlockId} (lasts : List (Option BlockId)) {blanks : List BlockId}
    (h : Opens g g' (endsOf lasts) blanks) (hk : g'.Target follow) :
    ∃ f, runOn (Lower.joinAt follow lasts) g'.toFnState = (.ok (), f.toFnState) ∧
      Opens g f [] blanks ∧ Joined g' f follow (endsOf lasts) := by
  induction lasts generalizing g' with
  | nil =>
    refine ⟨g', rfl, h, ⟨.refl g', rfl, fun i hi => ?_, fun _ _ => rfl,
      fun m => (Wires.refl g').congr fun i j _ => ?_⟩⟩
    · simp at hi
    · simp
  | cons last rest ih =>
    cases last with
    | none => exact ih h hk
    | some last =>
      rw [endsOf_cons, Option.toList_some, List.singleton_append] at h ⊢
      have hcloses : g'.Closes last (.br follow) := .br (h.mem_open (by simp)) hk
      have hclosed : Opens g (g'.close last _ hcloses) (endsOf rest) blanks := h.close
      obtain ⟨f, hrun, hopens, hjoined⟩ := ih hclosed (hk.of_le Since.close.toLe)
      have hnotin : last ∉ endsOf rest := fun hmem =>
        (List.nodup_cons.mp h.nodup).1 (List.mem_append_left _ hmem)
      refine ⟨f, ?_, hopens, ⟨Since.close.toLe.trans hjoined.toLe, hjoined.cur, fun i hi => ?_,
        fun i hi => ?_, fun m => ?_⟩⟩
      · rw [Lower.joinAt, runOn_bind_ok (g'.run_terminateBlock hcloses)]
        exact hrun
      · rcases List.mem_cons.mp hi with rfl | hrest
        · exact seals_close.mono hjoined.builder
        · refine (hjoined.seals i hrest).back (Since.close.kept i (h.mem_open ?_).lt_size ?_)
          · exact List.mem_append_left _ hi
          · rintro rfl
            exact hnotin hrest
      · rw [List.mem_cons, not_or] at hi
        rw [hjoined.kept i hi.2]
        show (g'.builder.closed last (.br follow)).block? i = _
        rw [Builder.block?_closed, if_neg (Ne.symm hi.1)]
      · have hclose : Wires m g' (g'.close last _ hcloses) fun i j =>
            i = last ∧ j ∈ (Terminator.br follow).successors := .close (by simp)
        refine (hclose.trans (hjoined.wires m)).congr fun i j _ => ?_
        simp [Terminator.successors, or_and_right]

end Draft

end Midend
