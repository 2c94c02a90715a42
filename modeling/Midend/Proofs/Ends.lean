import Midend.Proofs.Reach
import Midend.Proofs.Spec

/-!
# Midend.Proofs.Ends

Where code begins and ends. A `Target` is a block that control may come to from anywhere: only the
parameters are in sight at its start. The cursor's block ends somewhere if it is open; a statement
opens a new one where it is not.
-/

namespace Midend

open Ir

variable {ctx : FnContext} {c : BlockId} {g g' g₁ g₂ : Draft ctx}

namespace Draft

structure Target (g : Draft ctx) (i : BlockId) : Prop where
  lt : i.index < g.size
  sight : ∀ id, g.sight i id → id.index < g.builder.params.length
  phiFree : g.builder.PhiFree i

/-- A target that has no code yet. -/
structure Blank (g : Draft ctx) (i : BlockId) : Prop extends Target g i where
  blank : g.builder.block? i = some (Block.fresh i)

theorem Target.of_le {i : BlockId} (h : g.Target i) (hs : g.Le g') : g'.Target i := by
  refine ⟨Nat.lt_of_lt_of_le h.lt hs.size, fun id hid => ?_, hs.phiFree i h.lt h.phiFree⟩
  rw [hs.builder.params]
  exact h.sight id ((hs.sight i id h.lt).mp hid)

theorem Blank.since {i : BlockId} (h : g.Blank i) (hs : Since c g g') (hi : i ≠ c) : g'.Blank i :=
  ⟨h.toTarget.of_le hs.toLe, (hs.kept i h.lt hi).trans h.blank⟩

theorem Blank.opened {i : BlockId} (h : g.Blank i) : g.Open i := ⟨_, h.blank, rfl⟩

theorem Blank.starts {i : BlockId} (h : g.Blank i) : (g.moveTo i h.lt).Starts := h.blank

def addTarget (g : Draft ctx) : Draft ctx :=
  g.addBlock (fun id => id.index < g.builder.params.length) fun _ h => h

def next (g : Draft ctx) : BlockId := ⟨g.size⟩

theorem run_createTarget (g : Draft ctx) :
    runOn (Lower.build Build.createBlock) g.toFnState = (.ok g.next, g.addTarget.toFnState) := rfl

theorem since_addTarget (c : BlockId) (g : Draft ctx) : Since c g g.addTarget :=
  Since.addBlock c

theorem blank_addTarget (g : Draft ctx) : g.addTarget.Blank g.next := by
  have hblank : g.addTarget.builder.block? g.next = some (Block.fresh g.next) := by
    have hsize : g.next.index = g.builder.size := rfl
    show g.builder.withBlock.block? g.next = _
    rw [Builder.block?_withBlock, if_pos hsize]
    rfl
  refine ⟨⟨Builder.lt_size hblank, fun id hid => ?_, fun blk hblk inst hinst => ?_⟩, hblank⟩
  · have hself : g.sight.with g.size (fun id => id.index < g.builder.params.length) g.next id := hid
    show id.index < g.builder.params.length
    simpa [Builder.Sight.with, next] using hself
  · rw [hblank] at hblk
    cases hblk
    simp [Block.fresh] at hinst

theorem open_addTarget (g : Draft ctx) (i : BlockId) :
    g.addTarget.Open i ↔ i = g.next ∨ g.Open i := by
  have hnext : i = g.next ↔ i.index = g.builder.size :=
    ⟨fun h => by rw [h]; rfl, fun h => Builder.index_inj h⟩
  rw [hnext]
  exact Builder.open_withBlock

theorem not_open_next (g : Draft ctx) : ¬ g.Open g.next :=
  fun h => absurd h.lt_size (Nat.lt_irrefl _)

theorem cur_ne_next (g : Draft ctx) : g.cur ≠ g.next := by
  intro heq
  have hlt : g.cur.index < g.size := g.inRange
  rw [heq] at hlt
  exact absurd hlt (Nat.lt_irrefl _)

theorem Target.inSight {i k : BlockId} (h : g.Target k) {id : LocalId} (hid : g.sight k id) :
    g.InSight i id := .inl (g.flow.params i id (h.sight id hid))

/-- What is promised at the start of the second block is kept at the end of the first. -/
structure Accepts (g : Draft ctx) (i k : BlockId) : Prop where
  lt : k.index < g.size
  sight : ∀ id, g.sight k id → g.InSight i id
  phiFree : g.builder.PhiFree k

theorem Target.accepts {k : BlockId} (h : g.Target k) (i : BlockId) : g.Accepts i k :=
  ⟨h.lt, fun _ hid => h.inSight hid, h.phiFree⟩

namespace Closes

variable {i k k' : BlockId} {v : Value}

theorem br (hopen : g.Open i) (hk : g.Target k) : g.Closes i (.br k) := by
  refine ⟨hopen, trivial, fun v hv => by simp [Terminator.operands] at hv, fun j hj => ?_⟩
  obtain rfl : j = k := by simpa [Terminator.successors] using hj
  exact ⟨hk.lt, fun _ hid => hk.inSight hid, hk.phiFree⟩

theorem condBr (hopen : g.Open i) (hbool : g.types.IsBool v.type)
    (hv : g.builder.ValueTyped g.types v) (hin : ∀ id, v.operand = .local id → g.InSight i id)
    (hk : g.Accepts i k) (hk' : g.Accepts i k') : g.Closes i (.condBr v k k') := by
  refine ⟨hopen, ⟨hbool, hv⟩, fun w hw => ?_, fun j hj => ?_⟩
  · obtain rfl : w = v := by simpa [Terminator.operands] using hw
    exact hin
  · have hj' : j = k ∨ j = k' := by simpa [Terminator.successors] using hj
    rcases hj' with rfl | rfl
    · exact ⟨hk.lt, hk.sight, hk.phiFree⟩
    · exact ⟨hk'.lt, hk'.sight, hk'.phiFree⟩

theorem unreachable (hopen : g.Open i) : g.Closes i .unreachable :=
  ⟨hopen, trivial, fun v hv => by simp [Terminator.operands] at hv,
    fun j hj => by simp [Terminator.successors] at hj⟩

theorem retVoid (hopen : g.Open i) (hvoid : g.types.IsVoid g.builder.ret) :
    g.Closes i (.ret none) :=
  ⟨hopen, hvoid, fun v hv => by simp [Terminator.operands] at hv,
    fun j hj => by simp [Terminator.successors] at hj⟩

theorem ret (hopen : g.Open g.cur) (hvoid : ¬ g.types.IsVoid g.builder.ret)
    (htype : v.type = g.builder.ret) (hv : g.Sees v) : g.Closes g.cur (.ret (some v)) := by
  refine ⟨hopen, ⟨hvoid, htype, hv.typed⟩, fun w hw => ?_,
    fun j hj => by simp [Terminator.successors] at hj⟩
  obtain rfl : w = v := by simpa [Terminator.operands] using hw
  exact hv.reach

end Closes

/-- Where control can fall off the end of the cursor's block, if it can. -/
def IsEnd (g : Draft ctx) (last : Option BlockId) : Prop :=
  (g.Open g.cur ∧ last = some g.cur) ∨ (¬ g.Open g.cur ∧ last = none)

theorem IsEnd.of_open (h : g.Open g.cur) : g.IsEnd (some g.cur) := .inl ⟨h, rfl⟩

theorem IsEnd.of_sealed (h : ¬ g.Open g.cur) : g.IsEnd none := .inr ⟨h, rfl⟩

theorem exists_isEnd (g : Draft ctx) : ∃ last, g.IsEnd last := by
  by_cases h : g.Open g.cur
  · exact ⟨_, .of_open h⟩
  · exact ⟨_, .of_sealed h⟩

theorem IsEnd.eq_cur {last : Option BlockId} (h : g.IsEnd last) {i : BlockId}
    (hi : i ∈ last.toList) : i = g.cur := by
  rcases h with ⟨_, rfl⟩ | ⟨_, rfl⟩
  · simpa using hi
  · simp at hi

theorem IsEnd.cur_mem {last : Option BlockId} (h : g.IsEnd last) (hopen : g.Open g.cur) :
    g.cur ∈ last.toList := by
  rcases h with ⟨_, rfl⟩ | ⟨hsealed, _⟩
  · simp
  · exact absurd hopen hsealed

theorem IsEnd.mem_iff {last : Option BlockId} (h : g.IsEnd last) {i : BlockId} :
    i ∈ last.toList ↔ g.Open g.cur ∧ i = g.cur := by
  rcases h with ⟨hopen, rfl⟩ | ⟨hsealed, rfl⟩
  · simp [hopen]
  · simp [hsealed]

theorem IsEnd.open_iff {last : Option BlockId} (h : g.IsEnd last) (i : BlockId) :
    g.Open i ↔ g.Waiting i ∨ i ∈ last.toList := by
  by_cases hi : i = g.cur
  · subst hi
    rcases h with ⟨hopen, rfl⟩ | ⟨hsealed, rfl⟩
    · simp [hopen]
    · simp [Waiting, hsealed]
  · rcases h with ⟨_, rfl⟩ | ⟨_, rfl⟩ <;> simp [Waiting, hi]

theorem IsEnd.addTarget {last : Option BlockId} (h : g.IsEnd last) : g.addTarget.IsEnd last := by
  have hcur : g.addTarget.Open g.cur ↔ g.Open g.cur := by
    rw [open_addTarget]
    exact or_iff_right g.cur_ne_next
  exact h.imp (fun h => ⟨hcur.mpr h.1, h.2⟩) fun h => ⟨fun hopen => h.1 (hcur.mp hopen), h.2⟩

theorem run_openEnd_isEnd (g : Draft ctx) :
    ∃ last, g.IsEnd last ∧ runOn Lower.openEnd g.toFnState = (.ok last, g.toFnState) := by
  by_cases h : g.Open g.cur
  · exact ⟨_, .of_open h, g.run_openEnd h⟩
  · exact ⟨_, .of_sealed h, g.run_openEnd_of_sealed h⟩

/-- The cursor is on an open block: the same one, if it was open. -/
structure Reopens (g g' : Draft ctx) : Prop extends Step g g' where
  opened : g'.Open g'.cur
  sees : ∀ v, g.Sees v → g'.Sees v
  same : g.Open g.cur → g' = g
  falls : Falls g g' True

theorem run_ensureOpen_reopens (g : Draft ctx) :
    ∃ g', g.Reopens g' ∧
      runOn (Lower.build Build.ensureOpen) g.toFnState = (.ok g'.cur, g'.toFnState) := by
  by_cases h : g.Open g.cur
  · exact ⟨g, ⟨.refl g, h, fun _ hv => hv, fun _ => rfl, .refl g⟩, g.run_ensureOpen h⟩
  · have hparams : ∀ id, id.index < g.builder.params.length → g.InSight g.cur id :=
      fun id hid => .inl (g.flow.params g.cur id hid)
    have hstep : g.Step ((g.addBlock _ hparams).moveTo ⟨g.size⟩ g.newest) := .afresh h
    refine ⟨_, ⟨hstep, ?_, fun v hv => ?_, fun hopen => absurd hopen h, .afresh h⟩,
      g.run_ensureOpen_of_sealed h hparams⟩
    · exact Builder.open_withBlock.mpr (.inl rfl)
    · refine ⟨hv.typed.mono hstep.types hstep.builder, fun id hid => .inl ?_⟩
      show g.sight.with g.size (fun id => g.InSight g.cur id) ⟨g.size⟩ id
      simpa [Builder.Sight.with] using hv.reach id hid

/-- The cursor's block has a terminator: the given one, if it was open. -/
structure Leaves (g g' : Draft ctx) (t : Terminator) : Prop extends Step g g' where
  sealed : ¬ g'.Open g'.cur
  seals : g.Open g.cur → Seals g g' g.cur t
  wires : t ≠ .unreachable → ∀ m, Wires m g g' fun i j =>
    (g.Open g.cur ∧ i = g.cur) ∧ j ∈ t.successors

theorem run_terminateIfOpen_leaves {t : Terminator} (h : g.Open g.cur → g.Closes g.cur t) :
    ∃ b g', g.Leaves g' t ∧
      runOn (Lower.build (Build.terminateIfOpen t)) g.toFnState = (.ok b, g'.toFnState) := by
  by_cases hopen : g.Open g.cur
  · refine ⟨true, g.close g.cur t (h hopen), ⟨.closeCur, fun hstill => ?_, fun _ => seals_close,
      fun ht m => (Wires.close ht).congr fun i j _ => ?_⟩, g.run_terminateIfOpen (h hopen)⟩
    · exact (open_close.mp hstill).1 rfl
    · simp [hopen]
  · refine ⟨false, g, ⟨.refl g, hopen, fun h => absurd h hopen,
      fun _ m => (Wires.refl g).congr fun i j _ => ?_⟩, g.run_terminateIfOpen_of_sealed hopen t⟩
    simp [hopen]

end Draft

variable {act : ∀ {V : Type}, Scene ctx V → Nat → Eval V (Outcome V)} {p : Prop}

theorem Draft.Reopens.performs (h : g.Reopens g₁) (hp : Performs g₁ g' act) :
    Performs g g' act := by
  intro herr hopen
  obtain rfl := h.same hopen
  exact hp herr hopen

theorem Draft.Reopens.renders (h : g.Reopens g₁) (hs : g₁.Le g') (hr : Renders g₁ g' act p) :
    Renders g g' act p where
  performs := h.performs hr.performs
  falls he := (h.falls.trans (hr.falls (h.toLe.errors_right hs he))).congr (and_iff_right trivial)

theorem Does.ensureOpen {α : Type} {k : BlockId → Lower α}
    (hk : ∀ g₁, g.Reopens g₁ → Does (k g₁.cur) g₁ fun _ g' => Renders g₁ g' act p) :
    Does (Lower.build Build.ensureOpen >>= k) g fun _ g' => Renders g g' act p := by
  obtain ⟨g₁, hreopens, hrun⟩ := g.run_ensureOpen_reopens
  exact Does.next hrun hreopens.toStep
    ((hk g₁ hreopens).mono fun _ _ hstep hr => hreopens.renders hstep.toLe hr)

end Midend
