import Midend.Proofs.Fall

/-!
# Midend.Proofs.Advance

How one draft of a function comes from another. `Le` is for any number of steps, and `Since c` for
steps that touch, of the blocks that were there before, at most `c`. `Step` is what a whole
statement comes to: besides, no block was opened or sealed in the end but the cursor's. `EvalStep`
is what an expression comes to: the cursor is still on an open block, sees what it saw before, no
old block was branched to, and control gets through.
-/

namespace Midend

open Ir

namespace Draft

variable {ctx : FnContext} {c d : BlockId} {g g' g₁ g₂ : Draft ctx}

/-- Types, errors and code are only added, and old blocks keep what they promise. -/
structure Le (g g' : Draft ctx) : Prop where
  types : g.types ≤ g'.types
  errors : Reporting g.errors g'.errors
  builder : g.builder.Le g'.builder
  sight : ∀ i id, i.index < g.size → (g'.sight i id ↔ g.sight i id)
  phiFree : ∀ i, i.index < g.size → g.builder.PhiFree i → g'.builder.PhiFree i

namespace Le

theorem refl (g : Draft ctx) : Le g g :=
  ⟨TypeStore.le_refl _, Reporting.refl _, Builder.Le.refl _, fun _ _ _ => Iff.rfl,
    fun _ _ h => h⟩

theorem size (h : Le g g') : g.size ≤ g'.size := h.builder.size

theorem trans (h₁ : Le g g₁) (h₂ : Le g₁ g₂) : Le g g₂ := by
  have hsize := h₁.size
  refine ⟨TypeStore.le_trans h₁.types h₂.types, h₁.errors.trans h₂.errors,
    h₁.builder.trans h₂.builder, fun i id hi => ?_, fun i hi hfree => ?_⟩
  · rw [h₂.sight i id (Nat.lt_of_lt_of_le hi hsize), h₁.sight i id hi]
  · exact h₂.phiFree i (Nat.lt_of_lt_of_le hi hsize) (h₁.phiFree i hi hfree)

/-- Where nothing was reported in the end, nothing was reported on the way. -/
theorem errors_left (h₁ : Le g g₁) (h₂ : Le g₁ g') (he : g'.errors = g.errors) :
    g₁.errors = g.errors :=
  (h₁.errors.isPrefix.eq_of_length_le (he ▸ h₂.errors.isPrefix.length_le)).symm

theorem errors_right (h₁ : Le g g₁) (h₂ : Le g₁ g') (he : g'.errors = g.errors) :
    g'.errors = g₁.errors := he.trans (errors_left h₁ h₂ he).symm

theorem errors_between (h₁ : Le g g₁) (h₂ : Le g₁ g₂) (h₃ : Le g₂ g')
    (he : g'.errors = g.errors) : g₂.errors = g₁.errors :=
  errors_left h₂ h₃ (errors_right h₁ (h₂.trans h₃) he)

theorem inSight (h : Le g g') {i : BlockId} (hi : i.index < g.size) {id : LocalId}
    (hin : g.InSight i id) : g'.InSight i id :=
  hin.mono h.builder (h.sight i id hi).mpr

end Le

theorem Sees.of_le {v : Value} (hv : g.Sees v) (h : Le g g') (hcur : g'.cur = g.cur) :
    g'.Sees v := by
  refine ⟨hv.typed.mono h.types h.builder, fun id hid => ?_⟩
  rw [hcur]
  exact h.inSight g.inRange (hv.reach id hid)

structure Since (c : BlockId) (g g' : Draft ctx) : Prop extends Le g g' where
  kept : ∀ i, i.index < g.size → i ≠ c → g'.builder.block? i = g.builder.block? i

namespace Since

theorem refl (c : BlockId) (g : Draft ctx) : Since c g g := ⟨.refl g, fun _ _ _ => rfl⟩

theorem size (h : Since c g g') : g.size ≤ g'.size := h.toLe.size

theorem trans (h₁ : Since c g g₁) (h₂ : Since d g₁ g₂) (hd : d = c ∨ g.size ≤ d.index) :
    Since c g g₂ := by
  refine ⟨h₁.toLe.trans h₂.toLe, fun i hi hc => ?_⟩
  have hne : i ≠ d := by
    rintro rfl
    rcases hd with rfl | hd
    · exact hc rfl
    · exact absurd hi (Nat.not_lt.mpr hd)
  rw [h₂.kept i (Nat.lt_of_lt_of_le hi h₁.size) hne, h₁.kept i hi hc]

/-- All that was touched is new. -/
theorem weaken (h : Since c g g') (hc : g.size ≤ c.index) : Since d g g' := by
  refine ⟨h.toLe, fun i hi _ => h.kept i hi ?_⟩
  rintro rfl
  exact absurd hi (Nat.not_lt.mpr hc)

theorem grow (c : BlockId) {types : TypeStore} (hle : g.types ≤ types) (hw : types.WF) :
    Since c g (g.grow types hle hw) :=
  { refl c g with types := hle }

theorem report (c : BlockId) {e : LowerError} (he : e.Plain) :
    Since c g (g.report e he.genuine) :=
  { refl c g with errors := .one _ he }

theorem addBlock (c : BlockId) {atStart : LocalId → Prop}
    {h : ∀ id, id.index < g.builder.params.length → atStart id} :
    Since c g (g.addBlock atStart h) := by
  refine ⟨⟨TypeStore.le_refl _, Reporting.refl _, Builder.Le.withBlock _, fun i id hi => ?_,
    fun i hi hfree blk hblk => ?_⟩, fun i hi _ => ?_⟩
  · show g.sight.with g.size atStart i id ↔ _
    simp [Builder.Sight.with, Nat.ne_of_lt hi]
  · rcases Builder.block_withBlock_cases hblk with ⟨hi', _⟩ | hold
    · exact absurd hi' (Nat.ne_of_lt hi)
    · exact hfree blk hold
  · show g.builder.withBlock.block? i = _
    rw [Builder.block?_withBlock, if_neg (Nat.ne_of_lt hi)]

theorem moveTo (c : BlockId) {i : BlockId} {hi : i.index < g.size} : Since c g (g.moveTo i hi) :=
  { refl c g with builder := Builder.Le.moved _ i }

theorem close {i : BlockId} {t : Terminator} {h : g.Closes i t} : Since i g (g.close i t h) := by
  refine ⟨⟨TypeStore.le_refl _, Reporting.refl _, Builder.Le.closed h.opened t,
    fun _ _ _ => Iff.rfl, fun j _ hfree blk hblk => ?_⟩, fun j _ hj => ?_⟩
  · rcases Builder.block_closed_cases hblk with ⟨_, old, hold, rfl⟩ | ⟨_, hold⟩
    · exact hfree old hold
    · exact hfree blk hold
  · show (g.builder.closed i t).block? j = _
    rw [Builder.block?_closed, if_neg (Ne.symm hj)]

theorem phiFree_emitted {b : Builder} {inst : Inst} (hphi : inst.operation.isPhi = false)
    {i : BlockId} (hfree : b.PhiFree i) : (b.emitted inst).PhiFree i := by
  intro blk hblk inst' hinst
  rcases Builder.block_emitted_cases hblk with ⟨_, old, hold, rfl⟩ | ⟨_, hold⟩
  · rcases List.mem_append.mp hinst with hinst | hinst
    · exact hfree old hold inst' hinst
    · obtain rfl : inst' = inst := by simpa using hinst
      exact hphi
  · exact hfree blk hold inst' hinst

theorem kept_emitted {b : Builder} {inst : Inst} {i : BlockId} (hi : i ≠ b.cursor) :
    (b.emitted inst).block? i = b.block? i := by
  rw [Builder.block?_emitted, if_neg (Ne.symm hi)]

theorem push {type : TypeId} {operation : Operation} {h : g.Emits type operation}
    {htype : g.types.Proper type} (hphi : operation.isPhi = false) :
    Since g.cur g (g.push type operation h htype) :=
  ⟨⟨TypeStore.le_refl _, Reporting.refl _, Builder.Le.pushed h.opened type operation,
    fun _ _ _ => Iff.rfl,
    fun _ _ hfree => phiFree_emitted (b := g.builder.withLocal type) hphi hfree⟩,
    fun _ _ hi => kept_emitted (b := g.builder.withLocal type) hi⟩

theorem emit {type : TypeId} {operation : Operation} {h : g.Emits type operation}
    {htype : g.types.IsVoid type} (hphi : operation.isPhi = false) :
    Since g.cur g (g.emit type operation h htype) :=
  ⟨⟨TypeStore.le_refl _, Reporting.refl _, Builder.Le.emitted h.opened _,
    fun _ _ _ => Iff.rfl, fun _ _ hfree => phiFree_emitted hphi hfree⟩,
    fun _ _ hi => kept_emitted hi⟩

theorem pushPhi (h : Since c g g₁) {type : TypeId} {operation : Operation}
    {he : g₁.Emits type operation} {htype : g₁.types.Proper type} (hnew : g.size ≤ g₁.cur.index) :
    Since c g (g₁.push type operation he htype) := by
  have hne : ∀ i : BlockId, i.index < g.size → i ≠ g₁.cur := by
    rintro i hi rfl
    exact absurd hi (Nat.not_lt.mpr hnew)
  have hkept : ∀ i : BlockId, i ≠ g₁.cur →
      (g₁.builder.pushed type operation).block? i = g₁.builder.block? i :=
    fun i hi => kept_emitted (b := g₁.builder.withLocal type) hi
  refine ⟨⟨h.types, h.errors, h.builder.trans (Builder.Le.pushed he.opened type operation),
    h.sight, fun i hi hfree blk hblk => ?_⟩, fun i hi hc => ?_⟩
  · have hold := (hkept i (hne i hi)).symm.trans hblk
    exact h.phiFree i hi hfree blk hold
  · exact (hkept i (hne i hi)).trans (h.kept i hi hc)

theorem open_iff (h : Since c g g') {i : BlockId} (hi : i.index < g.size) (hc : i ≠ c) :
    g'.Open i ↔ g.Open i := by
  show (∃ blk, g'.builder.block? i = some blk ∧ _) ↔ ∃ blk, g.builder.block? i = some blk ∧ _
  rw [h.kept i hi hc]

end Since

@[simp] theorem waiting_grow {types : TypeStore} {hle : g.types ≤ types} {hw : types.WF}
    {i : BlockId} : (g.grow types hle hw).Waiting i ↔ g.Waiting i := Iff.rfl

@[simp] theorem waiting_report {e : LowerError} {he : e.Genuine} {i : BlockId} :
    (g.report e he).Waiting i ↔ g.Waiting i := Iff.rfl

@[simp] theorem waiting_addBlock {atStart : LocalId → Prop}
    {h : ∀ id, id.index < g.builder.params.length → atStart id} {i : BlockId} :
    (g.addBlock atStart h).Waiting i ↔ i.index = g.size ∨ g.Waiting i := by
  show g.builder.withBlock.Open i ∧ i ≠ g.cur ↔ _
  rw [Builder.open_withBlock]
  have hcur : i.index = g.size → i ≠ g.cur := by
    rintro hi rfl
    exact absurd hi (Nat.ne_of_lt g.inRange)
  constructor
  · rintro ⟨hi | hi, hne⟩
    · exact .inl hi
    · exact .inr ⟨hi, hne⟩
  · rintro (hi | hi)
    · exact ⟨.inl hi, hcur hi⟩
    · exact ⟨.inr hi.1, hi.2⟩

@[simp] theorem waiting_push {type : TypeId} {operation : Operation} {h : g.Emits type operation}
    {htype : g.types.Proper type} {i : BlockId} :
    (g.push type operation h htype).Waiting i ↔ g.Waiting i := by
  show (g.builder.pushed type operation).Open i ∧ i ≠ g.cur ↔ _
  rw [Builder.pushed, Builder.open_emitted, Builder.open_withLocal]
  rfl

@[simp] theorem waiting_emit {type : TypeId} {operation : Operation} {h : g.Emits type operation}
    {htype : g.types.IsVoid type} {i : BlockId} :
    (g.emit type operation h htype).Waiting i ↔ g.Waiting i := by
  show (g.builder.emitted _).Open i ∧ i ≠ g.cur ↔ _
  rw [Builder.open_emitted]
  rfl

theorem open_close {i j : BlockId} {t : Terminator} {h : g.Closes i t} :
    (g.close i t h).Open j ↔ j ≠ i ∧ g.Open j := Builder.open_closed

theorem waiting_close {i j : BlockId} {t : Terminator} {h : g.Closes i t} :
    (g.close i t h).Waiting j ↔ j ≠ i ∧ g.Waiting j := by
  show (g.close i t h).Open j ∧ j ≠ g.cur ↔ _
  rw [open_close, and_assoc]
  rfl

@[simp] theorem waiting_close_cur {j : BlockId} {t : Terminator} {h : g.Closes g.cur t} :
    (g.close g.cur t h).Waiting j ↔ g.Waiting j := by
  rw [waiting_close]
  exact ⟨fun hj => hj.2, fun hj => ⟨hj.2, hj⟩⟩

theorem waiting_moveTo {i j : BlockId} {hi : i.index < g.size} :
    (g.moveTo i hi).Waiting j ↔ g.Open j ∧ j ≠ i := Iff.rfl

theorem waiting_moveTo_of_sealed (hsealed : ¬ g.Open g.cur) {i j : BlockId}
    {hi : i.index < g.size} : (g.moveTo i hi).Waiting j ↔ g.Waiting j ∧ j ≠ i := by
  rw [waiting_moveTo]
  have hne : g.Open j → j ≠ g.cur := by
    rintro hj rfl
    exact hsealed hj
  exact ⟨fun h => ⟨⟨h.1, hne h.1⟩, h.2⟩, fun h => ⟨h.1.1, h.2⟩⟩

/-! ## Statements and expressions -/

structure Step (g g' : Draft ctx) : Prop extends Since g.cur g g' where
  waiting : ∀ i, g'.Waiting i ↔ g.Waiting i
  moved : g'.cur = g.cur ∨ g.size ≤ g'.cur.index

namespace Step

theorem refl (g : Draft ctx) : Step g g :=
  { Since.refl g.cur g with
    waiting := fun _ => Iff.rfl
    moved := .inl rfl }

theorem trans (h₁ : Step g g₁) (h₂ : Step g₁ g₂) : Step g g₂ where
  toSince := h₁.toSince.trans h₂.toSince h₁.moved
  waiting i := (h₂.waiting i).trans (h₁.waiting i)
  moved := by
    have hsize := h₁.size
    rcases h₂.moved with h | h
    · rw [h]
      exact h₁.moved
    · exact .inr (Nat.le_trans hsize h)

theorem block_of_waiting (h : Step g g') {i : BlockId} (hi : g.Waiting i) :
    g'.builder.block? i = g.builder.block? i := h.kept i hi.lt_size hi.2

end Step

theorem Step.grow {types : TypeStore} (hle : g.types ≤ types) (hw : types.WF) :
    Step g (g.grow types hle hw) :=
  { Since.grow g.cur hle hw with
    waiting := fun _ => Iff.rfl
    moved := .inl rfl }

theorem Step.report {e : LowerError} (he : e.Plain) : Step g (g.report e he.genuine) :=
  { Since.report g.cur he with
    waiting := fun _ => Iff.rfl
    moved := .inl rfl }

theorem Step.closeCur {t : Terminator} {h : g.Closes g.cur t} : Step g (g.close g.cur t h) :=
  { Since.close with
    waiting := fun _ => waiting_close_cur
    moved := .inl rfl }

theorem Step.afresh (hsealed : ¬ g.Open g.cur) {atStart : LocalId → Prop}
    {h : ∀ id, id.index < g.builder.params.length → atStart id} :
    Step g ((g.addBlock atStart h).moveTo ⟨g.size⟩ g.newest) where
  toSince := (Since.addBlock g.cur).trans (Since.moveTo g.cur) (.inl rfl)
  waiting i := by
    have hstill : ¬ (g.addBlock atStart h).Open (g.addBlock atStart h).cur := by
      intro hopen
      rcases Builder.open_withBlock.mp hopen with hi | hi
      · exact absurd hi (Nat.ne_of_lt g.inRange)
      · exact hsealed hi
    rw [waiting_moveTo_of_sealed hstill, waiting_addBlock]
    constructor
    · rintro ⟨hi | hi, hne⟩
      · exact absurd (Builder.index_inj hi) hne
      · exact hi
    · intro hi
      refine ⟨.inr hi, ?_⟩
      rintro rfl
      exact absurd hi.lt_size (Nat.lt_irrefl _)
  moved := .inr (Nat.le_refl _)

structure EvalStep (g g' : Draft ctx) : Prop extends Step g g' where
  opened : g'.Open g'.cur
  sees : ∀ id, g.InSight g.cur id → g'.InSight g'.cur id
  falls : Falls g g' True

namespace EvalStep

theorem refl (h : g.Open g.cur) : EvalStep g g :=
  { Step.refl g with
    opened := h
    sees := fun _ hid => hid
    falls := .refl g }

theorem trans (h₁ : EvalStep g g₁) (h₂ : EvalStep g₁ g₂) : EvalStep g g₂ where
  toStep := h₁.toStep.trans h₂.toStep
  opened := h₂.opened
  sees id hid := h₂.sees id (h₁.sees id hid)
  falls := (h₁.falls.trans h₂.falls).congr (and_iff_left trivial)

theorem grow (h : g.Open g.cur) {types : TypeStore} (hle : g.types ≤ types) (hw : types.WF) :
    EvalStep g (g.grow types hle hw) :=
  { Step.grow hle hw with
    opened := h
    sees := fun _ hid => hid
    falls := .of_same .grow rfl Iff.rfl }

theorem report (h : g.Open g.cur) {e : LowerError} (he : e.Plain) :
    EvalStep g (g.report e he.genuine) :=
  { Step.report he with
    opened := h
    sees := fun _ hid => hid
    falls := .of_same .report rfl Iff.rfl }

theorem push {type : TypeId} {operation : Operation} {h : g.Emits type operation}
    {htype : g.types.Proper type} (hphi : operation.isPhi = false) :
    EvalStep g (g.push type operation h htype) where
  toSince := Since.push hphi
  waiting _ := waiting_push
  moved := .inl rfl
  opened := Builder.open_emitted.mpr h.opened
  sees _ hid := hid.mono (Builder.Le.pushed h.opened type operation) fun hs => hs
  falls := .of_same .push rfl Builder.open_emitted

theorem emit {type : TypeId} {operation : Operation} {h : g.Emits type operation}
    {htype : g.types.IsVoid type} (hphi : operation.isPhi = false) :
    EvalStep g (g.emit type operation h htype) where
  toSince := Since.emit hphi
  waiting _ := waiting_emit
  moved := .inl rfl
  opened := Builder.open_emitted.mpr h.opened
  sees _ hid := hid.mono (Builder.Le.emitted h.opened _) fun hs => hs
  falls := .of_same .emit rfl Builder.open_emitted

theorem pushPhi (h : EvalStep g g₁) {type : TypeId} {operation : Operation}
    {he : g₁.Emits type operation} {htype : g₁.types.Proper type} (hnew : g.size ≤ g₁.cur.index) :
    EvalStep g (g₁.push type operation he htype) where
  toSince := h.toSince.pushPhi hnew
  waiting i := waiting_push.trans (h.waiting i)
  moved := .inr hnew
  opened := Builder.open_emitted.mpr he.opened
  sees id hid := (h.sees id hid).mono (Builder.Le.pushed he.opened type operation) fun hs => hs
  falls := (h.falls.trans (.of_same .push rfl Builder.open_emitted)).congr (and_iff_left trivial)

theorem seen (h : EvalStep g g') {v : Value} (hv : g.Sees v) : g'.Sees v :=
  ⟨hv.typed.mono h.types h.builder, fun id hid => h.sees id (hv.reach id hid)⟩

end EvalStep

theorem sees_push {type : TypeId} {operation : Operation} {h : g.Emits type operation}
    {htype : g.types.Proper type} :
    (g.push type operation h htype).Sees (.ofLocal ⟨g.builder.locals.size⟩ type) := by
  refine ⟨Builder.ValueTyped.pushed htype, fun id hid => ?_⟩
  cases hid
  obtain ⟨blk, hblk, _⟩ := h.opened
  have hlast := Builder.block?_emitted_cursor (b := g.builder.withLocal type)
    ⟨some ⟨g.builder.locals.size⟩, type, operation⟩ hblk
  exact .inr ⟨_, hlast, by simp [defs]⟩

end Draft

end Midend
