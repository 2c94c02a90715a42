import Midend.Proofs.Eval

/-!
# Midend.Proofs.ShortCircuit

The blocks of `&&` and `||`. The block where the left operand ends branches to two new blocks: one
for the right operand, and one where both ways meet. What is in sight where the left operand ends is
in sight in both, whatever the right operand adds.
-/

namespace Midend

open Ir

variable {ctx : FnContext} {g g₁ g₂ g' : Draft ctx} {v : Value}

namespace Draft

def atCursor (g : Draft ctx) (id : LocalId) : Prop := g.InSight g.cur id

theorem params_atCursor (g : Draft ctx) :
    ∀ id, id.index < g.builder.params.length → g.atCursor id :=
  fun id hid => .inl (g.flow.params g.cur id hid)

theorem params_atCursor_addBlock (g : Draft ctx) :
    ∀ id, id.index < (g.addBlock g.atCursor g.params_atCursor).builder.params.length →
      g.atCursor id := g.params_atCursor

def first (g : Draft ctx) : BlockId := ⟨g.size⟩

def second (g : Draft ctx) : BlockId := ⟨g.size + 1⟩

/-- With two new blocks, where everything is in sight that is at the cursor. -/
def fork (g : Draft ctx) : Draft ctx :=
  (g.addBlock g.atCursor g.params_atCursor).addBlock g.atCursor g.params_atCursor_addBlock

theorem size_fork (g : Draft ctx) : g.fork.size = g.size + 2 := by
  show g.builder.withBlock.withBlock.size = g.builder.size + 2
  rw [Builder.size_withBlock, Builder.size_withBlock]

theorem run_createFirst (g : Draft ctx) :
    runOn (Lower.build Build.createBlock) g.toFnState =
      (.ok g.first, (g.addBlock g.atCursor g.params_atCursor).toFnState) :=
  g.run_createBlock g.params_atCursor

theorem run_createSecond (g : Draft ctx) :
    runOn (Lower.build Build.createBlock) (g.addBlock g.atCursor g.params_atCursor).toFnState =
      (.ok g.second, g.fork.toFnState) := by
  have hsize : (g.addBlock g.atCursor g.params_atCursor).size = g.size + 1 :=
    Builder.size_withBlock _
  rw [run_createBlock _ g.params_atCursor_addBlock, hsize]
  rfl

theorem first_ne_second (g : Draft ctx) : g.first ≠ g.second := by
  simp [first, second]

theorem ne_new {g : Draft ctx} {i : BlockId} (h : i.index < g.size) :
    i ≠ g.first ∧ i ≠ g.second := by
  constructor
  · rintro rfl
    exact absurd h (Nat.lt_irrefl _)
  · rintro rfl
    exact absurd h (Nat.not_lt.mpr (Nat.le_succ _))

theorem since_fork (c : BlockId) (g : Draft ctx) : Since c g g.fork :=
  (Since.addBlock c).trans (Since.addBlock c) (.inl rfl)

theorem block?_fork_first (g : Draft ctx) :
    g.fork.builder.block? g.first = some (Block.fresh g.first) := by
  show g.builder.withBlock.withBlock.block? g.first = _
  have hne : ¬ g.first.index = g.builder.withBlock.size := by simp [first]
  have hsize : g.first.index = g.builder.size := rfl
  rw [Builder.block?_withBlock, if_neg hne, Builder.block?_withBlock, if_pos hsize]
  rfl

theorem block?_fork_second (g : Draft ctx) :
    g.fork.builder.block? g.second = some (Block.fresh g.second) := by
  show g.builder.withBlock.withBlock.block? g.second = _
  have hsize : g.second.index = g.builder.withBlock.size := by simp [second]
  rw [Builder.block?_withBlock, if_pos hsize, Builder.size_withBlock]
  rfl

theorem sight_fork (g : Draft ctx) {i : BlockId} (hi : i = g.first ∨ i = g.second)
    (id : LocalId) : g.fork.sight i id ↔ g.InSight g.cur id := by
  have hsize : (g.addBlock g.atCursor g.params_atCursor).size = g.size + 1 :=
    Builder.size_withBlock _
  show ((g.sight.with g.size g.atCursor).with
    (g.addBlock g.atCursor g.params_atCursor).size g.atCursor) i id ↔ _
  rw [hsize]
  rcases hi with rfl | rfl <;> simp [Builder.Sight.with, first, second, atCursor]

theorem waiting_fork (g : Draft ctx) (i : BlockId) :
    g.fork.Waiting i ↔ i = g.first ∨ i = g.second ∨ g.Waiting i := by
  have hfirst : i = g.first ↔ i.index = g.size :=
    ⟨fun h => by rw [h]; rfl, fun h => Builder.index_inj h⟩
  have hsecond : i = g.second ↔ i.index = g.size + 1 :=
    ⟨fun h => by rw [h]; rfl, fun h => Builder.index_inj h⟩
  have hsize : (g.addBlock g.atCursor g.params_atCursor).size = g.size + 1 :=
    Builder.size_withBlock _
  rw [fork, waiting_addBlock, waiting_addBlock, hsize, hfirst, hsecond]
  exact or_left_comm

theorem wires_fork {m : Nat} (g : Draft ctx) : Wires m g g.fork noEdge :=
  Wires.addBlock.noEdge_trans .addBlock

theorem closes_fork {t : Terminator} (hopen : g.Open g.cur)
    (htyped : g.builder.TerminatorTyped g.types t) (hreads : ∀ v ∈ t.operands, g.Sees v)
    (htargets : ∀ k ∈ t.successors, k = g.first ∨ k = g.second) : g.fork.Closes g.fork.cur t := by
  have hsince := since_fork g.cur g
  refine ⟨?_, htyped.mono hsince.types g.typed.ret hsince.builder, fun v hv id hid => ?_,
    fun k hk => ?_⟩
  · obtain ⟨blk, hblk, hnone⟩ := hopen
    obtain ⟨hlt, _⟩ := Array.getElem?_eq_some_iff.mp hblk
    refine ⟨blk, ?_, hnone⟩
    show g.builder.withBlock.withBlock.block? g.cur = some blk
    have h₁ : ¬ g.cur.index = g.builder.size := Nat.ne_of_lt g.inRange
    have h₂ : ¬ g.cur.index = g.builder.withBlock.size := by
      rw [Builder.size_withBlock]
      exact Nat.ne_of_lt (Nat.lt_succ_of_lt g.inRange)
    rw [Builder.block?_withBlock, if_neg h₂, Builder.block?_withBlock, if_neg h₁]
    exact hblk
  · exact hsince.inSight g.inRange ((hreads v hv).reach id hid)
  · have hnew := htargets k hk
    refine ⟨?_, fun id hid => hsince.inSight g.inRange ((g.sight_fork hnew id).mp hid), ?_⟩
    · rw [size_fork]
      rcases hnew with rfl | rfl <;> simp [first, second]
    · intro blk hblk inst hinst
      have hfresh : blk = Block.fresh k := by
        rcases hnew with rfl | rfl
        · exact Option.some.inj (hblk.symm.trans g.block?_fork_first)
        · exact Option.some.inj (hblk.symm.trans g.block?_fork_second)
      rw [hfresh] at hinst
      simp [Block.fresh] at hinst

theorem first_lt_fork {t : Terminator} (h : g.fork.Closes g.fork.cur t) :
    g.first.index < (g.fork.close g.fork.cur t h).size := by
  show g.size < (g.fork.builder.closed g.fork.cur t).size
  rw [Builder.size_closed]
  show g.size < g.fork.size
  rw [size_fork]
  omega

/-- With the cursor's block branching to two new blocks, and the cursor on the first. -/
def split (g : Draft ctx) (t : Terminator) (h : g.fork.Closes g.fork.cur t) :
    Draft ctx :=
  (g.fork.close g.fork.cur t h).moveTo g.first (first_lt_fork h)

section Split

variable {t : Terminator} {h : g.fork.Closes g.fork.cur t}

theorem since_split : Since g.cur g (g.split t h) :=
  (((since_fork g.cur g).trans Since.close (.inl rfl))).trans (Since.moveTo g.cur) (.inl rfl)

theorem size_split : (g.split t h).size = g.size + 2 := by
  show (g.fork.builder.closed g.fork.cur t).size = _
  rw [Builder.size_closed]
  exact g.size_fork

theorem block?_split {i : BlockId} (hi : i ≠ g.cur) :
    (g.split t h).builder.block? i = g.fork.builder.block? i := by
  show (g.fork.builder.closed g.cur t).block? i = _
  rw [Builder.block?_closed, if_neg (Ne.symm hi)]

theorem block?_split_cur {blk : Block} (hblk : g.builder.block? g.cur = some blk) :
    (g.split t h).builder.block? g.cur = some { blk with terminator := some t } := by
  have hfork : g.fork.builder.block? g.cur = some blk := by
    have hkept := (since_fork g.first g).kept g.cur g.inRange (ne_new g.inRange).1
    exact hkept.trans hblk
  exact Builder.block?_closed_self hfork

theorem block?_split_first :
    (g.split t h).builder.block? g.first = some (Block.fresh g.first) := by
  rw [block?_split (ne_new g.inRange).1.symm]
  exact g.block?_fork_first

theorem block?_split_second :
    (g.split t h).builder.block? g.second = some (Block.fresh g.second) := by
  rw [block?_split (ne_new g.inRange).2.symm]
  exact g.block?_fork_second

theorem open_split : (g.split t h).Open (g.split t h).cur := ⟨_, block?_split_first, rfl⟩

theorem waiting_split (i : BlockId) :
    (g.split t h).Waiting i ↔ i = g.second ∨ g.Waiting i := by
  have hsealed : ¬ (g.fork.close g.fork.cur t h).Open (g.fork.close g.fork.cur t h).cur := by
    intro hopen
    exact (open_close.mp hopen).1 rfl
  rw [split, waiting_moveTo_of_sealed hsealed, waiting_close_cur, waiting_fork]
  constructor
  · rintro ⟨hi | hi, hne⟩
    · exact absurd hi hne
    · exact hi
  · rintro (hi | hi)
    · exact ⟨.inr (.inl hi), hi ▸ g.first_ne_second.symm⟩
    · exact ⟨.inr (.inr hi), (ne_new hi.lt_size).1⟩

theorem wires_split {m : Nat} (ht : t ≠ .unreachable) :
    Wires m g (g.split t h) fun i j => i = g.cur ∧ j ∈ t.successors :=
  (g.wires_fork.noEdge_trans (.close ht)).trans_noEdge .moveTo

theorem closes_second (hstep : (g.split t h).EvalStep g₁) : g₁.Closes g₁.cur (.br g.second) := by
  have hlt : g.second.index < (g.split t h).size := by
    rw [size_split]
    exact Nat.lt_succ_self _
  refine ⟨hstep.opened, trivial, fun v hv => by simp [Terminator.operands] at hv, fun k hk => ?_⟩
  obtain rfl : k = g.second := by simpa [Terminator.successors] using hk
  refine ⟨Nat.lt_of_lt_of_le hlt hstep.size, fun id hid => ?_, ?_⟩
  · have hat : g.InSight g.cur id :=
      (g.sight_fork (.inr rfl) id).mp ((hstep.sight g.second id hlt).mp hid)
    exact hstep.sees id (.inl ((g.sight_fork (.inl rfl) id).mpr hat))
  · intro blk hblk inst hinst
    have hkept := hstep.kept g.second hlt g.first_ne_second.symm
    have hfresh : blk = Block.fresh g.second :=
      Option.some.inj (hblk.symm.trans (hkept.trans block?_split_second))
    rw [hfresh] at hinst
    simp [Block.fresh] at hinst

theorem second_lt (hstep : (g.split t h).EvalStep g₁) :
    g.second.index < (g₁.close g₁.cur (.br g.second) (closes_second hstep)).size := by
  show _ < (g₁.builder.closed g₁.cur (.br g.second)).size
  rw [Builder.size_closed]
  have hsize : (g.split t h).size ≤ g₁.size := hstep.size
  rw [size_split] at hsize
  exact hsize

def meet (hstep : (g.split t h).EvalStep g₁) : Draft ctx :=
  (g₁.close g₁.cur (.br g.second) (closes_second hstep)).moveTo g.second (second_lt hstep)

section Meet

variable (hstep : (g.split t h).EvalStep g₁)

include hstep

theorem since_meet (c : BlockId) (hc : c = g₁.cur) : Since c g₁ (meet hstep) := by
  subst hc
  exact Since.close.trans (Since.moveTo g₁.cur) (.inl rfl)

theorem second_end_new : g.size ≤ g₁.cur.index := by
  rcases hstep.moved with hmoved | hmoved
  · rw [hmoved]
    exact Nat.le_refl _
  · rw [size_split] at hmoved
    omega

theorem second_end_ne : g₁.cur ≠ g.second := by
  rcases hstep.moved with hmoved | hmoved
  · rw [hmoved]
    exact g.first_ne_second
  · rw [size_split] at hmoved
    intro heq
    have hidx : g₁.cur.index = g.size + 1 := by rw [heq]; rfl
    omega

theorem cur_ne_second_end : g.cur ≠ g₁.cur := by
  intro heq
  have hnew : g.size ≤ g₁.cur.index := second_end_new hstep
  rw [← heq] at hnew
  exact absurd g.inRange (Nat.not_lt.mpr hnew)

theorem block?_meet_second :
    (meet hstep).builder.block? g.second = some (Block.fresh g.second) := by
  have hlt : g.second.index < (g.split t h).size := by
    rw [size_split]
    exact Nat.lt_succ_self _
  have hkept := hstep.kept g.second hlt g.first_ne_second.symm
  show (g₁.builder.closed g₁.cur (.br g.second)).block? g.second = _
  rw [Builder.block?_closed, if_neg (second_end_ne hstep), hkept]
  exact block?_split_second

theorem wires_meet (ht : t ≠ .unreachable) : Wires (g.size + 2) g (meet hstep) fun i j =>
    (i = g.cur ∧ j ∈ t.successors) ∨ (i = g₁.cur ∧ j = g.second) := by
  have hend : Wires (g.size + 2) g₁ (meet hstep) fun i j => i = g₁.cur ∧ j = g.second :=
    ((Wires.close (by simp)).trans_noEdge .moveTo).congr fun i j _ => by
      simp [Terminator.successors]
  exact (wires_split ht).trans ((hstep.falls.less (Nat.le_of_eq size_split.symm)).noEdge_trans hend)

theorem edge_meet (ht : t ≠ .unreachable) {i j : BlockId} (hj : j = g.first ∨ j = g.second) :
    (meet hstep).builder.Edge i j ↔
      (i = g.cur ∧ j ∈ t.successors) ∨ (i = g₁.cur ∧ j = g.second) := by
  refine (wires_meet hstep ht).edge_new j ?_ ?_ <;>
    rcases hj with rfl | rfl <;> simp [first, second]

/-- Control gets to where both ways meet from the left operand at once, or through the right one. -/
theorem falls_meet (hopen : g.Open g.cur) (ht : t ≠ .unreachable)
    (hsucc : ∀ k, k ∈ t.successors ↔ k = g.first ∨ k = g.second) :
    Falls g (meet hstep) True := by
  have hw := wires_meet hstep ht
  have hsize : g.size + 2 ≤ (meet hstep).size := by
    have h₁ : (g.split t h).size ≤ (meet hstep).size :=
      Nat.le_trans hstep.size (since_meet hstep g₁.cur rfl).size
    rwa [size_split] at h₁
  have hpos : 0 < g.size := Nat.lt_of_le_of_lt (Nat.zero_le _) g.inRange
  refine .of_passes ((hw.less (Nat.le_add_right _ 2)).congr fun i j hj => ?_) hopen fun f hf => ?_
  · have hne := ne_new hj
    simp [hsucc, hne.1, hne.2]
  have hfirst : ∀ i, f.Edge i g.first ↔ i = g.cur := by
    intro i
    rw [hf i g.first (Nat.le_refl _) (Nat.lt_of_lt_of_le (Nat.lt_add_of_pos_right (by simp)) hsize),
      edge_meet hstep ht (.inl rfl)]
    simp [hsucc, g.first_ne_second]
  have hsecond : ∀ i, f.Edge i g.second ↔ i = g.cur ∨ i = g₁.cur := by
    intro i
    rw [hf i g.second (Nat.le_succ _) hsize, edge_meet hstep ht (.inr rfl)]
    simp [hsucc]
  have hkeeps : Keeps (g.split t h) g₁ f := by
    have hend : Wires g₁.size g₁ (meet hstep) fun i j => i = g₁.cur ∧ j = g.second :=
      ((Wires.close (by simp)).trans_noEdge .moveTo).congr fun i j _ => by
        simp [Terminator.successors]
    refine hf.part since_split.size hend fun i j hij => .inl ?_
    rw [hij.2, size_split]
    exact Nat.lt_succ_self _
  have hright : Passes f g.cur g₁ True :=
    (hstep.falls.passes hkeeps open_split).jump hpos hfirst
  refine ⟨fun n hlive => ⟨trivial, ?_⟩, fun _ n hn => ?_⟩
  · obtain ⟨m, i, hm, hi, hedge⟩ := hlive.2.last (Nat.succ_pos _)
    rcases (hsecond i).mp hedge with rfl | rfl
    · exact hi.mono (Nat.le_of_lt hm)
    · exact (hright.back m ⟨hstep.opened, hi⟩).2.mono (Nat.le_of_lt hm)
  · exact ⟨n + 1, ⟨_, block?_meet_second hstep, rfl⟩, .edge hn ((hsecond _).mpr (.inl rfl))⟩

theorem step_meet (hopen : g.Open g.cur) (ht : t ≠ .unreachable)
    (hsucc : ∀ k, k ∈ t.successors ↔ k = g.first ∨ k = g.second) : g.EvalStep (meet hstep) where
  toSince := (since_split.trans hstep.toSince (.inr (Nat.le_refl _))).trans
    (since_meet hstep g₁.cur rfl) (.inr (second_end_new hstep))
  waiting i := by
    have hsealed : ¬ (g₁.close g₁.cur (.br g.second) (closes_second hstep)).Open
        (g₁.close g₁.cur (.br g.second) (closes_second hstep)).cur := by
      intro hopen
      exact (open_close.mp hopen).1 rfl
    rw [meet, waiting_moveTo_of_sealed hsealed, waiting_close_cur, hstep.waiting, waiting_split]
    constructor
    · rintro ⟨hi | hi, hne⟩
      · exact absurd hi hne
      · exact hi
    · intro hi
      exact ⟨.inr hi, (ne_new hi.lt_size).2⟩
  moved := .inr (Nat.le_succ _)
  opened := ⟨_, block?_meet_second hstep, rfl⟩
  sees id hid := by
    have hlt : g.second.index < (g.split t h).size := by
      rw [size_split]
      exact Nat.lt_succ_self _
    exact .inl ((hstep.sight g.second id hlt).mpr ((g.sight_fork (.inr rfl) id).mpr hid))
  falls := falls_meet hstep hopen ht hsucc

end Meet

end Split

end Draft

/-! ## The code of a short circuit -/

/-- Where the left operand does not decide, control goes on at `rhsBlock`. -/
def branchOn (op : BinaryOp) (lhs : Value) (rhsBlock merge : BlockId) : Terminator :=
  if op = .logicalAnd then .condBr lhs rhsBlock merge else .condBr lhs merge rhsBlock

/-- What follows the left operand. -/
def shortCircuit (ctx : Context) (m : Mark) (op : BinaryOp) (lhs : Value) (right : Lower Value) :
    Lower Value := do
  let lhsEnd ← Lower.build Build.ensureOpen
  let rhsBlock ← Lower.build Build.createBlock
  let merge ← Lower.build Build.createBlock
  Lower.build (Build.terminate (branchOn op lhs rhsBlock merge))
  Lower.build (Build.switchTo rhsBlock)
  let rhs ← Lower.outcome right
  let rhsEnd ← Lower.build Build.ensureOpen
  Lower.build (Build.terminate (.br merge))
  Lower.build (Build.switchTo merge)
  let rhs ← Lower.ofOutcome rhs
  let type ← Lower.boolType ctx m
  let decided : Value := .ofConst (.bool (op = .logicalOr)) type
  Lower.push type (.phi [(decided, lhsEnd), (rhs, rhsEnd)])

section

variable {op : BinaryOp} {lhs : Value} {rhsBlock merge : BlockId}

theorem successors_branchOn {k : BlockId} :
    k ∈ (branchOn op lhs rhsBlock merge).successors ↔ k = rhsBlock ∨ k = merge := by
  unfold branchOn
  split
  · simp [Terminator.successors]
  · simp [Terminator.successors, or_comm]

theorem branchOn_ne : branchOn op lhs rhsBlock merge ≠ .unreachable := by
  unfold branchOn
  split <;> simp

theorem operands_branchOn : (branchOn op lhs rhsBlock merge).operands = [lhs] := by
  unfold branchOn
  split <;> rfl

theorem typed_branchOn {s : TypeStore} {b : Builder} (hbool : s.IsBool lhs.type)
    (hl : b.ValueTyped s lhs) : b.TerminatorTyped s (branchOn op lhs rhsBlock merge) := by
  unfold branchOn
  split <;> exact ⟨hbool, hl⟩

end

theorem emits_phi {t : Terminator} {h : g.fork.Closes g.fork.cur t}
    (hstep : (g.split t h).EvalStep g₁) (ht : t ≠ .unreachable) (hsecond : g.second ∈ t.successors)
    (hg : g₂.builder = (Draft.meet hstep).builder)
    (hs : ∀ id, g₁.sight g₁.cur id → g₂.sight g₁.cur id)
    (htypes : g₁.types ≤ g₂.types) {rhs : Value} (hr : g₁.Sees rhs)
    (hrBool : g₁.types.IsBool rhs.type) (decided : Bool) {type : TypeId}
    (htype : g₂.types.IsBool type) :
    g₂.Emits type (.phi [(.ofConst (.bool decided) type, g.cur), (rhs, g₁.cur)]) := by
  have hcur : g₂.cur = g.second := congrArg Builder.cursor hg
  have hle : g₁.builder.Le g₂.builder := hg ▸ (Draft.since_meet hstep g₁.cur rfl).builder
  have hfresh : g₂.builder.block? g.second = some (Block.fresh g.second) :=
    hg ▸ Draft.block?_meet_second hstep
  refine ⟨?_, .phi htype (hrBool.le htypes), ?_, (fun hphi => by cases hphi),
    fun _ => ⟨?_, ?_⟩⟩
  · rw [hcur]
    exact ⟨_, hfresh, rfl⟩
  · intro v hv
    have hconst : g₂.Sees (.ofConst (.bool decided) type) :=
      Draft.sees_const (Typing.proper_of_body? htype (by simp))
    simp only [Operation.operands, List.map_cons, List.map_nil, List.mem_cons, List.not_mem_nil,
      or_false] at hv
    rcases hv with rfl | rfl
    · exact hconst.typed
    · exact hr.typed.mono htypes hle
  · intro blk hblk
    rw [hcur, hfresh] at hblk
    cases hblk
    rfl
  · rw [hcur]
    intro incoming hincoming
    cases hincoming
    refine ⟨by simpa using Draft.cur_ne_second_end hstep, fun j => ?_, fun v j hvj id hid => ?_⟩
    · rw [hg, Draft.edge_meet hstep ht (.inr rfl)]
      simp [hsecond]
    · simp only [List.mem_cons, Prod.mk.injEq, List.not_mem_nil, or_false] at hvj
      rcases hvj with ⟨rfl, rfl⟩ | ⟨rfl, rfl⟩
      · cases hid
      · exact (hr.reach id hid).mono hle (hs id)

theorem leave_branchOn {V : Type} {s : Scene ctx V} {op : BinaryOp} {lhs : Value}
    {rhsBlock merge : BlockId} (hop : op = .logicalAnd ∨ op = .logicalOr) {c : Point V} {b : V}
    (hb : s.read c.locals lhs = some b) :
    s.leave c (branchOn op lhs rhsBlock merge) = .to (Machine.enter c
      (if s.interp.holds b = decide (op = .logicalOr) then merge else rhsBlock)) := by
  rcases hop with rfl | rfl <;> cases hholds : s.interp.holds b <;>
    simp [branchOn, Machine.leave, hb, hholds]

section Run

variable {V : Type} {s : Scene ctx V} {op : BinaryOp} {lhs rhs : Value} {type : TypeId}
  {hclose : g.fork.Closes g.fork.cur (branchOn op lhs g.first g.second)}
  {hstep : (g.split _ hclose).EvalStep g₁} {env : Locals V} {calls calls₁ : List (Call V)}
  {x y : Datum V}

/-- Where the left operand ends, control goes on at once to where both ways meet, or else at the
right operand. -/
theorem step_left (hop : op = .logicalAnd ∨ op = .logicalOr) (hopen : g.Open g.cur)
    (hc : s.Covers (g.split _ hclose)) (hx : s.Holds env lhs x) (prev : Option BlockId) :
    s.step (g.spot prev env calls) = .to (Machine.enter (g.spot prev env calls)
      (if s.interp.holds x.value = decide (op = .logicalOr) then g.second else g.first)) := by
  obtain ⟨blk, hblk, _⟩ := hopen
  exact (Scene.step_end hc hblk (Draft.block?_split_cur hblk) prev env calls).trans
    (leave_branchOn hop hx.read)

/-- From the end of the right operand, control gets to where both ways meet. -/
theorem step_right (hg : g₂.builder = (Draft.meet hstep).builder)
    (hc : s.Covers (Draft.meet hstep)) (prev : Option BlockId) :
    s.step (g₁.spot prev env calls) = .to (g₂.spot (some g₁.cur) env calls) := by
  have hcur : g₂.cur = g.second := congrArg Builder.cursor hg
  have hfresh : g₂.builder.block? g.second = some (Block.fresh g.second) :=
    hg ▸ Draft.block?_meet_second hstep
  obtain ⟨blk, hblk, _⟩ := hstep.opened
  rw [Scene.step_end hc hblk (Builder.block?_closed_self hblk) prev env calls,
    ← Scene.enter_eq hcur hfresh prev]
  rfl

variable {hemits : g₂.Emits type
    (.phi [(.ofConst (.bool (decide (op = .logicalOr))) type, g.cur), (rhs, g₁.cur)])}
  {hproper : g₂.types.Proper type}

variable (hstep) in
/-- The left operand decides, and the right one is not evaluated. -/
theorem computes_left (hop : op = .logicalAnd ∨ op = .logicalOr) (hopen : g.Open g.cur)
    (hg : g₂.builder = (Draft.meet hstep).builder) (hle : g.builder.Le g₂.builder)
    (hcs : s.Covers (g.split _ hclose)) (hc : s.Covers (g₂.push type _ hemits hproper))
    (hbool : s.types.body? type = some (.int 1)) (hx : s.Holds env lhs x)
    (hdecided : s.interp.holds x.value = decide (op = .logicalOr)) :
    s.Computes g (g₂.push type _ hemits hproper) env calls
      (.ofLocal ⟨g₂.builder.locals.size⟩ type)
      (s.world.constant (.bool (decide (op = .logicalOr))) (.int 1)) calls := by
  have hcur : g₂.cur = g.second := congrArg Builder.cursor hg
  have hfresh : g₂.builder.block? g.second = some (Block.fresh g.second) :=
    hg ▸ Draft.block?_meet_second hstep
  have hphi : s.perform (g₂.spot (some g.cur) env calls) type
      (.phi [(.ofConst (.bool (decide (op = .logicalOr))) type, g.cur), (rhs, g₁.cur)]) =
        some (s.interp.const (.bool (decide (op = .logicalOr))) (.int 1), calls) := by
    simp [Machine.perform, Machine.compute, Draft.spot, read_const hbool]
  refine ⟨Machine.store env (some ⟨g₂.builder.locals.size⟩)
    (s.interp.const (.bool (decide (op = .logicalOr))) (.int 1)),
    ⟨fun prev => ⟨2, some g.cur, .cons (step_left hop hopen hcs hx prev) ?_⟩, fun id hid => ?_⟩,
    Scene.holds_store hbool _⟩
  · rw [if_pos hdecided, Scene.enter_eq hcur hfresh]
    exact .single (Scene.step_push hc hphi)
  · exact Scene.store_kept (Nat.lt_of_lt_of_le hid hle.locals_size) _

variable (hstep) in
/-- The left operand does not decide: what the right one computes is the value of the whole. -/
theorem computes_right (hop : op = .logicalAnd ∨ op = .logicalOr) (hopen : g.Open g.cur)
    (hg : g₂.builder = (Draft.meet hstep).builder) (hle : g.builder.Le g₂.builder)
    (hcs : s.Covers (g.split _ hclose)) (hcm : s.Covers (Draft.meet hstep))
    (hc : s.Covers (g₂.push type _ hemits hproper)) (hbool : s.types.body? type = some (.int 1))
    (hx : s.Holds env lhs x) (hundecided : ¬ s.interp.holds x.value = decide (op = .logicalOr))
    (hright : s.Computes (g.split _ hclose) g₁ env calls rhs y calls₁) :
    s.Computes g (g₂.push type _ hemits hproper) env calls
      (.ofLocal ⟨g₂.builder.locals.size⟩ type) ⟨y.value, .int 1⟩ calls₁ := by
  obtain ⟨env₁, hlead, hy⟩ := hright
  have hne : g.cur ≠ g₁.cur := Draft.cur_ne_second_end hstep
  have hphi : s.perform (g₂.spot (some g₁.cur) env₁ calls₁) type
      (.phi [(.ofConst (.bool (decide (op = .logicalOr))) type, g.cur), (rhs, g₁.cur)]) =
        some (y.value, calls₁) := by
    simp [Machine.perform, Machine.compute, Draft.spot, hy.read, hne]
  refine ⟨Machine.store env₁ (some ⟨g₂.builder.locals.size⟩) y.value,
    ⟨fun prev => ?_, fun id hid => ?_⟩, Scene.holds_store hbool _⟩
  · obtain ⟨n, prev₁, hn⟩ := hlead.steps (some g.cur)
    have hstart : s.Steps 1 (g.spot prev env calls)
        ((g.split _ hclose).spot (some g.cur) env calls) := by
      have hfirst : (g.split _ hclose).cur = g.first := rfl
      refine .single ?_
      rw [step_left hop hopen hcs hx prev, if_neg hundecided,
        Scene.enter_eq hfirst Draft.block?_split_first]
    exact ⟨_, _, (hstart.trans hn).trans
      (.cons (step_right hg hcm prev₁) (.single (Scene.step_push hc hphi)))⟩
  · rw [Scene.store_kept (Nat.lt_of_lt_of_le hid hle.locals_size) _]
    exact hlead.kept id hid

end Run

/-- The left operand decides; where it does not, the right one is evaluated after it, and decides.
-/
def RealizesShort (g g' : Draft ctx) (op : BinaryOp) (lhs r : Value)
    (act : ∀ {V : Type}, Scene ctx V → Eval V (Datum V)) : Prop :=
  ∀ ⦃V : Type⦄ (s : Scene ctx V), s.Covers g' → ∀ env calls, s.Fits env →
    ∀ x, s.Holds env lhs x →
      if s.interp.holds x.value = decide (op = .logicalOr) then
        s.Computes g g' env calls r
          (s.world.constant (.bool (decide (op = .logicalOr))) (.int 1)) calls
      else ∃ y calls', (act s).run calls = some (y, calls') ∧
        s.Computes g g' env calls r ⟨y.value, .int 1⟩ calls'

theorem shortCircuit_evals {m : Mark} {op : BinaryOp} {lhs : Value} {right : Lower Value}
    {act : ∀ {V : Type}, Scene ctx V → Eval V (Datum V)}
    (hop : op = .logicalAnd ∨ op = .logicalOr) (hopen : g.Open g.cur) (hl : g.Sees lhs)
    (hbool : g.types.IsBool lhs.type)
    (hright : ∀ g : Draft ctx, g.Open g.cur → Evals right g fun v g' =>
      g'.Sees v ∧ g'.types.IsBool v.type ∧ Realizes g g' v act) :
    Evals (shortCircuit ctx.toContext m op lhs right) g fun r g' =>
      g'.Sees r ∧ RealizesShort g g' op lhs r act := by
  have hclose : g.fork.Closes g.fork.cur (branchOn op lhs g.first g.second) :=
    Draft.closes_fork hopen (typed_branchOn hbool hl.typed)
      (fun v hv => by
        rw [operands_branchOn] at hv
        obtain rfl := List.mem_singleton.mp hv
        exact hl)
      fun k hk => successors_branchOn.mp hk
  have hout : Spec (Lower.outcome right) (g.split _ hclose) (fun r g₁ =>
      (g.split _ hclose).EvalStep g₁ ∧ match r with
        | .ok v => g₁.Sees v ∧ g₁.types.IsBool v.type ∧ Realizes (g.split _ hclose) g₁ v act
        | .error f => f.Tame) fun _ _ => False :=
    Spec.outcome (hright _ Draft.open_split) (fun _ _ h => h) fun f _ hf h => ⟨h, hf⟩
  rw [shortCircuit]
  refine Spec.next (g.run_ensureOpen hopen) ?_
  refine Spec.next g.run_createFirst ?_
  refine Spec.next g.run_createSecond ?_
  refine Spec.next (Draft.run_terminate g.fork hclose) ?_
  refine Spec.next (Draft.run_switchTo _ (Draft.first_lt_fork hclose)) ?_
  refine Spec.bind hout ?_ fun _ _ h => h.elim
  rintro r g₁ ⟨hstep, hr⟩
  refine Spec.next (g₁.run_ensureOpen hstep.opened) ?_
  refine Spec.next (Draft.run_terminate g₁ (Draft.closes_second hstep)) ?_
  refine Spec.next (Draft.run_switchTo _ (Draft.second_lt hstep)) ?_
  have hmeet : g.EvalStep (Draft.meet hstep) :=
    Draft.step_meet hstep hopen branchOn_ne fun k => successors_branchOn
  cases r with
  | error f =>
    exact .inr ⟨f, Draft.meet hstep, runOn_bind_error (Lower.runOn_ofOutcome _ _), hr, hmeet⟩
  | ok rhs =>
    obtain ⟨hsees, hrBool, hrealizes⟩ := hr
    refine Spec.next (Lower.runOn_ofOutcome _ _) ?_
    refine Spec.bind (boolType_evals m hmeet.opened) ?_ fun _ _ h => hmeet.trans h
    rintro type g₂ ⟨hstep₂, htype, hg⟩
    have htypes : g₁.types ≤ g₂.types := hstep₂.types
    have hemits := emits_phi hstep branchOn_ne (successors_branchOn.mpr (.inr rfl)) hg
      (fun id hid => (hstep₂.sight g₁.cur id (Nat.lt_of_lt_of_le g₁.inRange
        (Draft.since_meet hstep g₁.cur rfl).size)).mpr hid) htypes hsees hrBool
      (decide (op = .logicalOr)) htype
    have hproper : g₂.types.Proper type := Typing.proper_of_body? htype (by simp)
    have hcur : g₂.cur = g.second := congrArg Builder.cursor hg
    have hnew : g.size ≤ g₂.cur.index := by
      rw [hcur]
      exact Nat.le_succ _
    refine Spec.of_run (g₂.run_push hemits hproper)
      ⟨(hmeet.trans hstep₂).pushPhi hnew, Draft.sees_push, ?_⟩
    intro V s hc env calls hfits x hx
    have hc₂ : s.Covers g₂ :=
      hc.of_le (TypeStore.le_refl _) (Builder.Le.pushed hemits.opened type _)
    have hcm : s.Covers (Draft.meet hstep) := hc₂.of_since hstep₂.toSince
    have hc₁ : s.Covers g₁ := hcm.of_since (Draft.since_meet hstep _ rfl)
    have hcs : s.Covers (g.split _ hclose) := hc₁.of_since hstep.toSince
    have hle : g.builder.Le g₂.builder := (hmeet.trans hstep₂).builder
    by_cases hdecided : s.interp.holds x.value = decide (op = .logicalOr)
    · rw [if_pos hdecided]
      exact computes_left hstep hop hopen hg hle hcs hc (hc₂.body? htype) hx hdecided
    · rw [if_neg hdecided]
      obtain ⟨y, calls₁, hy, hcomputes⟩ := hrealizes s hc₁ env calls hfits
      exact ⟨y, calls₁, hy,
        computes_right hstep hop hopen hg hle hcs hcm hc (hc₂.body? htype) hx hdecided hcomputes⟩

end Midend
