import Midend.Proofs.Draft
import Midend.Proofs.Search

/-!
# Midend.Proofs.Fall

Which blocks control can get to, piece by piece. Blocks get their terminators in an order of its
own: that of a condition comes after both branches, and a loop goes back to a block that was filled
long before. What a piece comes to (`Falls`) is therefore said for any code `f` that it is a part of
in the end. All that matters about `f` is that nothing outside of the piece leads into it (`Keeps`).

A loop can be reached through itself. So jumps are counted: what is at the end of a piece takes at
least as many as what is at its start.
-/

namespace Midend

open Ir

namespace Ir.Builder

variable {b : Builder} {i j : BlockId} {m n : Nat}

/-- Control can get to the block from the entry in at most so many jumps. -/
inductive ReachedIn (b : Builder) : Nat → BlockId → Prop where
  | entry {n : Nat} : ReachedIn b n ⟨0⟩
  | edge {n : Nat} {i j : BlockId} : ReachedIn b n i → b.Edge i j → ReachedIn b (n + 1) j

theorem ReachedIn.mono (h : b.ReachedIn m i) (hn : m ≤ n) : b.ReachedIn n i := by
  induction h generalizing n with
  | entry => exact .entry
  | edge _ hedge ih =>
    obtain ⟨k, rfl⟩ := Nat.exists_eq_add_one_of_ne_zero (Nat.ne_zero_of_lt hn)
    exact .edge (ih (Nat.le_of_succ_le_succ hn)) hedge

theorem ReachedIn.last (h : b.ReachedIn n j) (hj : 0 < j.index) :
    ∃ m i, m < n ∧ b.ReachedIn m i ∧ b.Edge i j := by
  cases h with
  | entry => exact absurd hj (Nat.lt_irrefl 0)
  | @edge m i _ hi hedge => exact ⟨m, i, Nat.lt_succ_self m, hi, hedge⟩

theorem reached_iff : b.Reached i ↔ ∃ n, b.ReachedIn n i := by
  constructor
  · intro h
    induction h with
    | entry => exact ⟨0, .entry⟩
    | edge _ hedge ih =>
      obtain ⟨n, hn⟩ := ih
      exact ⟨n + 1, .edge hn hedge⟩
  · rintro ⟨n, h⟩
    induction h with
    | entry => exact .entry
    | edge _ hedge ih => exact .edge ih hedge

/-- Control must not come to the end of the block. -/
def Stops (b : Builder) (i : BlockId) : Prop :=
  ∃ blk, b.block? i = some blk ∧ blk.terminator = some .unreachable

theorem stops_withBlock (h : b.withBlock.Stops i) : b.Stops i := by
  obtain ⟨blk, hblk, ht⟩ := h
  rcases block_withBlock_cases hblk with ⟨_, rfl⟩ | hold
  · cases ht
  · exact ⟨blk, hold, ht⟩

theorem stops_emitted {inst : Inst} (h : (b.emitted inst).Stops i) : b.Stops i := by
  obtain ⟨blk, hblk, ht⟩ := h
  rcases block_emitted_cases hblk with ⟨_, old, hold, rfl⟩ | ⟨_, hold⟩
  · exact ⟨old, hold, ht⟩
  · exact ⟨blk, hold, ht⟩

theorem stops_closed {t : Terminator} (ht : t ≠ .unreachable) (h : (b.closed j t).Stops i) :
    b.Stops i := by
  obtain ⟨blk, hblk, hstop⟩ := h
  rcases block_closed_cases hblk with ⟨_, old, hold, rfl⟩ | ⟨_, hold⟩
  · exact absurd (Option.some.inj hstop) ht
  · exact ⟨blk, hold, hstop⟩

end Ir.Builder

namespace Draft

variable {ctx : FnContext} {g g' g₁ g₂ s e : Draft ctx} {m : Nat}
  {new new' : BlockId → BlockId → Prop} {f : Builder}

/-- The edges to the first `m` blocks are those that were there and the new ones, and no block has
become one that control must not leave. -/
structure Wires (m : Nat) (g g' : Draft ctx) (new : BlockId → BlockId → Prop) : Prop where
  size : g.size ≤ g'.size
  edges : ∀ i j, j.index < m → (g'.builder.Edge i j ↔ g.builder.Edge i j ∨ new i j)
  stops : ∀ i, g'.builder.Stops i → g.builder.Stops i

abbrev noEdge : BlockId → BlockId → Prop := fun _ _ => False

namespace Wires

theorem of_le (hle : g.builder.Le g'.builder)
    (he : ∀ i j, g'.builder.Edge i j ↔ g.builder.Edge i j)
    (hs : ∀ i, g'.builder.Stops i → g.builder.Stops i) : Wires m g g' noEdge :=
  ⟨hle.size, fun i j _ => (he i j).trans (or_iff_left id).symm, hs⟩

theorem refl (g : Draft ctx) : Wires m g g noEdge :=
  .of_le (.refl _) (fun _ _ => Iff.rfl) fun _ h => h

theorem trans (h₁ : Wires m g g₁ new) (h₂ : Wires m g₁ g₂ new') :
    Wires m g g₂ fun i j => new i j ∨ new' i j where
  size := Nat.le_trans h₁.size h₂.size
  edges i j hj := by rw [h₂.edges i j hj, h₁.edges i j hj, or_assoc]
  stops i hi := h₁.stops i (h₂.stops i hi)

theorem less {n : Nat} (h : Wires m g g' new) (hn : n ≤ m) : Wires n g g' new :=
  { h with edges := fun i j hj => h.edges i j (Nat.lt_of_lt_of_le hj hn) }

theorem congr (h : Wires m g g' new) (hnew : ∀ i j, j.index < m → (new i j ↔ new' i j)) :
    Wires m g g' new' :=
  { h with edges := fun i j hj => (h.edges i j hj).trans (or_congr_right (hnew i j hj)) }

theorem noEdge_trans (h₁ : Wires m g g₁ noEdge) (h₂ : Wires m g₁ g₂ new) : Wires m g g₂ new :=
  (h₁.trans h₂).congr fun _ _ _ => or_iff_right id

theorem trans_noEdge (h₁ : Wires m g g₁ new) (h₂ : Wires m g₁ g₂ noEdge) : Wires m g g₂ new :=
  (h₁.trans h₂).congr fun _ _ _ => or_iff_left id

theorem grow {types : TypeStore} {hle : g.types ≤ types} {hw : types.WF} :
    Wires m g (g.grow types hle hw) noEdge := .of_le (.refl _) (fun _ _ => Iff.rfl) fun _ h => h

theorem report {e : LowerError} {he : e.Genuine} : Wires m g (g.report e he) noEdge :=
  .of_le (.refl _) (fun _ _ => Iff.rfl) fun _ h => h

theorem moveTo {i : BlockId} {hi : i.index < g.size} : Wires m g (g.moveTo i hi) noEdge :=
  .of_le (.moved _ i) (fun _ _ => Iff.rfl) fun _ h => h

theorem addBlock {atStart : LocalId → Prop}
    {h : ∀ id, id.index < g.builder.params.length → atStart id} :
    Wires m g (g.addBlock atStart h) noEdge :=
  .of_le (.withBlock _) (fun _ _ => Builder.edge_withBlock) fun _ => Builder.stops_withBlock

theorem push {type : TypeId} {operation : Operation} {h : g.Emits type operation}
    {htype : g.types.Proper type} : Wires m g (g.push type operation h htype) noEdge :=
  .of_le (.pushed h.opened type operation)
    (fun _ _ => Builder.edge_emitted (b := g.builder.withLocal type))
    fun _ => Builder.stops_emitted (b := g.builder.withLocal type)

theorem emit {type : TypeId} {operation : Operation} {h : g.Emits type operation}
    {htype : g.types.IsVoid type} : Wires m g (g.emit type operation h htype) noEdge :=
  .of_le (.emitted h.opened _) (fun _ _ => Builder.edge_emitted) fun _ => Builder.stops_emitted

theorem close {i : BlockId} {t : Terminator} {h : g.Closes i t} (ht : t ≠ .unreachable) :
    Wires m g (g.close i t h) fun i' j => i' = i ∧ j ∈ t.successors :=
  ⟨(Builder.Le.closed h.opened t).size, fun _ _ _ => Builder.edge_closed h.opened,
    fun _ => Builder.stops_closed ht⟩

theorem edge_new (h : Wires m g g' new) {i : BlockId} (j : BlockId) (hj : g.size ≤ j.index)
    (hm : j.index < m) : g'.builder.Edge i j ↔ new i j := by
  rw [h.edges i j hm]
  exact or_iff_right fun hedge => absurd (g.typed.targets i j hedge) (Nat.not_lt.mpr hj)

end Wires

/-! ## Falling through -/

/-- The cursor is on an open block that control can get to in the code. -/
def Live (g : Draft ctx) (f : Builder) (n : Nat) : Prop := g.Open g.cur ∧ f.ReachedIn n g.cur

/-- In the code, nothing more leads to the blocks that were made between the drafts. -/
def Keeps (g g' : Draft ctx) (f : Builder) : Prop :=
  ∀ i j, g.size ≤ j.index → j.index < g'.size → (f.Edge i j ↔ g'.builder.Edge i j)

theorem Keeps.part (h : Keeps g g' f) (hs : g.size ≤ s.size) (hw : Wires e.size e g' new)
    (hnew : ∀ i j, new i j → j.index < s.size ∨ e.size ≤ j.index) : Keeps s e f := by
  intro i j hlo hhi
  rw [h i j (Nat.le_trans hs hlo) (Nat.lt_of_lt_of_le hhi hw.size), hw.edges i j hhi]
  refine or_iff_left fun hij => ?_
  rcases hnew i j hij with hlt | hge
  · exact absurd hlo (Nat.not_le.mpr hlt)
  · exact absurd hhi (Nat.not_lt.mpr hge)

/-- The code between the drafts leads to no block that was there before, and control gets through it
exactly if `p` holds. -/
structure Falls (g g' : Draft ctx) (p : Prop) : Prop extends Wires g.size g g' noEdge where
  back : ∀ f, Keeps g g' f → ∀ n, g'.Live f n → p ∧ g.Live f n
  onward : ∀ f, Keeps g g' f → p → ∀ n, g.Live f n → ∃ k, g'.Live f k

namespace Falls

variable {p q : Prop}

theorem of_same (hw : Wires g.size g g' noEdge) (hcur : g'.cur = g.cur)
    (hopen : g'.Open g.cur ↔ g.Open g.cur) : Falls g g' True := by
  have hlive : ∀ f n, g'.Live f n ↔ g.Live f n := by
    intro f n
    rw [Live, Live, hcur, hopen]
  exact ⟨hw, fun f _ n h => ⟨trivial, (hlive f n).mp h⟩, fun f _ _ n h => ⟨n, (hlive f n).mpr h⟩⟩

theorem refl (g : Draft ctx) : Falls g g True := .of_same (.refl g) rfl Iff.rfl

theorem of_sealed (hw : Wires g.size g g' noEdge) (h : ¬ g'.Open g'.cur) : Falls g g' False :=
  ⟨hw, fun _ _ _ hlive => absurd hlive.1 h, fun _ _ hp => hp.elim⟩

theorem close {t : Terminator} {h : g.Closes g.cur t} (ht : t ≠ .unreachable)
    (hnone : t.successors = []) : Falls g (g.close g.cur t h) False := by
  refine .of_sealed ((Wires.close ht).congr fun i j _ => by simp [hnone]) fun hopen => ?_
  exact (Builder.open_closed.mp hopen).1 rfl

theorem congr (h : Falls g g' p) (hpq : p ↔ q) : Falls g g' q := propext hpq ▸ h

theorem trans (h₁ : Falls g g₁ p) (h₂ : Falls g₁ g₂ q) : Falls g g₂ (p ∧ q) := by
  have hleft : ∀ f, Keeps g g₂ f → Keeps g g₁ f := fun f h =>
    h.part (Nat.le_refl _) h₂.toWires fun _ _ hno => hno.elim
  have hright : ∀ f, Keeps g g₂ f → Keeps g₁ g₂ f := fun f h =>
    h.part h₁.size (.refl g₂) fun _ _ hno => hno.elim
  refine ⟨h₁.toWires.noEdge_trans (h₂.toWires.less h₁.size), fun f hf n hlive => ?_,
    fun f hf hpq n hlive => ?_⟩
  · obtain ⟨hq, hlive₁⟩ := h₂.back f (hright f hf) n hlive
    obtain ⟨hp, hlive₀⟩ := h₁.back f (hleft f hf) n hlive₁
    exact ⟨⟨hp, hq⟩, hlive₀⟩
  · obtain ⟨k, hlive₁⟩ := h₁.onward f (hleft f hf) hpq.1 n hlive
    exact h₂.onward f (hright f hf) hpq.2 k hlive₁

theorem afresh (hsealed : ¬ g.Open g.cur) {atStart : LocalId → Prop}
    {h : ∀ id, id.index < g.builder.params.length → atStart id} :
    Falls g ((g.addBlock atStart h).moveTo ⟨g.size⟩ g.newest) True := by
  refine ⟨Wires.addBlock.trans_noEdge .moveTo, fun f hf n hlive => ?_,
    fun _ _ _ n hlive => absurd hlive.1 hsealed⟩
  have hpos : 0 < g.size := Nat.lt_of_le_of_lt (Nat.zero_le _) g.inRange
  obtain ⟨_, i, _, _, hedge⟩ := hlive.2.last hpos
  have hlt : g.size < (g.addBlock atStart h).size := g.newest
  have hedge' := (hf i ⟨g.size⟩ (Nat.le_refl _) hlt).mp hedge
  exact absurd (g.typed.targets i _ (Builder.edge_withBlock.mp hedge')) (Nat.lt_irrefl _)

end Falls

/-- In the code, control gets from the end of the block to the end of the draft's exactly if `p`
holds. -/
structure Passes (f : Builder) (k : BlockId) (e : Draft ctx) (p : Prop) : Prop where
  back : ∀ n, e.Live f n → p ∧ f.ReachedIn n k
  onward : p → ∀ n, f.ReachedIn n k → ∃ n', e.Live f n'

variable {p : Prop} {k : BlockId}

theorem pos_of_new (g : Draft ctx) {i : BlockId} (h : g.size ≤ i.index) : 0 < i.index :=
  Nat.lt_of_le_of_lt (Nat.zero_le _) (Nat.lt_of_lt_of_le g.inRange h)

theorem Falls.passes (h : Falls s e p) (hk : Keeps s e f) (hopen : s.Open s.cur) :
    Passes f s.cur e p where
  back n hlive := ⟨(h.back f hk n hlive).1, (h.back f hk n hlive).2.2⟩
  onward hp n hn := h.onward f hk hp n ⟨hopen, hn⟩

theorem Passes.jump {i : BlockId} (h : Passes f k e p) (hk : 0 < k.index)
    (hedge : ∀ i', f.Edge i' k ↔ i' = i) : Passes f i e p where
  back n hlive := by
    obtain ⟨hp, hn⟩ := h.back n hlive
    obtain ⟨m, i', hm, hi', hi'k⟩ := hn.last hk
    obtain rfl := (hedge i').mp hi'k
    exact ⟨hp, hi'.mono (Nat.le_of_lt hm)⟩
  onward hp n hn := h.onward hp (n + 1) (.edge hn ((hedge i).mpr rfl))

theorem Passes.join {i : BlockId} {w : BlockId → Prop} (hopen : e.Open e.cur)
    (hpos : 0 < e.cur.index) (hedge : ∀ i', f.Edge i' e.cur ↔ w i')
    (hback : ∀ i' n, w i' → f.ReachedIn n i' → p ∧ f.ReachedIn n i)
    (honward : p → ∀ n, f.ReachedIn n i → ∃ i' k, w i' ∧ f.ReachedIn k i') :
    Passes f i e p where
  back n hlive := by
    obtain ⟨m, i', hm, hi', hedge'⟩ := hlive.2.last hpos
    obtain ⟨hp, hn⟩ := hback i' m ((hedge i').mp hedge') hi'
    exact ⟨hp, hn.mono (Nat.le_of_lt hm)⟩
  onward hp n hn := by
    obtain ⟨i', k, hway, hi'⟩ := honward hp n hn
    exact ⟨k + 1, hopen, .edge hi' ((hedge i').mpr hway)⟩

theorem Falls.of_passes (hw : Wires g.size g g' noEdge) (hopen : g.Open g.cur)
    (h : ∀ f, Keeps g g' f → Passes f g.cur g' p) : Falls g g' p :=
  ⟨hw, fun f hf n hlive => ⟨((h f hf).back n hlive).1, hopen, ((h f hf).back n hlive).2⟩,
    fun f hf hp n hlive => (h f hf).onward hp n hlive.2⟩

/-- Code with other ways out than its end. They lead to some of the given blocks: to those for which
`exits` holds, if control gets to the code, and to no other from where control comes. -/
structure WaysBy (ks : List BlockId) (g g' : Draft ctx) (new : BlockId → BlockId → Prop)
    (exits : BlockId → Prop) (p : Prop) : Prop extends Wires g.size g g' new where
  bound : ∀ k ∈ ks, k.index < g.size
  targets : ∀ i j, new i j → j ∈ ks
  back : ∀ f, Keeps g g' f → ∀ n, g'.Live f n → p ∧ g.Live f n
  onward : ∀ f, Keeps g g' f → p → ∀ n, g.Live f n → ∃ k, g'.Live f k
  leaves : ∀ f, Keeps g g' f → ∀ i j n, new i j → f.ReachedIn n i → exits j ∧ g.Live f n
  enters : ∀ f, Keeps g g' f → ∀ j, exits j → ∀ n, g.Live f n → ∃ i k, new i j ∧ f.ReachedIn k i

def Ways (ks : List BlockId) (g g' : Draft ctx) (exits : BlockId → Prop) (p : Prop) : Prop :=
  ∃ new, WaysBy ks g g' new exits p

variable {q : Prop} {exits exits' : BlockId → Prop} {ks : List BlockId}

theorem Falls.ways (h : Falls g g' p) (hks : ∀ k ∈ ks, k.index < g.size) :
    Ways ks g g' (fun _ => False) p :=
  ⟨noEdge, h.toWires, hks, fun _ _ hno => hno.elim, h.back, h.onward, fun _ _ _ _ _ hno => hno.elim,
    fun _ _ _ hno => hno.elim⟩

theorem Ways.congr (h : Ways ks g g' exits p) (hexits : ∀ j, exits j ↔ exits' j) (hpq : p ↔ q) :
    Ways ks g g' exits' q := by
  obtain rfl : exits = exits' := funext fun j => propext (hexits j)
  obtain rfl := propext hpq
  exact h

theorem Ways.trans (h₁ : Ways ks g g₁ exits p) (h₂ : Ways ks g₁ g₂ exits' q) :
    Ways ks g g₂ (fun j => exits j ∨ (p ∧ exits' j)) (p ∧ q) := by
  obtain ⟨new, h₁⟩ := h₁
  obtain ⟨new', h₂⟩ := h₂
  have hleft : ∀ f, Keeps g g₂ f → Keeps g g₁ f := fun f h =>
    h.part (Nat.le_refl _) h₂.toWires fun i j hij =>
      .inl (h₁.bound j (h₂.targets i j hij))
  have hright : ∀ f, Keeps g g₂ f → Keeps g₁ g₂ f := fun f h =>
    h.part h₁.size (.refl g₂) fun _ _ hno => hno.elim
  refine ⟨_, h₁.toWires.trans (h₂.toWires.less h₁.size), h₁.bound,
    fun i j hij => hij.elim (h₁.targets i j) (h₂.targets i j), fun f hf n hlive => ?_,
    fun f hf hpq n hlive => ?_, fun f hf i j n hij hn => ?_, fun f hf j hj n hlive => ?_⟩
  · obtain ⟨hq, hlive₁⟩ := h₂.back f (hright f hf) n hlive
    obtain ⟨hp, hlive₀⟩ := h₁.back f (hleft f hf) n hlive₁
    exact ⟨⟨hp, hq⟩, hlive₀⟩
  · obtain ⟨k, hlive₁⟩ := h₁.onward f (hleft f hf) hpq.1 n hlive
    exact h₂.onward f (hright f hf) hpq.2 k hlive₁
  · rcases hij with hij | hij
    · exact (h₁.leaves f (hleft f hf) i j n hij hn).imp_left .inl
    · obtain ⟨hj, hlive₁⟩ := h₂.leaves f (hright f hf) i j n hij hn
      obtain ⟨hp, hlive₀⟩ := h₁.back f (hleft f hf) n hlive₁
      exact ⟨.inr ⟨hp, hj⟩, hlive₀⟩
  · rcases hj with hj | ⟨hp, hj⟩
    · obtain ⟨i, k, hij, hk⟩ := h₁.enters f (hleft f hf) j hj n hlive
      exact ⟨i, k, .inl hij, hk⟩
    · obtain ⟨k, hlive₁⟩ := h₁.onward f (hleft f hf) hp n hlive
      obtain ⟨i, k', hij, hk'⟩ := h₂.enters f (hright f hf) j hj k hlive₁
      exact ⟨i, k', .inr hij, hk'⟩

theorem ways_br {h : g.Closes g.cur (.br k)} (hk : k ∈ ks) (hks : ∀ k ∈ ks, k.index < g.size) :
    Ways ks g (g.close g.cur _ h) (fun j => j = k) False := by
  have hw : Wires g.size g (g.close g.cur _ h) fun i j => i = g.cur ∧ j = k :=
    (Wires.close (by simp)).congr fun i j _ => by simp [Terminator.successors]
  refine ⟨_, hw, hks, fun i j hij => hij.2 ▸ hk, fun f _ n hlive => ?_, fun _ _ hno => hno.elim,
    fun f _ i j n hij hn => ?_, fun f _ j hj n hlive => ⟨g.cur, n, ⟨rfl, hj⟩, hlive.2⟩⟩
  · exact absurd rfl (Builder.open_closed.mp hlive.1).1
  · obtain ⟨rfl, rfl⟩ := hij
    exact ⟨rfl, h.opened, hn⟩

end Draft

end Midend
