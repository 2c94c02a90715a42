import Midend.Proofs.Opens

/-!
# Midend.Proofs.Rounds

Where the blocks of a loop lead. The loop is entered by a jump to its first block, and each of its
parts (`Leg`) ends with a jump to blocks that were made before all of them. The end of a round leads
back to the condition. Still, control gets to the condition only if it gets through the start of the
loop (`passes_condition`).
-/

namespace Midend

open Ir

namespace Draft

variable {ctx : FnContext} {g a e f n s : Draft ctx} {b : Builder} {m : Nat}
  {p pInit pBody pPost exits : Prop} {targets : List BlockId}

/-- What comes after the first draft jumps to none of its blocks but the first `m`. -/
def Within (m : Nat) (e f : Draft ctx) : Prop :=
  ∃ new, Wires e.size e f new ∧ ∀ i j, new i j → j.index < m

theorem Within.refl (e : Draft ctx) : Within m e e := ⟨noEdge, .refl e, fun _ _ h => h.elim⟩

theorem Within.trans (h₁ : Within m e n) (h₂ : Within m n f) : Within m e f := by
  obtain ⟨new₁, hw₁, hm₁⟩ := h₁
  obtain ⟨new₂, hw₂, hm₂⟩ := h₂
  exact ⟨_, hw₁.trans (hw₂.less hw₁.size), fun i j h => h.elim (hm₁ i j) (hm₂ i j)⟩

theorem Within.keeps (h : Within m e f) (hb : Keeps g f b) (hg : g.size ≤ m) (hs : m ≤ s.size) :
    Keeps s e b := by
  obtain ⟨new, hw, hm⟩ := h
  exact hb.part (Nat.le_trans hg hs) hw fun i j h => .inl (Nat.lt_of_lt_of_le (hm i j h) hs)

/-- A part of a loop from `s` to `e`, and jumps to `targets` where control falls through. At `n` the
next part begins. -/
structure Leg (m : Nat) (s e n : Draft ctx) (p : Prop) (targets : List BlockId) : Prop where
  falls : Falls s e p
  opened : s.Open s.cur
  size : m ≤ s.size
  leaves : ∀ m, Wires m e n fun i j => (e.Open e.cur ∧ i = e.cur) ∧ j ∈ targets
  bound : ∀ k ∈ targets, k.index < m

namespace Leg

theorem wires (h : Leg m s e n p targets) :
    Wires m s n fun i j => (e.Open e.cur ∧ i = e.cur) ∧ j ∈ targets :=
  (h.falls.less h.size).noEdge_trans (h.leaves m)

theorem within_leaves (h : Leg m s e n p targets) : Within m e n :=
  ⟨_, h.leaves e.size, fun _ j hij => h.bound j hij.2⟩

theorem within (h : Leg m s e n p targets) : Within m s n :=
  Within.trans ⟨noEdge, h.falls.toWires, fun _ _ hno => hno.elim⟩ h.within_leaves

theorem passes (h : Leg m s e n p targets) (hn : Within m n f) (hb : Keeps g f b)
    (hg : g.size ≤ m) : Passes b s.cur e p :=
  h.falls.passes ((h.within_leaves.trans hn).keeps hb hg h.size) h.opened

end Leg

/-- The end of a round leads back to the condition, but the first time control comes from the
start. By induction on the number of jumps. -/
theorem passes_condition {i c k k' : BlockId} {e₀ e₁ e₂ e₃ : Draft ctx}
    (hinit : Passes b i e₀ pInit) (hcond : Passes b c e₁ True) (hopen : e₁.Open e₁.cur)
    (hbody : Passes b k e₂ pBody) (hpost : Passes b k' e₃ pPost)
    (hc : 0 < c.index) (hk : 0 < k.index) (hk' : 0 < k'.index)
    (hcEdge : ∀ x, b.Edge x c ↔ (e₀.Open e₀.cur ∧ x = e₀.cur) ∨ (e₃.Open e₃.cur ∧ x = e₃.cur))
    (hkEdge : ∀ x, b.Edge x k ↔ x = e₁.cur)
    (hkEdge' : ∀ x, b.Edge x k' ↔ e₂.Open e₂.cur ∧ x = e₂.cur) : Passes b i e₁ pInit where
  back n hlive := by
    have hback : ∀ n, b.ReachedIn n c → pInit ∧ b.ReachedIn n i := by
      intro n
      induction n using Nat.strongRecOn with
      | ind n ih =>
        intro hn
        obtain ⟨m₁, x, hm₁, hx, hedge⟩ := hn.last hc
        rcases (hcEdge x).mp hedge with ⟨hopen₀, rfl⟩ | ⟨hopen₃, rfl⟩
        · exact (hinit.back m₁ ⟨hopen₀, hx⟩).imp_right fun h => h.mono (Nat.le_of_lt hm₁)
        · obtain ⟨_, hpostStart⟩ := hpost.back m₁ ⟨hopen₃, hx⟩
          obtain ⟨m₂, x, hm₂, hx, hedge⟩ := hpostStart.last hk'
          obtain ⟨hopen₂, rfl⟩ := (hkEdge' x).mp hedge
          obtain ⟨_, hbodyStart⟩ := hbody.back m₂ ⟨hopen₂, hx⟩
          obtain ⟨m₃, x, hm₃, hx, hedge⟩ := hbodyStart.last hk
          obtain rfl := (hkEdge x).mp hedge
          obtain ⟨_, hround⟩ := hcond.back m₃ ⟨hopen, hx⟩
          have hless : m₃ < n := by omega
          exact (ih m₃ hless hround).imp_right fun h => h.mono (Nat.le_of_lt hless)
    exact hback n (hcond.back n hlive).2
  onward hp n hn := by
    obtain ⟨k₁, hopen₀, hk₁⟩ := hinit.onward hp n hn
    exact hcond.onward trivial (k₁ + 1) (.edge hk₁ ((hcEdge _).mpr (.inl ⟨hopen₀, rfl⟩)))

/-- Control leaves a loop exactly if it gets through its start, and there is a way out of the
condition. The first blocks are made at `a`, and entered from `e`. -/
theorem falls_loop {i c k k' : BlockId} {i₀ i₁ c₀ c₁ b₀ b₁ p₀ p₁ : Draft ctx}
    {ways : List BlockId} (hold : Wires a.size g a noEdge)
    (hlive : ∀ b n, a.Live b n ↔ g.Live b n) (hstart : Falls a e True) (hopen : e.Open e.cur)
    (henter : ∀ m, Wires m e i₀ fun x j => x = e.cur ∧ j = i)
    (hinit : Leg a.size i₀ i₁ c₀ pInit [c]) (hcond : Leg a.size c₀ c₁ b₀ True ways)
    (hbody : Leg a.size b₀ b₁ p₀ pBody [k']) (hpost : Leg a.size p₀ p₁ f pPost [c])
    (hcondOpen : c₁.Open c₁.cur) (hend : f.Open f.cur) (hi : i₀.cur = i) (hc : c₀.cur = c)
    (hk : b₀.cur = k) (hk' : p₀.cur = k') (hnodup : [f.cur, k', k, c, i].Nodup)
    (hnew : ∀ j ∈ [f.cur, k', k, c, i], g.size ≤ j.index ∧ j.index < a.size)
    (hways : ∀ j, j ∈ ways ↔ j = k ∨ (exits ∧ j = f.cur)) : Falls g f (pInit ∧ exits) := by
  have hw := hold.noEdge_trans ((hstart.noEdge_trans (henter a.size)).trans
    (hinit.wires.trans (hcond.wires.trans (hbody.wires.trans hpost.wires))))
  have hlast : Within a.size i₀ f :=
    hinit.within.trans (hcond.within.trans (hbody.within.trans hpost.within))
  have hfirst : Within a.size e f := Within.trans ⟨_, henter e.size, fun x j hxj => by
    rw [hxj.2]
    exact (hnew i (by simp)).2⟩ hlast
  have hsize : a.size ≤ f.size := by
    obtain ⟨_, hafter, _⟩ := hfirst
    exact Nat.le_trans hstart.size hafter.size
  have hg : g.size ≤ a.size := hold.size
  have hpos : ∀ j ∈ [f.cur, k', k, c, i], 0 < j.index := fun j hj => g.pos_of_new (hnew j hj).1
  simp only [List.nodup_cons, List.mem_cons, List.not_mem_nil, or_false, not_or] at hnodup
  obtain ⟨⟨hfk', hfk, hfc, hfi⟩, ⟨hk'k, hk'c, hk'i⟩, ⟨hkc, hki⟩, hci, _⟩ := hnodup
  have hpasses : ∀ b, Keeps g f b → Passes b e.cur f (pInit ∧ exits) := by
    intro b hb
    have hedge : ∀ x j, j ∈ [f.cur, k', k, c, i] → (b.Edge x j ↔ _) := fun x j hj =>
      (hb x j (hnew j hj).1 (Nat.lt_of_lt_of_le (hnew j hj).2 hsize)).trans
        (hw.edge_new j (hnew j hj).1 (hnew j hj).2)
    have hcondition : Passes b e.cur c₁ pInit := by
      refine (passes_condition
        (hi ▸ hinit.passes (hcond.within.trans (hbody.within.trans hpost.within)) hb hg)
        (hc ▸ hcond.passes (hbody.within.trans hpost.within) hb hg) hcondOpen
        (hk ▸ hbody.passes hpost.within hb hg) (hk' ▸ hpost.passes (.refl f) hb hg)
        (hpos c (by simp)) (hpos k (by simp)) (hpos k' (by simp)) (fun x => ?_) (fun x => ?_)
        fun x => ?_).jump (hpos i (by simp)) fun x => ?_
      · rw [hedge x c (by simp)]
        simp [hways, hci, Ne.symm hkc, Ne.symm hfc, Ne.symm hk'c]
      · rw [hedge x k (by simp)]
        simp [hways, hki, hkc, Ne.symm hfk, Ne.symm hk'k, hcondOpen]
      · rw [hedge x k' (by simp)]
        simp [hways, hk'i, hk'c, hk'k, Ne.symm hfk']
      · rw [hedge x i (by simp)]
        simp [hways, Ne.symm hci, Ne.symm hki, Ne.symm hfi, Ne.symm hk'i]
    refine .join (w := fun x => exits ∧ x = c₁.cur) hend (hpos f.cur (by simp)) (fun x => ?_)
      ?_ ?_
    · rw [hedge x f.cur (by simp)]
      simp [hways, hfi, hfc, hfk, hfk', hcondOpen, and_comm]
    · rintro _ n ⟨hexits, rfl⟩ hn
      exact (hcondition.back n ⟨hcondOpen, hn⟩).imp_left fun hp => ⟨hp, hexits⟩
    · rintro ⟨hp, hexits⟩ n hn
      obtain ⟨n', _, hn'⟩ := hcondition.onward hp n hn
      exact ⟨c₁.cur, n', ⟨hexits, rfl⟩, hn'⟩
  refine ⟨(hw.less hg).congr fun x j hj => ?_, fun b hb n hf => ?_, fun b hb hp n hlive₀ => ?_⟩
  · have hno : j ∉ [f.cur, k', k, c, i] := fun hmem => absurd hj (Nat.not_lt.mpr (hnew j hmem).1)
    simp only [List.mem_cons, List.not_mem_nil, or_false, not_or] at hno
    simp [hways, hno]
  · obtain ⟨hp, hn⟩ := (hpasses b hb).back n hf
    exact ⟨hp, (hlive b n).mp (hstart.back b (hfirst.keeps hb hg (Nat.le_refl _)) n ⟨hopen, hn⟩).2⟩
  · obtain ⟨n', hn'⟩ :=
      hstart.onward b (hfirst.keeps hb hg (Nat.le_refl _)) trivial n ((hlive b n).mpr hlive₀)
    exact (hpasses b hb).onward hp n' hn'.2

end Draft

end Midend
