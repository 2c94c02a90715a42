import Midend.Proofs.Scene

/-!
# Midend.Proofs.Params

The parameters of a function, before there is code. They are its first locals, in order, and the
scope holds those that have a name. On the side of the source the same names have the values of the
arguments (`bindParams_bound`).
-/

namespace Midend

open Ir

namespace Ir.Builder

/-- A function that has parameters of the types, and nothing else. -/
structure Headed (b : Builder) (types : List TypeId) : Prop where
  blocks : b.blocks = #[Block.fresh ⟨0⟩]
  cursor : b.cursor = ⟨0⟩
  params : b.params = (List.range types.length).map LocalId.mk
  size : b.locals.size = types.length
  locals : ∀ id l, b.local? id = some l →
    l.id = id ∧ l.isParam = true ∧ types[id.index]? = some l.type

namespace Headed

variable {b : Builder} {types : List TypeId}

theorem start (name : String) (ret : TypeId) : (Builder.start name ret).Headed [] :=
  ⟨rfl, rfl, rfl, rfl, fun id l hl => by simp [local?, Builder.start] at hl⟩

theorem withParam (h : b.Headed types) (name : Option String) (type : TypeId) :
    (b.withParam name type).Headed (types ++ [type]) := by
  refine ⟨h.blocks, h.cursor, ?_, ?_, fun id l hl => ?_⟩
  · show b.params ++ [⟨b.locals.size⟩] = _
    rw [h.params, h.size, List.length_append, List.length_singleton, List.range_succ,
      List.map_append]
    rfl
  · show (b.locals.push _).size = _
    rw [Array.size_push, h.size, List.length_append, List.length_singleton]
  · have hl' : (b.locals.push ⟨⟨b.locals.size⟩, name, type, true⟩)[id.index]? = some l := hl
    rw [Array.getElem?_push] at hl'
    split at hl'
    · rename_i hid
      cases hl'
      refine ⟨by cases id; cases hid; rfl, rfl, ?_⟩
      rw [hid, h.size]
      simp
    · obtain ⟨hid, hparam, htype⟩ := h.locals id l hl'
      refine ⟨hid, hparam, ?_⟩
      obtain ⟨hlt, _⟩ := List.getElem?_eq_some_iff.mp htype
      rw [List.getElem?_append_left hlt]
      exact htype

theorem length_params (h : b.Headed types) : b.params.length = types.length := by
  rw [h.params]
  simp

theorem block?_eq (h : b.Headed types) {i : BlockId} {blk : Block} (hblk : b.block? i = some blk) :
    i = ⟨0⟩ ∧ blk = Block.fresh ⟨0⟩ := by
  have hget : b.blocks[i.index]? = some blk := hblk
  rw [h.blocks] at hget
  obtain ⟨hlt, hblk⟩ := Array.getElem?_eq_some_iff.mp hget
  have hi : i.index = 0 := by simpa using hlt
  refine ⟨index_inj hi, ?_⟩
  rw [← hblk]
  simp [hi]

theorem block?_entry (h : b.Headed types) : b.block? ⟨0⟩ = some (Block.fresh ⟨0⟩) := by
  show b.blocks[0]? = _
  rw [h.blocks]
  rfl

theorem not_edge (h : b.Headed types) (i j : BlockId) : ¬ b.Edge i j := by
  rintro ⟨blk, hblk, hj⟩
  obtain ⟨_, rfl⟩ := h.block?_eq hblk
  simp [Block.fresh, Block.successors] at hj

end Headed

end Ir.Builder

/-- The scope with parameters that are numbered from `n`. -/
def bindParams (n : Nat) : List (Option String × TypeId) → Scope → Scope
  | [], scope => scope
  | (some name, type) :: rest, scope =>
    bindParams (n + 1) rest (if name = "_" then scope else (name, .ofLocal ⟨n⟩ type) :: scope)
  | (none, _) :: rest, scope => bindParams (n + 1) rest scope

theorem Lower.run_addParams (ps : List (Option String × TypeId)) {b : Builder}
    {types : List TypeId} (h : b.Headed types) (scope : Scope) :
    ∃ b', (Lower.addParams scope ps).run b = .ok (bindParams types.length ps scope, b') ∧
      b'.Headed (types ++ ps.map Prod.snd) ∧ b'.name = b.name ∧ b'.ret = b.ret := by
  induction ps generalizing b types scope with
  | nil => exact ⟨b, rfl, by simpa using h, rfl, rfl⟩
  | cons p rest ih =>
    obtain ⟨name, type⟩ := p
    have hlength : (types ++ [type]).length = types.length + 1 := by simp
    -- What is left to add comes after the new parameter, in the scope that has it.
    have hrest : ∀ name' scope', ∃ b',
        (Lower.addParams scope' rest).run (b.withParam name' type) =
          .ok (bindParams (types.length + 1) rest scope', b') ∧
        b'.Headed (types ++ type :: rest.map Prod.snd) ∧ b'.name = b.name ∧ b'.ret = b.ret := by
      intro name' scope'
      obtain ⟨b', hrun, hhead, hname, hret⟩ := ih (h.withParam name' type) scope'
      rw [hlength] at hrun
      rw [List.append_assoc] at hhead
      exact ⟨b', hrun, hhead, hname, hret⟩
    cases name with
    | none =>
      obtain ⟨b', hrun, hrest⟩ := hrest none scope
      exact ⟨b', hrun, hrest⟩
    | some name =>
      by_cases hblank : name = "_"
      · obtain ⟨b', hrun, hrest⟩ := hrest none scope
        refine ⟨b', ?_, hrest⟩
        rw [Lower.addParams, if_pos hblank, bindParams, if_pos hblank]
        exact hrun
      · obtain ⟨b', hrun, hrest⟩ :=
          hrest (some name) ((name, .ofLocal ⟨types.length⟩ type) :: scope)
        refine ⟨b', ?_, hrest⟩
        rw [Lower.addParams, if_neg hblank, bindParams, if_neg hblank, ← h.size]
        rw [← h.size] at hrun
        exact hrun

theorem bindParams_ofLocal {types : List TypeId} (n : Nat) (ps : List (Option String × TypeId))
    (scope : Scope) (hps : ∀ i p, ps[i]? = some p → types[n + i]? = some p.2)
    (hscope : ∀ p ∈ scope, ∃ i type, p.2 = Value.ofLocal ⟨i⟩ type ∧ types[i]? = some type) :
    ∀ p ∈ bindParams n ps scope,
      ∃ i type, p.2 = Value.ofLocal ⟨i⟩ type ∧ types[i]? = some type := by
  induction ps generalizing n scope with
  | nil => exact hscope
  | cons p rest ih =>
    obtain ⟨name, type⟩ := p
    have hrest : ∀ i p, rest[i]? = some p → types[n + 1 + i]? = some p.2 := by
      intro i p hp
      rw [Nat.add_assoc, Nat.add_comm 1 i]
      exact hps (i + 1) p (by simpa using hp)
    cases name with
    | none => exact ih (n + 1) scope hrest hscope
    | some name =>
      refine ih (n + 1) _ hrest fun p hp => ?_
      split at hp
      · exact hscope p hp
      · rcases List.mem_cons.mp hp with rfl | hp
        · exact ⟨n, type, rfl, hps 0 _ rfl⟩
        · exact hscope p hp

section

variable {V : Type}

/-- A name with a parameter, and the same name with the value of the argument. -/
def Bound (types : List TypeId) (data : List (Datum V)) (p : String × Value)
    (q : String × Datum V) : Prop :=
  p.1 = q.1 ∧ ∃ i type, p.2 = .ofLocal ⟨i⟩ type ∧ types[i]? = some type ∧ data[i]? = some q.2

theorem bindParams_bound {types : List TypeId} {data : List (Datum V)} (n : Nat)
    (names : List (Option String)) (ts : List TypeId) (xs : List (Datum V)) {scope : Scope}
    {acc : Names V} (hts : ∀ i t, ts[i]? = some t → types[n + i]? = some t)
    (hxs : ∀ i x, xs[i]? = some x → data[n + i]? = some x) (hlength : xs.length = ts.length)
    (h : List.Forall₂ (Bound types data) scope acc) :
    List.Forall₂ (Bound types data) (bindParams n (names.zip ts) scope)
      (boundNames names xs ++ acc) := by
  induction names generalizing n ts xs scope acc with
  | nil => simpa [bindParams, boundNames] using h
  | cons name rest ih =>
    cases ts with
    | nil =>
      obtain rfl := List.length_eq_zero_iff.mp hlength
      simpa [bindParams, boundNames] using h
    | cons t ts =>
      cases xs with
      | nil => simp at hlength
      | cons x xs =>
        have hlength' : xs.length = ts.length := by simpa using hlength
        have hts' : ∀ i t, ts[i]? = some t → types[n + 1 + i]? = some t := by
          intro i t' ht
          rw [Nat.add_assoc, Nat.add_comm 1 i]
          exact hts (i + 1) t' (by simpa using ht)
        have hxs' : ∀ i x, xs[i]? = some x → data[n + 1 + i]? = some x := by
          intro i x' hx
          rw [Nat.add_assoc, Nat.add_comm 1 i]
          exact hxs (i + 1) x' (by simpa using hx)
        cases name with
        | none =>
          have := ih (n + 1) ts xs hts' hxs' hlength' h
          simpa [bindParams, boundNames] using this
        | some name =>
          by_cases hblank : name = "_"
          · have := ih (n + 1) ts xs hts' hxs' hlength' h
            simpa [bindParams, boundNames, hblank] using this
          · have hnew : Bound types data (name, .ofLocal ⟨n⟩ t) (name, x) :=
              ⟨rfl, n, t, rfl, hts 0 t rfl, hxs 0 x rfl⟩
            have := ih (n + 1) ts xs hts' hxs' hlength' (.cons hnew h)
            simpa [bindParams, boundNames, hblank] using this

theorem lookup_of_bound {types : List TypeId} {data : List (Datum V)} {scope : Scope}
    {names : Names V} (h : List.Forall₂ (Bound types data) scope names) (name : String) :
    (∀ v, scope.lookup name = some v → ∃ x, names.lookup name = some x ∧
        ∃ i type, v = .ofLocal ⟨i⟩ type ∧ types[i]? = some type ∧ data[i]? = some x) ∧
      (scope.lookup name = none → names.lookup name = none) := by
  induction h with
  | nil => exact ⟨fun v hv => by simp at hv, fun _ => rfl⟩
  | @cons p q scope names hpq _ ih =>
    obtain ⟨hname, hrest⟩ := hpq
    obtain ⟨pname, v⟩ := p
    obtain ⟨qname, x⟩ := q
    obtain rfl : pname = qname := hname
    by_cases heq : name = pname
    · subst heq
      refine ⟨fun v' hv => ?_, fun hnone => by simp at hnone⟩
      obtain rfl : v = v' := by simpa using hv
      exact ⟨x, by simp, hrest⟩
    · have hne : (name == pname) = false := by simpa using heq
      simp only [List.lookup_cons, hne]
      exact ih

end

end Midend
