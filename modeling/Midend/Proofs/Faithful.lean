import Midend.Proofs.Body

/-!
# Midend.Proofs.Faithful

The code of a function does what its body does (`Implements`). A body is run with fuel, and its code
without: the code has taken as many steps as there was fuel where the body runs out of it, so that
both come to an end, or neither does (`Implements.of_runs`).
-/

namespace Midend

open Ir

variable {V : Type}

/-- The body has a meaning, its code does not get stuck, and both return the same after the same
calls, or neither returns. -/
structure Implements (m : Machine V) (w : World V) (decl : FuncDecl) (body : Stmt) (args : List V)
    (past : List (Call V)) : Prop where
  meaning : ∀ fuel, ∃ o calls, decl.run w body args past fuel = some (o, calls)
  progress : ∀ n c, m.Steps n (m.start args past) c → m.step c ≠ .stuck
  returns : ∀ value calls,
    decl.Returns w body args past value calls ↔ m.Returns (m.start args past) value calls

/-- How a run of the code is to end, by the outcome of the body. -/
def Machine.Ends (m : Machine V) (c : Point V) (fuel : Nat) : Outcome V → List (Call V) → Prop
  | .normal, calls => m.Returns c none calls
  | .returned value, calls => m.Returns c value calls
  | .timeout, _ => ∃ n c', fuel ≤ n ∧ m.Steps n c c'

theorem Implements.of_runs {m : Machine V} {w : World V} {decl : FuncDecl} {body : Stmt}
    {args : List V} {past : List (Call V)}
    (h : ∀ fuel, ∃ o calls, decl.run w body args past fuel = some (o, calls) ∧
      Machine.Ends m (m.start args past) fuel o calls) :
    Implements m w decl body args past where
  meaning fuel := by
    obtain ⟨o, calls, hrun, _⟩ := h fuel
    exact ⟨o, calls, hrun⟩
  progress n c hn := by
    obtain ⟨o, calls, _, hends⟩ := h (n + 1)
    cases o with
    | normal => exact Machine.Returns.not_stuck hends hn
    | returned value => exact Machine.Returns.not_stuck hends hn
    | timeout =>
      obtain ⟨k, c', hk, hsteps⟩ := hends
      have hon := hn.split hsteps (Nat.le_of_succ_le hk)
      intro hstuck
      obtain ⟨j, hj⟩ : ∃ j, k - n = j + 1 := ⟨k - n - 1, by omega⟩
      rw [hj] at hon
      cases hon with
      | cons hstep _ =>
        rw [hstuck] at hstep
        cases hstep
  returns value calls := by
    constructor
    · rintro ⟨fuel, hreturned⟩
      obtain ⟨o, calls', hrun, hends⟩ := h fuel
      rcases hreturned with hreturned | ⟨hnormal, rfl⟩
      · rw [hreturned] at hrun
        cases hrun
        exact hends
      · rw [hnormal] at hrun
        cases hrun
        exact hends
    · intro hreturns
      obtain ⟨n, c, hn, hdone⟩ := id hreturns
      -- With more fuel than the code takes steps, the body does not run out of it.
      obtain ⟨o, calls', hrun, hends⟩ := h (n + 1)
      cases o with
      | normal =>
        obtain ⟨rfl, rfl⟩ := hreturns.unique hends
        exact ⟨n + 1, .inr ⟨hrun, rfl⟩⟩
      | returned value' =>
        obtain ⟨rfl, rfl⟩ := hreturns.unique hends
        exact ⟨n + 1, .inl hrun⟩
      | timeout =>
        obtain ⟨k, c', hk, hsteps⟩ := hends
        have := (hn.le_of_done hdone hsteps).1
        omega

theorem exists_bodies {types : TypeStore} {ids : List TypeId} (h : ∀ id ∈ ids, types.Has id) :
    ∃ tys, ids.mapM types.body? = some tys ∧ tys.length = ids.length ∧
      ∀ (i : Nat) (id : TypeId) (t : Ty), ids[i]? = some id → tys[i]? = some t →
        types.body? id = some t := by
  induction ids with
  | nil => exact ⟨[], rfl, rfl, by simp⟩
  | cons id rest ih =>
    obtain ⟨t, ht⟩ := h id (by simp)
    obtain ⟨tys, htys, hlength, hbodies⟩ := ih fun id' hid' => h id' (by simp [hid'])
    refine ⟨t :: tys, by simp [ht, htys], by simp [hlength], fun i id' t' hid htype => ?_⟩
    cases i with
    | zero =>
      obtain rfl : id = id' := by simpa using hid
      obtain rfl : t = t' := by simpa using htype
      exact ht
    | succ i => exact hbodies i id' t' (by simpa using hid) (by simpa using htype)

theorem idxOf?_param {n i : Nat} (h : i < n) :
    ((List.range n).map LocalId.mk).idxOf? ⟨i⟩ = some i := by
  refine List.findIdx?_eq_some_iff_getElem.mpr ⟨by simpa using h, by simp, fun j hj => ?_⟩
  simp
  omega

theorem start_locals {m : Machine V} {n : Nat}
    (hparams : m.code.params = (List.range n).map LocalId.mk) {i : Nat} (hi : i < n)
    (args : List V) (calls : List (Call V)) :
    (m.start args calls).locals ⟨i⟩ = args[i]? := by
  show (m.code.params.idxOf? ⟨i⟩).bind (fun i => args[i]?) = _
  rw [hparams, idxOf?_param hi]
  rfl

section

variable {ctx : Context} {decl : FuncDecl} {sig : Signature}
  {g₀ g f : Draft (bodyContext ctx decl sig)}

def argNames (decl : FuncDecl) (args : List V) (tys : List Ty) : Names V :=
  boundNames ((Field.flatten decl.params).map Prod.fst) (List.zipWith Datum.mk args tys)

theorem scope_bound {args : List V} {tys : List Ty} (hargs : args.length = sig.params.length)
    (hlength : tys.length = sig.params.length) :
    List.Forall₂ (Bound sig.params (List.zipWith Datum.mk args tys))
      (bodyContext ctx decl sig).scope (argNames decl args tys) := by
  have hbound := @bindParams_bound _ sig.params (List.zipWith Datum.mk args tys) 0
    ((Field.flatten decl.params).map Prod.fst) sig.params (List.zipWith Datum.mk args tys) [] []
    (fun i t ht => by simpa using ht) (fun i x hx => by simpa using hx)
    (by simp [hargs, hlength]) .nil
  rwa [List.append_nil] at hbound

/-- A machine with finished code, on arguments of the parameters' types. -/
def callScene (m : Machine V) {args : List V} {tys : List Ty} {ret : Ty}
    (hparams : m.code.params = (List.range sig.params.length).map LocalId.mk)
    (hret : m.types.body? m.code.ret = some ret) (hargs : args.length = sig.params.length)
    (hlength : tys.length = sig.params.length)
    (htys : ∀ (i : Nat) (id : TypeId) (t : Ty), sig.params[i]? = some id → tys[i]? = some t →
      m.types.body? id = some t) :
    Scene (bodyContext ctx decl sig) V where
  toMachine := m
  names := argNames decl args tys
  args := (m.start args []).locals
  ret := ret
  hasRet := hret
  named := by
    intro name v hv
    obtain ⟨x, hx, i, type, rfl, htype, hdata⟩ :=
      (lookup_of_bound (scope_bound hargs hlength) name).1 v hv
    obtain ⟨y, t, hy, ht, rfl⟩ := List.getElem?_zipWith_eq_some.mp hdata
    obtain ⟨hlt, _⟩ := List.getElem?_eq_some_iff.mp htype
    refine ⟨_, hx, ⟨i⟩, rfl, ?_, ?_, htys i type t htype ht⟩
    · rw [hparams]
      simpa using hlt
    · rw [start_locals hparams hlt]
      exact hy
  unnamed name hv := (lookup_of_bound (scope_bound hargs hlength) name).2 hv

/-- If nothing was reported, the code of a body that has been completed does what the body does, in
every module that it is part of. -/
theorem implements_of_performs {body : Stmt} (hb : g₀.builder.Headed sig.params)
    (hlookup : ctx.functions.lookup decl.name = some sig)
    (hret₀ : g₀.builder.ret = sig.ret) (hhas : ∀ id ∈ sig.params, f.types.Has id)
    (hperforms : Performs g₀ g fun s fuel => body.exec s.world s.names s.ret fuel)
    (hle₀ : g₀.Le g) (hcompletes : g.Completes f) (herr : f.errors = g₀.errors)
    (hmissing : ¬ g.Missing) {types : TypeStore} (hle : f.types ≤ types) (interp : Interp V)
    (args : List V) (past : List (Call V)) (hargs : args.length = sig.params.length) :
    Implements ⟨f.builder.finish, types, interp⟩
      { ctx with types := types, interp := interp } decl body args past := by
  have hle₁ : g₀.Le f := hle₀.trans hcompletes.toLe
  have hparams : f.builder.finish.params = (List.range sig.params.length).map LocalId.mk :=
    hle₁.builder.params.trans hb.params
  obtain ⟨tys, htys, hlength, hbodies⟩ := exists_bodies fun id hid => (hhas id hid).le hle
  obtain ⟨ret, hret⟩ := f.typed.ret.le hle
  have hsame : f.builder.ret = sig.ret := hle₁.builder.ret.trans hret₀
  let m : Machine V := ⟨f.builder.finish, types, interp⟩
  let s : Scene (bodyContext ctx decl sig) V := callScene m hparams hret hargs hlength hbodies
  have hc : s.Covers f := ⟨hle, .finish f.numbered, rfl, rfl⟩
  have hstart : ∀ (env : Locals V) calls,
      g₀.spot none env calls = ⟨none, ⟨0⟩, 0, env, calls⟩ := by
    intro env calls
    have hcur : g₀.cur = ⟨0⟩ := hb.cursor
    have hpc : g₀.pc = 0 := Draft.pc_eq (hcur ▸ hb.block?_entry)
    rw [Draft.spot, hcur, hpc]
  have hopen : g₀.Open g₀.cur := by
    rw [show g₀.cur = ⟨0⟩ from hb.cursor]
    exact ⟨_, hb.block?_entry, rfl⟩
  refine .of_runs fun fuel => ?_
  obtain ⟨o, calls, hrun, hreaches⟩ := hperforms (hle₀.errors_left hcompletes.toLe herr) hopen s
    (hc.of_draft_le hcompletes.toLe) fuel (m.start args past).locals past fun _ _ => rfl
  refine ⟨o, calls, ?_, ?_⟩
  · have hret' : types.body? sig.ret = some ret := hsame ▸ hret
    simp only [FuncDecl.run, hlookup, htys, hret', Option.bind_eq_bind, Option.bind_some]
    exact hrun
  · cases o with
    | normal =>
      obtain ⟨hopen', env', hlead⟩ := hreaches
      obtain ⟨n, prev, hn⟩ := hlead.steps none
      rw [hstart] at hn
      rcases hcompletes.fallsOff hmissing hopen' with hseals | hnever
      · exact (Scene.returns_none hseals hc prev).of_steps hn
      · exact absurd (Machine.reached_of_steps rfl hn .entry) hnever
    | returned value =>
      have hreturns := hreaches none
      rw [hstart] at hreturns
      exact hreturns
    | timeout =>
      obtain ⟨n, c, hn, hsteps⟩ := hreaches none
      rw [hstart] at hsteps
      exact ⟨n, c, hn, hsteps⟩

end

end Midend
