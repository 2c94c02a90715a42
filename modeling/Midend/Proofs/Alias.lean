import Mathlib.Data.List.Basic
import Mathlib.Logic.Function.Iterate
import Mathlib.Logic.Relation
import Midend.Lower.Types
import Midend.Proofs.Routine

/-!
# Midend.Proofs.Alias

Alias chains. A chain that comes to an end passes every name once at most, so none is taken for a
loop and following it finds its end (`followAlias_eq_some_iff`). All others go on for ever, into a
loop that need not hold the name where they start (`followAlias_exact`).
-/

namespace Midend

open Relation

/-- The chain passes the names, in order, and ends with the last type expression: a basic kind's
name, or no declared name. -/
inductive AliasChain (declared : Declared) : List String → TypeExpr → TypeExpr → Prop where
  | last {t : TypeExpr} : nextAlias? declared t = none → AliasChain declared [] t t
  | step {span : Span} {name : String} {names : List String} {t last : TypeExpr} :
      BasicKind.ofName? name = none → declared.lookup name = some t →
      AliasChain declared names t last →
      AliasChain declared (name :: names) (.ident span name) last

variable {declared : Declared} {t t' last last' : TypeExpr} {names names' : List String}

theorem nextAlias?_eq_some : nextAlias? declared t = some t' ↔
    ∃ span name, t = .ident span name ∧ BasicKind.ofName? name = none ∧
      declared.lookup name = some t' := by
  cases t with
  | ident span name =>
    cases hkind : BasicKind.ofName? name <;> simp [nextAlias?, hkind]
  | qualified | pointer | struct | array | map | func | interface => simp [nextAlias?]

theorem nextAlias?_ident {span : Span} {name : String} (hname : BasicKind.ofName? name = none) :
    nextAlias? declared (.ident span name) = declared.lookup name := by
  simp [nextAlias?, hname]

theorem aliasRound_of_last {passed : List String} (h : nextAlias? declared t = none) :
    aliasRound declared ⟨passed, t⟩ = .inl (some t) := by
  simp [aliasRound, h]

theorem aliasRound_of_new {span : Span} {name : String} {passed : List String}
    (hname : BasicKind.ofName? name = none) (hlookup : declared.lookup name = some t)
    (hnew : name ∉ passed) :
    aliasRound declared ⟨passed, .ident span name⟩ = .inr ⟨name :: passed, t⟩ := by
  simp [aliasRound, nextAlias?_ident hname, hlookup, hnew]

theorem of_aliasRound_eq_some {w : AliasWalk} (h : aliasRound declared w = .inl (some last)) :
    nextAlias? declared w.reached = none ∧ w.reached = last := by
  unfold aliasRound at h
  split at h
  · split at h <;> cases h
  · rename_i hnot
    cases h
    refine ⟨Option.eq_none_iff_forall_ne_some.mpr fun next hnext => ?_, rfl⟩
    obtain ⟨span, name, hident, -, -⟩ := nextAlias?_eq_some.mp hnext
    exact hnot next span name hnext hident

theorem of_aliasRound_eq_next {w w' : AliasWalk} (h : aliasRound declared w = .inr w') :
    ∃ span name, w.reached = .ident span name ∧ BasicKind.ofName? name = none ∧
      declared.lookup name = some w'.reached := by
  unfold aliasRound at h
  split at h
  · rename_i next span name hnext hident
    split at h <;> cases h
    obtain ⟨span', name', hident', hname, hlookup⟩ := nextAlias?_eq_some.mp hnext
    rw [hident] at hident'
    cases hident'
    exact ⟨span, name, hident, hname, hlookup⟩
  · cases h

namespace AliasChain

theorem next_last (h : AliasChain declared names t last) : nextAlias? declared last = none := by
  induction h with
  | last hnone => exact hnone
  | step _ _ _ ih => exact ih

theorem unique (h : AliasChain declared names t last) (h' : AliasChain declared names' t last') :
    names = names' ∧ last = last' := by
  induction h generalizing names' with
  | last hnone =>
    cases h' with
    | last _ => exact ⟨rfl, rfl⟩
    | step hname hlookup _ =>
      rw [nextAlias?_ident hname, hlookup] at hnone
      cases hnone
  | step hname hlookup _ ih =>
    cases h' with
    | last hnone =>
      rw [nextAlias?_ident hname, hlookup] at hnone
      cases hnone
    | step _ hlookup' hrest =>
      rw [hlookup] at hlookup'
      cases hlookup'
      obtain ⟨rfl, rfl⟩ := ih hrest
      exact ⟨rfl, rfl⟩

theorem from_name {name : String} (h : AliasChain declared names t last) (hname : name ∈ names) :
    ∃ span names', AliasChain declared (name :: names') (.ident span name) last ∧
      names'.length < names.length := by
  induction h with
  | last _ => cases hname
  | @step span first names t last hfirst hlookup hrest ih =>
    rcases List.mem_cons.mp hname with rfl | hname
    · exact ⟨span, names, .step hfirst hlookup hrest, by simp⟩
    · obtain ⟨span', names', hchain, hlt⟩ := ih hname
      exact ⟨span', names', hchain, by simp; omega⟩

/-- No name is passed twice: the chain would go round for ever. -/
theorem nodup (h : AliasChain declared names t last) : names.Nodup := by
  induction h with
  | last _ => exact List.nodup_nil
  | @step span name names t last hname hlookup hrest ih =>
    refine List.nodup_cons.mpr ⟨fun hmem => ?_, ih⟩
    obtain ⟨span', names', hagain, hlt⟩ := hrest.from_name hmem
    cases hagain with
    | step _ hlookup' hrest' =>
      rw [hlookup] at hlookup'
      cases hlookup'
      obtain ⟨rfl, _⟩ := hrest.unique hrest'
      exact Nat.lt_irrefl _ hlt

theorem run_eq (h : AliasChain declared names t last) {passed : List String}
    (hnew : ∀ name ∈ names, name ∉ passed) :
    (aliasRoutine declared).run ⟨passed, t⟩ = some last := by
  have hnodup := h.nodup
  induction h generalizing passed with
  | last hnone => exact Routine.run_of_answer (aliasRound_of_last hnone)
  | @step span name names t last hname hlookup hrest ih =>
    obtain ⟨hfirst, hlater⟩ := List.forall_mem_cons.mp hnew
    obtain ⟨hnot, hnodup⟩ := List.nodup_cons.mp hnodup
    rw [Routine.run_of_next (aliasRound_of_new hname hlookup hfirst)]
    refine ih (fun other hother hmem => ?_) hnodup
    rcases List.mem_cons.mp hmem with rfl | hmem
    · exact hnot hother
    · exact hlater other hother hmem

end AliasChain

theorem exists_chain_of_run {w : AliasWalk} (h : (aliasRoutine declared).run w = some last) :
    ∃ names, AliasChain declared names w.reached last := by
  obtain ⟨n, w', -, hrounds, hanswer⟩ := (aliasRoutine declared).exists_rounds w
  rw [h] at hanswer
  induction hrounds with
  | none =>
    obtain ⟨hnone, rfl⟩ := of_aliasRound_eq_some hanswer
    exact ⟨[], .last hnone⟩
  | next hround _ ih =>
    rw [Routine.run_of_next hround] at h
    obtain ⟨names, hchain⟩ := ih h hanswer
    obtain ⟨span, name, hreached, hname, hlookup⟩ := of_aliasRound_eq_next hround
    exact ⟨name :: names, hreached ▸ .step hname hlookup hchain⟩

theorem followAlias_eq_some_iff :
    followAlias declared t = some last ↔ ∃ names, AliasChain declared names t last :=
  ⟨exists_chain_of_run, fun ⟨_, h⟩ => h.run_eq fun _ _ => List.not_mem_nil⟩

/-! ## Chains step by step -/

/-- The declared name, which is not that of a basic kind, stands for the type expression. -/
inductive StandsFor (declared : Declared) : TypeExpr → TypeExpr → Prop where
  | name {span : Span} {name : String} {t : TypeExpr} : BasicKind.ofName? name = none →
      declared.lookup name = some t → StandsFor declared (.ident span name) t

theorem standsFor_iff : StandsFor declared t t' ↔ nextAlias? declared t = some t' := by
  rw [nextAlias?_eq_some]
  constructor
  · rintro ⟨hname, hlookup⟩
    exact ⟨_, _, rfl, hname, hlookup⟩
  · rintro ⟨span, name, rfl, hname, hlookup⟩
    exact .name hname hlookup

theorem not_standsFor_iff : (∀ t', ¬ StandsFor declared t t') ↔ nextAlias? declared t = none := by
  simp only [standsFor_iff, ← Option.eq_none_iff_forall_ne_some]

theorem exists_chain_iff : (∃ names, AliasChain declared names t last) ↔
    ReflTransGen (StandsFor declared) t last ∧ ∀ t', ¬ StandsFor declared last t' := by
  constructor
  · rintro ⟨names, hchain⟩
    refine ⟨?_, not_standsFor_iff.mpr hchain.next_last⟩
    induction hchain with
    | last _ => exact .refl
    | step hname hlookup _ ih => exact ih.head (.name hname hlookup)
  · rintro ⟨hpath, hend⟩
    induction hpath using ReflTransGen.head_induction_on with
    | refl => exact ⟨[], .last (not_standsFor_iff.mp hend)⟩
    | head hstep _ ih =>
      obtain ⟨names, hchain⟩ := ih
      cases hstep with
      | name hname hlookup => exact ⟨_, .step hname hlookup hchain⟩

/-- The chain goes on for ever. -/
def Endless (declared : Declared) (t : TypeExpr) : Prop :=
  ∃ f : Nat → TypeExpr, f 0 = t ∧ ∀ n, StandsFor declared (f n) (f (n + 1))

theorem Endless.next (h : Endless declared t) (hstep : StandsFor declared t t') :
    Endless declared t' := by
  obtain ⟨f, rfl, hf⟩ := h
  obtain rfl : t' = f 1 :=
    Option.some.inj ((standsFor_iff.mp hstep).symm.trans (standsFor_iff.mp (hf 0)))
  exact ⟨fun n => f (n + 1), rfl, fun n => hf (n + 1)⟩

theorem endless_of_forall
    (h : ∀ u, ReflTransGen (StandsFor declared) t u → ∃ v, StandsFor declared u v) :
    Endless declared t := by
  let next (u : TypeExpr) : TypeExpr := (nextAlias? declared u).getD u
  have hnext : ∀ u, (∃ v, StandsFor declared u v) → StandsFor declared u (next u) := by
    rintro u ⟨v, hv⟩
    rw [standsFor_iff] at hv ⊢
    simp [next, hv]
  have hreached : ∀ n, ReflTransGen (StandsFor declared) t (next^[n] t) := by
    intro n
    induction n with
    | zero => exact .refl
    | succ n ih =>
      rw [Function.iterate_succ_apply']
      exact ih.tail (hnext _ (h _ ih))
  refine ⟨fun n => next^[n] t, rfl, fun n => ?_⟩
  show StandsFor declared (next^[n] t) (next^[n + 1] t)
  rw [Function.iterate_succ_apply']
  exact hnext _ (h _ (hreached n))

theorem followAlias_eq_none_iff : followAlias declared t = none ↔ Endless declared t := by
  constructor
  · intro hnone
    refine endless_of_forall fun u hu => ?_
    by_contra hend
    have hsome := followAlias_eq_some_iff.mpr (exists_chain_iff.mpr ⟨hu, not_exists.mp hend⟩)
    cases hnone.symm.trans hsome
  · intro hendless
    refine Option.eq_none_iff_forall_ne_some.mpr fun last hsome => ?_
    obtain ⟨hpath, hend⟩ := exists_chain_iff.mp (followAlias_eq_some_iff.mp hsome)
    induction hpath using ReflTransGen.head_induction_on with
    | refl =>
      obtain ⟨f, rfl, hf⟩ := hendless
      exact hend _ (hf 0)
    | head hstep hrest ih =>
      refine ih (hendless.next hstep) ?_
      exact followAlias_eq_some_iff.mpr (exists_chain_iff.mpr ⟨hrest, hend⟩)

theorem standsFor_unique : Relator.RightUnique (StandsFor declared) := fun _ _ _ h h' =>
  Option.some.inj ((standsFor_iff.mp h).symm.trans (standsFor_iff.mp h'))

theorem not_loop_of_end (h : ReflTransGen (StandsFor declared) t last)
    (hend : ∀ t', ¬ StandsFor declared last t') : ¬ TransGen (StandsFor declared) t t := by
  induction h using ReflTransGen.head_induction_on with
  | refl =>
    intro hloop
    obtain ⟨t', hstep, -⟩ := TransGen.head'_iff.mp hloop
    exact hend t' hstep
  | head hstep _ ih =>
    intro hloop
    obtain ⟨t', hstep', hback⟩ := TransGen.head'_iff.mp hloop
    obtain rfl := standsFor_unique hstep hstep'
    exact ih (.tail' hback hstep)

theorem followAlias_of_loop {u : TypeExpr} (hpath : ReflTransGen (StandsFor declared) t u)
    (hloop : TransGen (StandsFor declared) u u) : followAlias declared t = none := by
  refine Option.eq_none_iff_forall_ne_some.mpr fun last hsome => ?_
  obtain ⟨hlast, hend⟩ := exists_chain_iff.mp (followAlias_eq_some_iff.mp hsome)
  rcases hpath.total_of_right_unique standsFor_unique hlast with hafter | hbefore
  · exact not_loop_of_end hafter hend hloop
  · rcases hbefore.cases_head with rfl | ⟨t', hstep, -⟩
    · exact not_loop_of_end .refl hend hloop
    · exact hend t' hstep

/-- What following the alias chain of a type expression comes to. -/
structure FollowsChain (declared : Declared) (t : TypeExpr) : Prop where
  /-- There are no more rounds than declarations. -/
  ends : ∃ rounds w, rounds ≤ declared.length ∧
    (aliasRoutine declared).Rounds rounds ⟨[], t⟩ w ∧
      aliasRound declared w = .inl (followAlias declared t)
  none_iff : followAlias declared t = none ↔ Endless declared t
  /-- Of a chain with an end the end is found, however long the chain is, -/
  some_iff : ∀ last, followAlias declared t = some last ↔
    ReflTransGen (StandsFor declared) t last ∧ ∀ t', ¬ StandsFor declared last t'
  /-- and if the end is a name, it is a basic kind's or is not declared. -/
  last : ∀ span name, followAlias declared t = some (.ident span name) →
    BasicKind.ofName? name = none → declared.lookup name = none
  /-- It does not matter whether the start of the chain is a part of the loop. -/
  loop : ∀ u, ReflTransGen (StandsFor declared) t u → TransGen (StandsFor declared) u u →
    followAlias declared t = none

theorem followAlias_exact (declared : Declared) (t : TypeExpr) : FollowsChain declared t where
  ends := by
    obtain ⟨rounds, w, hle, hrounds, hanswer⟩ := (aliasRoutine declared).exists_rounds ⟨[], t⟩
    have hleft : (aliasRoutine declared).left ⟨[], t⟩ = declared.length :=
      (unseen_nil _).trans (List.length_map _)
    exact ⟨rounds, w, hleft ▸ hle, hrounds, hanswer⟩
  none_iff := followAlias_eq_none_iff
  some_iff last := followAlias_eq_some_iff.trans exists_chain_iff
  last span name h hname := by
    obtain ⟨names, hchain⟩ := followAlias_eq_some_iff.mp h
    rw [← nextAlias?_ident hname]
    exact hchain.next_last
  loop u := followAlias_of_loop

/-- The chain from `A` runs into the loop of `B` and `C`, and the one from `D` does not. -/
example : let name (n : String) : TypeExpr := .ident ⟨0, 0⟩ n
    let declared : Declared :=
      [("A", name "B"), ("B", name "C"), ("C", name "B"), ("D", name "E"), ("E", name "int")]
    (followAlias declared (name "A")).isNone = true ∧
      (followAlias declared (name "D")).map TypeExpr.describe = some "named type" := by
  decide +kernel

end Midend
