import Midend.Proofs.LinkStmt
import Midend.Proofs.Function
import Midend.Proofs.SameText

/-!
# Midend.Proofs.LinkFunction

Lowering the same body in two runs (`Lower.functionBody_agrees`): the code is the same but for the
numbers of types, and so are the ways through it, so a missing return is found in both or in
neither.
-/

namespace Midend

open Ir Ir.TypeStore

namespace Ir

variable {s t : TypeStore}

theorem Builder.Same.withParam {b b' : Builder} (h : b.Same s t b') (name : Option String)
    {i j : TypeId} (hij : Alike s t i j) : (b.withParam name i).Same s t (b'.withParam name j) :=
  { h with
    params := by
      show b.params ++ [⟨b.locals.size⟩] = b'.params ++ [⟨b'.locals.size⟩]
      rw [h.params, h.localCount]
    localCount := by simp [Builder.withParam, h.localCount]
    locals := fun id => by
      have hl := h.locals id
      simp only [Builder.local?, Builder.withParam, Array.getElem?_push, h.localCount] at hl ⊢
      split
      · exact .some ⟨rfl, rfl, hij, rfl⟩
      · exact hl }

theorem Terminator.Matches.successors_eq {V : Value → Value → Prop} {e e' : Terminator}
    (h : e.Matches V Eq e') : e.successors = e'.successors := by
  cases h with
  | br hk => rw [hk]
  | condBr _ hk hj =>
    subst hk hj
    rfl
  | retNone | retSome | unreachable => rfl

theorem Block.Same.successors_eq {blk blk' : Block} (h : Block.Same s t blk blk') :
    blk.successors = blk'.successors := by
  have hend := h.terminator
  unfold Block.successors
  cases he : blk.terminator with
  | none => rw [hend.none_left he]
  | some e =>
    obtain ⟨e', he', hmatch⟩ := hend.some_left he
    rw [he']
    exact hmatch.successors_eq

theorem Builder.Same.edge {b b' : Builder} (h : b.Same s t b') {i j : BlockId} :
    b.Edge i j ↔ b'.Edge i j := by
  cases hb : b.block? i with
  | none =>
    have hb' : b'.block? i = none := (h.blocks i).none_left hb
    simp [Builder.Edge, hb, hb']
  | some blk =>
    obtain ⟨blk', hb', hsame⟩ := (h.blocks i).some_left hb
    simp [Builder.Edge, hb, hb', hsame.successors_eq]

theorem Builder.Same.isReachable_eq {b b' : Builder} (h : b.Same s t b') (target : BlockId) :
    b.isReachable target = b'.isReachable target := by
  have hedges : b.Edge = b'.Edge := funext fun i => funext fun j => propext h.edge
  rw [Bool.eq_iff_iff, Builder.isReachable_iff, Builder.isReachable_iff, Builder.reached_iff_path,
    Builder.reached_iff_path, hedges]

end Ir

namespace Lower

theorem addParams_agrees {s t : TypeStore} (names : List (Option String)) {is js : List TypeId}
    (hij : List.Forall₂ (Alike s t) is js) {scope scope' : Scope}
    (hscope : ∀ name, Option.Rel (SameOperand s t) (scope.lookup name) (scope'.lookup name)) :
    Build.Agrees (Builder.Same s t) (addParams scope (names.zip is))
      (addParams scope' (names.zip js)) fun sc sc' =>
        ∀ name, Option.Rel (SameOperand s t) (sc.lookup name) (sc'.lookup name) := by
  induction names generalizing is js scope scope' with
  | nil => exact .pure hscope
  | cons name names ih =>
    cases hij with
    | nil => exact .pure hscope
    | @cons i j is js hij hrest =>
      have hparam : ∀ name, Build.Agrees (Builder.Same s t) (Build.addParam name i)
          (Build.addParam name j) (SameOperand s t) := by
        intro name b b' h
        refine .inr (.inr ⟨_, _, _, _, Build.run_addParam name i, Build.run_addParam name j,
          h.withParam name hij, ?_, hij⟩)
        rw [Value.ofLocal, Value.ofLocal, h.localCount]
      cases name with
      | none =>
        simp only [List.zip_cons_cons, addParams]
        exact (hparam _).bind fun _ _ _ => ih hrest hscope
      | some name =>
        simp only [List.zip_cons_cons, addParams]
        split
        · exact (hparam _).bind fun _ _ _ => ih hrest hscope
        · refine (hparam _).bind fun v v' hv => ih hrest fun name' => ?_
          rw [List.lookup_cons, List.lookup_cons]
          split
          · exact .some hv
          · exact hscope name'

variable {σ σ' : FnState} {ctx ctx' : Context}

theorem finishBody_agrees (h : Link.sameCode.Paired σ σ') (function : String) (span : Span) :
    Agrees Link.sameCode (finishBody function span) (finishBody function span) σ σ'
      fun _ _ _ _ => True := by
  refine .get_bind h ((asked_agrees h).bind fun o o' τ τ' hon hasked => ?_)
  have hsame : Builder.Same σ.types σ'.types σ.builder σ'.builder := h.builder
  obtain rfl := Build.cursorIsOpen_eq hsame hasked.1 hasked.2
  cases o with
  | false => exact .pure hon.paired trivial
  | true =>
    simp only [if_true]
    refine (body_agrees hon.paired (hon.alike h hsame.ret)).bind fun a b υ υ' hon₁ hm => ?_
    have hterminate : ∀ {φ φ'} e, Link.sameCode.Paired φ φ' →
        e.Matches (Link.sameCode.Value φ.types φ'.types) Eq e →
        Agrees Link.sameCode (build (Build.terminate e)) (build (Build.terminate e)) φ φ'
          fun _ _ _ _ => True := fun e hp he => .build hp (Link.sameCode.terminate he)
    rw [← hm.isVoid, ← hsame.isReachable_eq, ← hsame.cursor]
    split
    · exact hterminate _ hon₁.paired .retNone
    split
    · refine (Agrees.report hon₁.paired _).bind fun _ _ φ φ' hon₂ _ => ?_
      exact hterminate _ hon₂.paired .unreachable
    · exact hterminate _ hon₁.paired .unreachable

/-- The same can be named, but for the parameters. -/
abbrev SameUnit (s t : TypeStore) (ctx ctx' : Context) : Prop :=
  SameContext Link.sameCode s t { ctx with scope := [] } { ctx' with scope := [] }

theorem SameUnit.inScope {s t : TypeStore} (hc : SameUnit s t ctx ctx') {scope scope' : Scope}
    (hscope : ∀ name, Option.Rel (SameOperand s t) (scope.lookup name) (scope'.lookup name)) :
    SameContext Link.sameCode s t { ctx with scope := scope } { ctx' with scope := scope' } :=
  { hc with scope := hscope }

theorem functionBody_agrees (h : Link.sameCode.Paired σ σ')
    (hc : SameUnit σ.types σ'.types ctx ctx') (decl : FuncDecl) {sig sig' : Signature}
    (hsig : Typing.SameSignature σ.types σ'.types sig sig') (body : Stmt) (span : Span) :
    Agrees Link.sameCode (functionBody ctx decl sig body span)
      (functionBody ctx' decl sig' body span) σ σ' fun _ _ _ _ => True := by
  refine (Agrees.build h (addParams_agrees _ hsig.params fun name => .none)).bind
    fun scope scope' τ τ' hon hscope => ?_
  have hbody := SameUnit.inScope (hc.onward h hon) fun name => (hscope name).imp fun _ _ hv =>
    hon.value h hv
  refine (body.lower_agrees hon.paired hbody).bind fun _ _ υ υ' hon₁ _ => ?_
  exact finishBody_agrees hon₁.paired decl.name span

end Lower

theorem Ir.Builder.Same.start {s t : TypeStore} (name : String) {i j : TypeId}
    (hij : Alike s t i j) : (Builder.start name i).Same s t (Builder.start name j) where
  name := rfl
  ret := hij
  params := rfl
  cursor := rfl
  localCount := rfl
  locals id := by
    have hnone : (Builder.start name i).local? id = none := Array.getElem?_empty
    have hnone' : (Builder.start name j).local? id = none := Array.getElem?_empty
    rw [hnone, hnone']
    exact .none
  size := rfl
  blocks k := by
    have hsame : (Builder.start name i).block? k = (Builder.start name j).block? k := rfl
    rw [hsame]
    cases hblk : (Builder.start name j).block? k with
    | none => exact .none
    | some blk =>
      obtain ⟨_, rfl⟩ := (Builder.Headed.start name j).block?_eq hblk
      exact .some ⟨rfl, .nil, .none⟩

namespace Pass

variable {ctx ctx' : Context} {decl : FuncDecl} {span : Span} {s s' t t' : Session}

/-- Lowering a declared function in two runs reports the same errors, and leads to the same function
but for the numbers of types. -/
theorem function_agrees (h : Twin Declarable s.types t.types)
    (hc : Lower.SameUnit s.types t.types ctx ctx') {fn fn' : Option Function}
    (hrun : runOn (Pass.function ctx decl span) s = (.ok fn, s'))
    (hrun' : runOn (Pass.function ctx' decl span) t = (.ok fn', t')) :
    Extends Declarable s.types s'.types ∧ Extends Declarable t.types t'.types ∧
      (∃ new, s'.errors = s.errors ++ new ∧ t'.errors = t.errors ++ new) ∧
      Option.Rel (Function.Same s'.types t'.types) fn fn' := by
  have hnone : ∀ {fn fn' : Option Function}, (Except.ok none, s) = (Except.ok (ε := Fault) fn, s') →
      (Except.ok none, t) = (Except.ok (ε := Fault) fn', t') →
      Extends Declarable s.types s'.types ∧ Extends Declarable t.types t'.types ∧
        (∃ new, s'.errors = s.errors ++ new ∧ t'.errors = t.errors ++ new) ∧
        Option.Rel (Function.Same s'.types t'.types) fn fn' := by
    intro fn fn' heq heq'
    cases heq
    cases heq'
    exact ⟨.refl h.left, .refl h.right, ⟨[], by simp, by simp⟩, .none⟩
  cases hbody : decl.body with
  | none =>
    rw [Pass.function, hbody] at hrun hrun'
    exact hnone hrun hrun'
  | some body =>
    cases hsig : ctx.functions.lookup decl.name with
    | none =>
      have hsig' : ctx'.functions.lookup decl.name = none := (hc.functions decl.name).none_left hsig
      rw [Pass.function, hbody] at hrun hrun'
      rw [hsig] at hrun
      rw [hsig'] at hrun'
      exact hnone hrun hrun'
    | some sig =>
      obtain ⟨sig', hsig', hsigs⟩ := (hc.functions decl.name).some_left hsig
      rw [Pass.runOn_function span hbody hsig] at hrun
      rw [Pass.runOn_function span hbody hsig'] at hrun'
      have hpaired : Link.sameCode.Paired ⟨s.types, s.errors, Builder.start decl.name sig.ret⟩
          ⟨t.types, t.errors, Builder.start decl.name sig'.ret⟩ := ⟨h, .start decl.name hsigs.ret⟩
      obtain ⟨e, -, τ, hbreak⟩ | ⟨e, -, τ, hbreak⟩ |
        ⟨τ, τ', hon, ⟨_, _, ha, hb, _⟩ | ⟨f, hf, _⟩⟩ :=
        Lower.functionBody_agrees hpaired hc decl hsigs body span
      · rw [hbreak] at hrun
        cases hrun
      · rw [hbreak] at hrun'
        cases hrun'
      · rw [ha] at hrun
        rw [hb] at hrun'
        cases hrun
        cases hrun'
        exact ⟨hon.left, hon.right, hon.errors, .some ⟨_, _, hon.paired.builder, rfl, rfl⟩⟩
      · rw [hf] at hrun
        cases hrun

end Pass

end Midend
