import Midend.Proofs.Build
import Midend.Proofs.TwinTyping

/-!
# Midend.Proofs.Link

The same lowering from two states (`Lower.Agrees`). The stores have the same types, under different
numbers; how the builders are related is up to a `Link`: the code may be the same but for the
numbers of types, or have nothing in common. Both runs report the same errors and end in the same
way. Nothing is said of runs that break the builder's contract.
-/

namespace Option.Rel

variable {α β : Type} {R R' : α → β → Prop} {a : Option α} {b : Option β}

theorem imp (h : Option.Rel R a b) (hr : ∀ x y, R x y → R' x y) : Option.Rel R' a b := by
  cases h with
  | some hxy => exact .some (hr _ _ hxy)
  | none => exact .none

theorem isSome_eq (h : Option.Rel R a b) : a.isSome = b.isSome := by cases h <;> rfl

theorem some_left (h : Option.Rel R a b) {x : α} (ha : a = Option.some x) :
    ∃ y, b = Option.some y ∧ R x y := by
  subst ha
  cases h with
  | some hxy => exact ⟨_, rfl, hxy⟩

theorem none_left (h : Option.Rel R a b) (ha : a = Option.none) : b = Option.none := by
  subst ha
  cases h
  rfl

end Option.Rel

namespace Midend

open Ir Ir.TypeStore

namespace Ir

/-- The operations are of the same form and read related values. -/
inductive Operation.Matches (V : Value → Value → Prop) (K : BlockId → BlockId → Prop) :
    Operation → Operation → Prop where
  | binary (op : Opcode) {l l' r r' : Value} : V l l' → V r r' →
      Matches V K (.binary op l r) (.binary op l' r')
  | icmp (pred : IntPredicate) {l l' r r' : Value} : V l l' → V r r' →
      Matches V K (.icmp pred l r) (.icmp pred l' r')
  | fcmp (pred : FloatPredicate) {l l' r r' : Value} : V l l' → V r r' →
      Matches V K (.fcmp pred l r) (.fcmp pred l' r')
  | fneg {v v' : Value} : V v v' → Matches V K (.fneg v) (.fneg v')
  | cast (op : CastOp) {v v' : Value} : V v v' → Matches V K (.cast op v) (.cast op v')
  | call (callee : String) {vs vs' : List Value} : List.Forall₂ V vs vs' →
      Matches V K (.call callee vs) (.call callee vs')
  | aggregate {vs vs' : List Value} : List.Forall₂ V vs vs' →
      Matches V K (.aggregate vs) (.aggregate vs')
  | phi {es es' : List (Value × BlockId)} :
      List.Forall₂ (fun e e' => V e.1 e'.1 ∧ K e.2 e'.2) es es' → Matches V K (.phi es) (.phi es')

inductive Terminator.Matches (V : Value → Value → Prop) (K : BlockId → BlockId → Prop) :
    Terminator → Terminator → Prop where
  | br {k k' : BlockId} : K k k' → Matches V K (.br k) (.br k')
  | condBr {v v' : Value} {k k' j j' : BlockId} : V v v' → K k k' → K j j' →
      Matches V K (.condBr v k j) (.condBr v' k' j')
  | retNone : Matches V K (.ret none) (.ret none)
  | retSome {v v' : Value} : V v v' → Matches V K (.ret (some v)) (.ret (some v'))
  | unreachable : Matches V K .unreachable .unreachable

/-- From related builders the steps lead to related builders, with related results, unless one of
them breaks the contract. -/
def Build.Agrees {α β : Type} (B : Builder → Builder → Prop) (m : Build α) (m' : Build β)
    (Q : α → β → Prop) : Prop :=
  ∀ b b', B b b' → (∃ e : Breach, ¬ e.OnTypes ∧ m.run b = .error e) ∨
    (∃ e : Breach, ¬ e.OnTypes ∧ m'.run b' = .error e) ∨
    ∃ a c a' c', m.run b = .ok (a, c) ∧ m'.run b' = .ok (a', c') ∧ B c c' ∧ Q a a'

/-- Let control go on at a block from an end, if that is open. -/
def Build.closeAt (follow : BlockId) : Option BlockId → Build Unit
  | none => return ()
  | some last => terminateBlock last (.br follow)

end Ir

/-- The values are of the same type, with related operands. -/
structure SameValue (L : Operand → Operand → Prop) (s t : TypeStore) (v v' : Value) : Prop where
  operand : L v.operand v'.operand
  type : Alike s t v.type v'.type

/-- A way in which the builders of two runs are related, which every step of building keeps up. -/
structure Link where
  operand : Operand → Operand → Prop
  block : BlockId → BlockId → Prop
  /-- The ends of branches, where they are open. -/
  ending : Option BlockId → Option BlockId → Prop
  builder : TypeStore → TypeStore → Builder → Builder → Prop
  const : ∀ {s t i i'} c, Alike s t i i' →
    SameValue operand s t (Value.ofConst c i) (Value.ofConst c i')
  void : ∀ o o', operand o o' → (o = .const .void ↔ o' = .const .void)
  grow : ∀ {s t s' t' b b'}, (∀ i j, Alike s t i j → Alike s' t' i j) → builder s t b b' →
    builder s' t' b b'
  ret : ∀ {s t b b'}, builder s t b b' → Alike s t b.ret b'.ret
  createBlock : ∀ {s t}, Build.Agrees (builder s t) Build.createBlock Build.createBlock block
  switchTo : ∀ {s t i i'}, block i i' →
    Build.Agrees (builder s t) (Build.switchTo i) (Build.switchTo i') fun _ _ => True
  ensureOpen : ∀ {s t}, Build.Agrees (builder s t) Build.ensureOpen Build.ensureOpen block
  push : ∀ {s t i i' op op'}, Alike s t i i' → op.Matches (SameValue operand s t) block op' →
    Build.Agrees (builder s t) (Build.push i op) (Build.push i' op') (SameValue operand s t)
  pushVoid : ∀ {s t i i' op op'}, Alike s t i i' → op.Matches (SameValue operand s t) block op' →
    Build.Agrees (builder s t) (Build.pushVoid i op) (Build.pushVoid i' op') (SameValue operand s t)
  terminateBlock : ∀ {s t i i' e e'}, block i i' → e.Matches (SameValue operand s t) block e' →
    Build.Agrees (builder s t) (Build.terminateBlock i e) (Build.terminateBlock i' e')
      fun _ _ => True
  terminate : ∀ {s t e e'}, e.Matches (SameValue operand s t) block e' →
    Build.Agrees (builder s t) (Build.terminate e) (Build.terminate e') fun _ _ => True
  terminateIfOpen : ∀ {s t e e'}, e.Matches (SameValue operand s t) block e' →
    Build.Agrees (builder s t) (Build.terminateIfOpen e) (Build.terminateIfOpen e') fun _ _ => True
  closeAt : ∀ {s t k k' x x'}, block k k' → ending x x' →
    Build.Agrees (builder s t) (Build.closeAt k x) (Build.closeAt k' x') fun _ _ => True
  openEnd : ∀ {s t b b' o o'}, builder s t b b' → b.cursorIsOpen = .ok o →
    b'.cursorIsOpen = .ok o' →
    ending (if o then some b.cursor else none) (if o' then some b'.cursor else none)

/-- A name that a declared type can have. -/
def Declarable (name : String) : Prop := name ∉ reservedTypeNames

namespace Link

variable (L : Link)

abbrev Value (s t : TypeStore) : Ir.Value → Ir.Value → Prop := SameValue L.operand s t

/-- The states of two runs. -/
structure Paired (σ σ' : FnState) : Prop where
  twin : Twin Declarable σ.types σ'.types
  builder : L.builder σ.types σ'.types σ.builder σ'.builder

/-- Later states of the two runs, which have reported the same errors in between. -/
structure Onward (σ σ' τ τ' : FnState) : Prop where
  paired : L.Paired τ τ'
  left : Extends Declarable σ.types τ.types
  right : Extends Declarable σ'.types τ'.types
  errors : ∃ new, τ.errors = σ.errors ++ new ∧ τ'.errors = σ'.errors ++ new

variable {L} {σ σ' τ τ' υ υ' : FnState}

namespace Onward

theorem refl (h : L.Paired σ σ') : L.Onward σ σ' σ σ' :=
  ⟨h, .refl h.twin.left, .refl h.twin.right, [], by simp, by simp⟩

theorem trans (h₁ : L.Onward σ σ' τ τ') (h₂ : L.Onward τ τ' υ υ') : L.Onward σ σ' υ υ' := by
  obtain ⟨new, hnew, hnew'⟩ := h₁.errors
  obtain ⟨more, hmore, hmore'⟩ := h₂.errors
  refine ⟨h₂.paired, h₁.left.trans h₂.left, h₁.right.trans h₂.right, new ++ more, ?_, ?_⟩
  · rw [hmore, hnew, List.append_assoc]
  · rw [hmore', hnew', List.append_assoc]

theorem alike (h : L.Onward σ σ' τ τ') (hp : L.Paired σ σ') {i j : TypeId}
    (hij : Alike σ.types σ'.types i j) : Alike τ.types τ'.types i j :=
  hp.twin.alike h.left h.right hij

theorem value (h : L.Onward σ σ' τ τ') (hp : L.Paired σ σ') {v v' : Ir.Value}
    (hv : L.Value σ.types σ'.types v v') : L.Value τ.types τ'.types v v' :=
  ⟨hv.operand, h.alike hp hv.type⟩

theorem values (h : L.Onward σ σ' τ τ') (hp : L.Paired σ σ') {vs vs' : List Ir.Value}
    (hvs : List.Forall₂ (L.Value σ.types σ'.types) vs vs') :
    List.Forall₂ (L.Value τ.types τ'.types) vs vs' := hvs.imp fun _ _ hv => h.value hp hv

end Onward

end Link

/-! ## Two runs -/

namespace Lower

variable {α β γ δ : Type} {L : Link} {σ σ' τ τ' : FnState}

/-- The run breaks the contract of the builder. -/
def Breaks (m : Lower α) (σ : FnState) : Prop :=
  ∃ b : Breach, ¬ b.OnTypes ∧ ∃ τ, runOn m σ = (.error (.breach b), τ)

theorem Breaks.bind {m : Lower α} {f : α → Lower γ} (h : Breaks m σ) : Breaks (m >>= f) σ := by
  obtain ⟨b, hb, τ, hrun⟩ := h
  exact ⟨b, hb, τ, runOn_bind_error hrun⟩

theorem Breaks.build_bind {m : Build α} {f : α → Lower γ} {P : α → Prop} (hm : m.KeepsRet P)
    (h : ∀ a τ, Breaks (f a) τ) : Breaks (build m >>= f) σ := by
  rcases hm σ.builder with ⟨e, hon, he⟩ | ⟨a, b, hrun, -⟩
  · exact Breaks.bind ⟨e, hon, σ, by rw [runOn_build, he]⟩
  · have hbuild : runOn (build m) σ = (.ok a, { σ with builder := b }) := by rw [runOn_build, hrun]
    obtain ⟨e, hon, τ, hbreak⟩ := h a { σ with builder := b }
    exact ⟨e, hon, τ, by rw [runOn_bind_ok hbuild, hbreak]⟩

/-- The two runs report the same errors and end in the same way, with related results if they have
any, unless one of them breaks the contract of the builder. -/
def Agrees (L : Link) (m : Lower α) (m' : Lower β) (σ σ' : FnState)
    (Q : TypeStore → TypeStore → α → β → Prop) : Prop :=
  Breaks m σ ∨ Breaks m' σ' ∨ ∃ τ τ', L.Onward σ σ' τ τ' ∧
    ((∃ a b, runOn m σ = (.ok a, τ) ∧ runOn m' σ' = (.ok b, τ') ∧ Q τ.types τ'.types a b) ∨
      ∃ f, runOn m σ = (.error f, τ) ∧ runOn m' σ' = (.error f, τ'))

namespace Agrees

variable {m : Lower α} {m' : Lower β} {P Q : TypeStore → TypeStore → α → β → Prop}

theorem of_ok {a : α} {b : β} (h : runOn m σ = (.ok a, τ)) (h' : runOn m' σ' = (.ok b, τ'))
    (hon : L.Onward σ σ' τ τ') (hq : Q τ.types τ'.types a b) : Agrees L m m' σ σ' Q :=
  .inr (.inr ⟨τ, τ', hon, .inl ⟨a, b, h, h', hq⟩⟩)

theorem of_error {f : Fault} (h : runOn m σ = (.error f, τ)) (h' : runOn m' σ' = (.error f, τ'))
    (hon : L.Onward σ σ' τ τ') : Agrees L m m' σ σ' Q :=
  .inr (.inr ⟨τ, τ', hon, .inr ⟨f, h, h'⟩⟩)

theorem pure {a : α} {b : β} (h : L.Paired σ σ') (hq : Q σ.types σ'.types a b) :
    Agrees L (Pure.pure a) (Pure.pure b) σ σ' Q :=
  of_ok (runOn_pure a σ) (runOn_pure b σ') (.refl h) hq

theorem throw (h : L.Paired σ σ') {f : Fault} :
    Agrees L (MonadExcept.throw f) (MonadExcept.throw f) σ σ' Q :=
  of_error (runOn_throw f σ) (runOn_throw f σ') (.refl h)

theorem mono (h : Agrees L m m' σ σ' P)
    (hpq : ∀ a b τ τ', L.Onward σ σ' τ τ' → P τ.types τ'.types a b → Q τ.types τ'.types a b) :
    Agrees L m m' σ σ' Q := by
  obtain hbreak | hbreak | ⟨τ, τ', hon, ⟨a, b, ha, hb, hp⟩ | ⟨f, hf, hf'⟩⟩ := h
  · exact .inl hbreak
  · exact .inr (.inl hbreak)
  · exact of_ok ha hb hon (hpq a b τ τ' hon hp)
  · exact of_error hf hf' hon

theorem after (hon : L.Onward σ σ' τ τ') (h : Agrees L m m' τ τ' Q) {n : Lower α} {n' : Lower β}
    (hn : runOn n σ = runOn m τ) (hn' : runOn n' σ' = runOn m' τ') : Agrees L n n' σ σ' Q := by
  obtain ⟨e, he, υ, hbreak⟩ | ⟨e, he, υ, hbreak⟩ |
    ⟨υ, υ', hon', ⟨a, b, ha, hb, hq⟩ | ⟨f, hf, hf'⟩⟩ := h
  · exact .inl ⟨e, he, υ, hn.trans hbreak⟩
  · exact .inr (.inl ⟨e, he, υ, hn'.trans hbreak⟩)
  · exact of_ok (hn.trans ha) (hn'.trans hb) (hon.trans hon') hq
  · exact of_error (hn.trans hf) (hn'.trans hf') (hon.trans hon')

theorem bind {f : α → Lower γ} {f' : β → Lower δ} {R : TypeStore → TypeStore → γ → δ → Prop}
    (hm : Agrees L m m' σ σ' P)
    (hf : ∀ a b τ τ', L.Onward σ σ' τ τ' → P τ.types τ'.types a b →
      Agrees L (f a) (f' b) τ τ' R) : Agrees L (m >>= f) (m' >>= f') σ σ' R := by
  obtain hbreak | hbreak | ⟨τ, τ', hon, ⟨a, b, ha, hb, hp⟩ | ⟨e, he, he'⟩⟩ := hm
  · exact .inl hbreak.bind
  · exact .inr (.inl hbreak.bind)
  · exact (hf a b τ τ' hon hp).after hon (runOn_bind_ok ha) (runOn_bind_ok hb)
  · exact of_error (runOn_bind_error he) (runOn_bind_error he') hon

theorem get_bind {f : FnState → Lower γ} {f' : FnState → Lower δ}
    {R : TypeStore → TypeStore → γ → δ → Prop} (h : L.Paired σ σ')
    (hf : Agrees L (f σ) (f' σ') σ σ' R) : Agrees L (get >>= f) (get >>= f') σ σ' R :=
  hf.after (.refl h) (runOn_bind_ok (runOn_get σ)) (runOn_bind_ok (runOn_get σ'))

theorem report (h : L.Paired σ σ') (e : LowerError) :
    Agrees L (report e) (report e) σ σ' fun _ _ _ _ => True :=
  of_ok (runOn_report e σ) (runOn_report e σ')
    ⟨⟨h.twin, h.builder⟩, .refl h.twin.left, .refl h.twin.right, [e], rfl, rfl⟩ trivial

theorem recover (hm : Agrees L m m' σ σ' P) :
    Agrees L (recover m) (recover m') σ σ' fun s t => Option.Rel (P s t) := by
  obtain ⟨e, he, τ, hbreak⟩ | ⟨e, he, τ, hbreak⟩ |
    ⟨τ, τ', hon, ⟨a, b, ha, hb, hp⟩ | ⟨f, hf, hf'⟩⟩ := hm
  · exact .inl ⟨e, he, τ, by rw [runOn_recover, hbreak]⟩
  · exact .inr (.inl ⟨e, he, τ, by rw [runOn_recover, hbreak]⟩)
  · exact of_ok (by rw [runOn_recover, ha]) (by rw [runOn_recover, hb]) hon (.some hp)
  · cases f with
    | report e =>
      obtain ⟨new, hnew, hnew'⟩ := hon.errors
      have hon' : L.Onward σ σ' { τ with errors := τ.errors ++ [e] }
          { τ' with errors := τ'.errors ++ [e] } :=
        ⟨⟨hon.paired.twin, hon.paired.builder⟩, hon.left, hon.right, new ++ [e],
          by rw [hnew, List.append_assoc], by rw [hnew', List.append_assoc]⟩
      exact of_ok (by rw [runOn_recover, hf]) (by rw [runOn_recover, hf']) hon' .none
    | abort u => exact of_error (by rw [runOn_recover, hf]) (by rw [runOn_recover, hf']) hon
    | breach e => exact of_error (by rw [runOn_recover, hf]) (by rw [runOn_recover, hf']) hon

/-- An outcome is dealt with later. If it is that the contract was broken, it stays that. -/
theorem outcome_bind {k : Except Fault α → Lower γ} {f : Except Fault β → Lower δ}
    {R : TypeStore → TypeStore → γ → δ → Prop} (hm : Agrees L m m' σ σ' P)
    (hbreak : ∀ e : Breach, ¬ e.OnTypes → ∀ τ, Breaks (k (.error (.breach e))) τ)
    (hbreak' : ∀ e : Breach, ¬ e.OnTypes → ∀ τ, Breaks (f (.error (.breach e))) τ)
    (hok : ∀ a b τ τ', L.Onward σ σ' τ τ' → P τ.types τ'.types a b →
      Agrees L (k (.ok a)) (f (.ok b)) τ τ' R)
    (herror : ∀ e τ τ', L.Onward σ σ' τ τ' → Agrees L (k (.error e)) (f (.error e)) τ τ' R) :
    Agrees L (outcome m >>= k) (outcome m' >>= f) σ σ' R := by
  have hrun : ∀ {r : Except Fault α} {τ}, runOn m σ = (r, τ) →
      runOn (outcome m >>= k) σ = runOn (k r) τ := fun h =>
    runOn_bind_ok (by rw [runOn_outcome, h])
  have hrun' : ∀ {r : Except Fault β} {τ}, runOn m' σ' = (r, τ) →
      runOn (outcome m' >>= f) σ' = runOn (f r) τ := fun h =>
    runOn_bind_ok (by rw [runOn_outcome, h])
  obtain ⟨e, he, τ, h⟩ | ⟨e, he, τ, h⟩ | ⟨τ, τ', hon, ⟨a, b, ha, hb, hp⟩ | ⟨e, he, he'⟩⟩ := hm
  · obtain ⟨e', he', υ, hb⟩ := hbreak e he τ
    exact .inl ⟨e', he', υ, (hrun h).trans hb⟩
  · obtain ⟨e', he', υ, hb⟩ := hbreak' e he τ
    exact .inr (.inl ⟨e', he', υ, (hrun' h).trans hb⟩)
  · exact (hok a b τ τ' hon hp).after hon (hrun ha) (hrun' hb)
  · exact (herror e τ τ' hon).after hon (hrun he) (hrun' he')

theorem ofOutcome_error (h : L.Paired σ σ') (e : Fault) :
    Agrees L (ofOutcome (.error e) : Lower α) (ofOutcome (.error e) : Lower β) σ σ' Q :=
  of_error (runOn_ofOutcome _ σ) (runOn_ofOutcome _ σ') (.refl h)

theorem typing {m : Typing α} {m' : Typing β} (h : L.Paired σ σ')
    (hm : Typing.Agrees Declarable m m' σ.types σ'.types P) :
    Agrees L (typing m) (typing m') σ σ' P := by
  obtain ⟨s, t, hs, ht, hout⟩ := hm
  have hon : L.Onward σ σ' { σ with types := s } { σ' with types := t } :=
    ⟨⟨h.twin.extend hs ht, L.grow (fun _ _ hij => h.twin.alike hs ht hij) h.builder⟩, hs, ht,
      [], by simp, by simp⟩
  obtain ⟨a, b, ha, hb, hp⟩ | ⟨f, hf, hf'⟩ := hout
  · exact of_ok (by rw [runOn_typing, ha]) (by rw [runOn_typing, hb]) hon hp
  · exact of_error (by rw [runOn_typing, hf]) (by rw [runOn_typing, hf']) hon

theorem build {m : Build α} {m' : Build β} {R : α → β → Prop} (h : L.Paired σ σ')
    (hm : Build.Agrees (L.builder σ.types σ'.types) m m' R) :
    Agrees L (build m) (build m') σ σ' fun _ _ => R := by
  obtain ⟨e, hon, he⟩ | ⟨e, hon, he⟩ | ⟨a, b, a', b', ha, hb, hbuilder, hr⟩ := hm _ _ h.builder
  · exact .inl ⟨e, hon, σ, by rw [runOn_build, he]⟩
  · exact .inr (.inl ⟨e, hon, σ', by rw [runOn_build, he]⟩)
  · have hon : L.Onward σ σ' { σ with builder := b } { σ' with builder := b' } :=
      ⟨⟨h.twin, hbuilder⟩, .refl h.twin.left, .refl h.twin.right, [], by simp, by simp⟩
    exact of_ok (by rw [runOn_build, ha]) (by rw [runOn_build, hb]) hon hr

end Agrees

section

variable (h : L.Paired σ σ')

include h

theorem body_agrees {i j : TypeId} (hij : Alike σ.types σ'.types i j) :
    Agrees L (body i) (body j) σ σ' fun s t a b => a.Matches (Alike s t) b :=
  .typing h (Typing.body_agrees h.twin hij)

theorem ref_agrees {i j : TypeId} (hij : Alike σ.types σ'.types i j) :
    Agrees L (ref i) (ref j) σ σ' fun _ _ text text' => text = text' :=
  .typing h (Typing.ref_agrees h.twin hij)

theorem push_agrees {i j : TypeId} {op op' : Operation} (hij : Alike σ.types σ'.types i j)
    (hop : op.Matches (L.Value σ.types σ'.types) L.block op') :
    Agrees L (push i op) (push j op') σ σ' L.Value := by
  refine (Agrees.build h (L.push hij hop)).mono fun v v' τ τ' hon hv => ?_
  exact hon.value h hv

theorem asked_agrees {b b' : Builder} :
    Agrees L (build (liftM b.cursorIsOpen)) (build (liftM b'.cursorIsOpen)) σ σ' fun _ _ o o' =>
      b.cursorIsOpen = .ok o ∧ b'.cursorIsOpen = .ok o' := by
  cases ho : b.cursorIsOpen with
  | error e => exact .inl ⟨e, Builder.isOpen_error ho, σ, rfl⟩
  | ok o =>
    cases ho' : b'.cursorIsOpen with
    | error e => exact .inr (.inl ⟨e, Builder.isOpen_error ho', σ', rfl⟩)
    | ok o' => exact .of_ok rfl rfl (.refl h) ⟨rfl, rfl⟩

theorem openEnd_agrees : Agrees L openEnd openEnd σ σ' fun _ _ => L.ending := by
  refine .get_bind h ((asked_agrees h).bind fun o o' τ τ' hon hasked => ?_)
  have hending := L.openEnd h.builder hasked.1 hasked.2
  cases o <;> cases o' <;> exact .pure hon.paired hending

theorem joinAt_agrees {k k' : BlockId} (hk : L.block k k') {xs xs' : List (Option BlockId)}
    (hxs : List.Forall₂ L.ending xs xs') :
    Agrees L (joinAt k xs) (joinAt k' xs') σ σ' fun _ _ _ _ => True := by
  induction hxs generalizing σ σ' with
  | nil => exact .pure h trivial
  | @cons x x' xs xs' hx _ ih =>
    have hcons : ∀ (k : BlockId) x xs υ, runOn (joinAt k (x :: xs)) υ =
        runOn (do build (Build.closeAt k x); joinAt k xs) υ := by
      intro k x xs υ
      cases x <;> rfl
    exact ((Agrees.build h (L.closeAt hk hx)).bind fun _ _ τ τ' hon _ => ih hon.paired).after
      (.refl h) (hcons k x xs σ) (hcons k' x' xs' σ')

end

end Lower

end Midend
