import Midend.Proofs.Frame
import Midend.Proofs.Typed
import Midend.Proofs.Typing

/-!
# Midend.Proofs.Supply

Which values code reads. A step that is `Supplying` adds no instruction and no terminator that reads
a value without a property `P`, no `or` of conditions of different types but those of `J`, and no
result of it lacks a property of its own, however the step ends. What has to be known of the values
that the step is given is a condition `H` on the side: types are added whether it holds or not, so
each part of a sequence is looked at in the types at the end of the run.
-/

namespace Midend

open Ir

namespace Ir

def Block.operands (blk : Block) : List Value :=
  (blk.insts.flatMap fun inst => inst.operation.operands) ++
    blk.terminator.elim [] Terminator.operands

def Function.operands (f : Function) : List Value := f.blocks.toList.flatMap Block.operands

namespace Builder

variable {P : Value → Prop} {J : Inst → Prop} {b c d : Builder}

/-- The code reads only values with the property. -/
def Reads (P : Value → Prop) (b : Builder) : Prop :=
  ∀ i blk, b.block? i = some blk → ∀ v ∈ blk.operands, P v

theorem Reads.finish (h : b.Reads P) : ∀ v ∈ b.finish.operands, P v := by
  intro v hv
  obtain ⟨blk, hblk, hv⟩ := List.mem_flatMap.mp hv
  obtain ⟨n, hn⟩ := List.mem_iff_getElem?.mp hblk
  exact h ⟨n⟩ blk (Array.getElem?_toList.symm.trans hn) v hv

def Has (b : Builder) (inst : Inst) : Prop := ∃ i blk, b.block? i = some blk ∧ inst ∈ blk.insts

/-- Between the builders no `or` of conditions of different types was added but those of `J`. -/
def Mixes (J : Inst → Prop) (b c : Builder) : Prop :=
  ∀ inst, inst.operation.Mixed → c.Has inst → J inst ∨ b.Has inst

namespace Mixes

theorem of_blocks (h : b.blocks = c.blocks) : Mixes J b c := by
  rintro inst - ⟨i, blk, hblk, hinst⟩
  exact .inr ⟨i, blk, by rwa [block?, h], hinst⟩

theorem refl (J : Inst → Prop) (b : Builder) : Mixes J b b := of_blocks rfl

theorem trans (h : Mixes J b c) (h' : Mixes J c d) : Mixes J b d :=
  fun inst hmixed hd => (h' inst hmixed hd).elim .inl (h inst hmixed)

theorem mono {J' : Inst → Prop} (h : Mixes J b c) (hJ : ∀ inst, J inst → J' inst) :
    Mixes J' b c := fun inst hmixed hc => (h inst hmixed hc).imp_left (hJ inst)

theorem withBlock : Mixes J b b.withBlock := by
  rintro inst - ⟨i, blk, hblk, hinst⟩
  rcases block_withBlock_cases hblk with ⟨-, rfl⟩ | hold
  · cases hinst
  · exact .inr ⟨i, blk, hold, hinst⟩

theorem emitted {inst : Inst} (hJ : inst.operation.Mixed → J inst) :
    Mixes J b (b.emitted inst) := by
  rintro inst' hmixed ⟨i, blk, hblk, hinst⟩
  rcases block_emitted_cases hblk with ⟨-, old, hold, rfl⟩ | ⟨-, hold⟩
  · rcases List.mem_append.mp hinst with hinst | hinst
    · exact .inr ⟨i, old, hold, hinst⟩
    · obtain rfl := List.mem_singleton.mp hinst
      exact .inl (hJ hmixed)
  · exact .inr ⟨i, blk, hold, hinst⟩

theorem closed {i : BlockId} {t : Terminator} : Mixes J b (b.closed i t) := by
  rintro inst - ⟨j, blk, hblk, hinst⟩
  rcases block_closed_cases hblk with ⟨-, old, hold, rfl⟩ | ⟨-, hold⟩
  · exact .inr ⟨j, old, hold, hinst⟩
  · exact .inr ⟨j, blk, hold, hinst⟩

end Mixes

/-- What code was added between the builders: it reads only values with the property `P`, and of its
`or`s of conditions of different types all are of `J`. -/
structure Adds (P : Value → Prop) (J : Inst → Prop) (b c : Builder) : Prop where
  reads : b.Reads P → c.Reads P
  mixes : Mixes J b c

namespace Adds

theorem of_blocks (h : b.blocks = c.blocks) : b.Adds P J c :=
  ⟨fun hb i blk hblk => hb i blk (by rwa [block?, h]), .of_blocks h⟩

theorem refl (P : Value → Prop) (J : Inst → Prop) (b : Builder) : b.Adds P J b := of_blocks rfl

theorem trans (h : b.Adds P J c) (h' : c.Adds P J d) : b.Adds P J d :=
  ⟨fun hb => h'.reads (h.reads hb), h.mixes.trans h'.mixes⟩

theorem withBlock : b.Adds P J b.withBlock := by
  refine ⟨fun h i blk hblk v hv => ?_, .withBlock⟩
  rcases block_withBlock_cases hblk with ⟨-, rfl⟩ | hold
  · cases hv
  · exact h i blk hold v hv

theorem emitted {inst : Inst} (hinst : ∀ v ∈ inst.operation.operands, P v)
    (hJ : inst.operation.Mixed → J inst) : b.Adds P J (b.emitted inst) := by
  refine ⟨fun h i blk hblk v hv => ?_, .emitted hJ⟩
  rcases block_emitted_cases hblk with ⟨-, old, hold, rfl⟩ | ⟨-, hold⟩
  · simp only [Block.operands, List.flatMap_append, List.flatMap_singleton, List.append_assoc,
      List.mem_append] at hv
    rcases hv with hv | hv | hv
    · exact h i old hold v (List.mem_append_left _ hv)
    · exact hinst v hv
    · exact h i old hold v (List.mem_append_right _ hv)
  · exact h i blk hold v hv

theorem closed (i : BlockId) {t : Terminator} (ht : ∀ v ∈ t.operands, P v) :
    b.Adds P J (b.closed i t) := by
  refine ⟨fun h j blk hblk v hv => ?_, .closed⟩
  rcases block_closed_cases hblk with ⟨-, old, hold, rfl⟩ | ⟨-, hold⟩
  · rcases List.mem_append.mp hv with hv | hv
    · exact h j old hold v (List.mem_append_left _ hv)
    · exact ht v hv
  · exact h j blk hold v hv

end Adds

end Builder

namespace Build

/-- A step that has a result adds code as `Builder.Adds` says, and its result has the property
`R`. -/
def Adding {α : Type} (P : Value → Prop) (J : Inst → Prop) (m : Build α) (R : α → Prop) : Prop :=
  ∀ b a c, m.run b = .ok (a, c) → b.Adds P J c ∧ R a

namespace Adding

variable {α β : Type} {P : Value → Prop} {J : Inst → Prop} {Q : α → Prop} {R : β → Prop}

theorem pure {a : α} (h : Q a) : Adding P J (Pure.pure a) Q := by
  intro b a' c hrun
  cases hrun
  exact ⟨.refl P J b, h⟩

theorem bind {m : Build α} {f : α → Build β} (hm : Adding P J m Q)
    (hf : ∀ a, Q a → Adding P J (f a) R) : Adding P J (m >>= f) R := by
  intro b a' c hrun
  rw [StateT.run_bind] at hrun
  cases hm' : m.run b with
  | error e =>
    rw [hm'] at hrun
    cases hrun
  | ok r =>
    obtain ⟨a, d⟩ := r
    rw [hm'] at hrun
    obtain ⟨hd, ha⟩ := hm b a d hm'
    exact (hf a ha d a' c hrun).imp_left hd.trans

theorem get_bind {f : Builder → Build β} (hf : ∀ b, Adding P J (f b) R) :
    Adding P J (get >>= f) R := fun b => hf b b

theorem cursorIsOpen (b : Builder) :
    Adding P J (liftM b.cursorIsOpen : Build Bool) fun _ => True := by
  intro c o d hrun
  cases h : b.cursorIsOpen with
  | error e =>
    rw [h] at hrun
    cases hrun
  | ok o =>
    rw [h] at hrun
    cases hrun
    exact ⟨.refl P J c, trivial⟩

theorem createBlock : Adding P J Build.createBlock fun _ => True := by
  intro b i c hrun
  rw [run_createBlock] at hrun
  cases hrun
  exact ⟨.withBlock, trivial⟩

theorem switchTo (i : BlockId) : Adding P J (Build.switchTo i) fun _ => True := by
  intro b _ c hrun
  cases hrun
  exact ⟨.of_blocks rfl, trivial⟩

theorem ensureOpen : Adding P J Build.ensureOpen fun _ => True :=
  get_bind fun b => (cursorIsOpen b).bind fun o _ => by
    cases o with
    | true => exact .pure trivial
    | false => exact createBlock.bind fun i _ => (switchTo i).bind fun _ _ => .pure trivial

theorem append {inst : Inst} (h : ∀ v ∈ inst.operation.operands, P v)
    (hJ : inst.operation.Mixed → J inst) : Adding P J (Build.append inst) fun _ => True :=
  ensureOpen.bind fun i _ b _ c hrun => by
    cases hrun
    -- The instruction goes to a block by its number, wherever the cursor is.
    have hmoved : b.Adds P J (b.moved i) := .of_blocks rfl
    have hemitted : (b.moved i).Adds P J ((b.moved i).emitted inst) := .emitted h hJ
    exact ⟨hmoved.trans (hemitted.trans (.of_blocks rfl)), trivial⟩

theorem push {type : TypeId} {operation : Operation} (h : ∀ v ∈ operation.operands, P v)
    (hJ : operation.Mixed → ∀ inst, J inst) :
    Adding P J (Build.push type operation) fun v => ∃ id, v = .ofLocal id type := by
  intro b v c hrun
  have happend : Adding P J (do
      Build.append ⟨some ⟨b.locals.size⟩, type, operation⟩
      return Value.ofLocal ⟨b.locals.size⟩ type) fun v => ∃ id, v = .ofLocal id type :=
    (append h fun hmixed => hJ hmixed _).bind fun _ _ => .pure ⟨_, rfl⟩
  obtain ⟨hadds, hv⟩ := happend (b.withLocal type) v c hrun
  have hlocal : b.Adds P J (b.withLocal type) := .of_blocks rfl
  exact ⟨hlocal.trans hadds, hv⟩

theorem pushVoid {type : TypeId} {operation : Operation} (h : ∀ v ∈ operation.operands, P v)
    (hJ : operation.Mixed → ∀ inst, J inst) :
    Adding P J (Build.pushVoid type operation) fun v => v = .ofConst .void type :=
  (append h fun hmixed => hJ hmixed _).bind fun _ _ => .pure rfl

theorem terminateBlock (i : BlockId) {t : Terminator} (h : ∀ v ∈ t.operands, P v) :
    Adding P J (Build.terminateBlock i t) fun _ => True := by
  intro b _ c hrun
  by_cases hopen : b.Open i
  · rw [run_terminateBlock hopen] at hrun
    cases hrun
    exact ⟨.closed i h, trivial⟩
  · obtain ⟨e, -, he⟩ := terminateBlock_error hopen t
    rw [he] at hrun
    cases hrun

theorem terminate {t : Terminator} (h : ∀ v ∈ t.operands, P v) :
    Adding P J (Build.terminate t) fun _ => True :=
  get_bind fun b => terminateBlock b.cursor h

theorem terminateIfOpen {t : Terminator} (h : ∀ v ∈ t.operands, P v) :
    Adding P J (Build.terminateIfOpen t) fun _ => True :=
  get_bind fun b => (cursorIsOpen b).bind fun o _ => by
    cases o with
    | true => exact (terminate h).bind fun _ _ => .pure trivial
    | false => exact .pure trivial

end Adding

end Build

end Ir

namespace Typing

variable {α β : Type}

/-- Every later store gives the same result, and stays as it is. -/
def Lasting (m : Typing α) : Prop :=
  ∀ s a t, runOn m s = (.ok a, t) → ∀ u, t ≤ u → runOn m u = (.ok a, u)

namespace Lasting

theorem pure (a : α) : Lasting (Pure.pure a) := by
  intro s a' t hrun u _
  cases hrun
  exact runOn_pure a u

theorem abort (e : Unsupported) : Lasting (MonadExcept.throw (Fault.abort e) : Typing α) := nofun

theorem bind {m : Typing α} {f : α → Typing β} (hm : Lasting m) (hf : ∀ a, Lasting (f a))
    (hgrows : ∀ a, Grows (f a)) : Lasting (m >>= f) := by
  intro s b t hrun u hle
  obtain ⟨a, s₁, hrun₁, hrun₂⟩ := runOn_bind_eq_ok hrun
  have hle₁ := (hgrows a s₁ _ t hrun₂).1
  rw [runOn_bind_ok (hm s a s₁ hrun₁ u (TypeStore.le_trans hle₁ hle))]
  exact hf a s₁ b t hrun₂ u hle

theorem intern (body : Ty) : Lasting (ofStore (TypeStore.intern body)) := by
  intro s id t hrun u hle
  rw [runOn_ofStore] at hrun
  obtain ⟨hid, rfl⟩ := Prod.mk.inj hrun
  obtain rfl := Except.ok.inj hid
  rw [runOn_ofStore, TypeStore.intern_of_some
    (TypeStore.interned?_le hle (TypeStore.interned?_intern s body))]

theorem memoized (name : String) (body : Ty) : Lasting (Typing.memoized name body) := by
  intro s id t hrun u hle
  rw [Typing.memoized, runOn_ofStore] at hrun
  obtain ⟨hid, rfl⟩ := Prod.mk.inj hrun
  obtain rfl := Except.ok.inj hid
  rw [Typing.memoized, runOn_ofStore, TypeStore.memoized_of_some
    (TypeStore.lookup?_le hle (TypeStore.lookup?_memoized s name body))]

end Lasting

theorem named_lasting (name : String) (span : Span) : Lasting (named name span) := by
  intro s id t hrun u hle
  rw [runOn_named] at hrun
  cases hid : s.lookup? name with
  | none =>
    rw [hid] at hrun
    cases hrun
  | some id' =>
    rw [hid] at hrun
    cases hrun
    rw [runOn_named, TypeStore.lookup?_le hle hid]

theorem stringFields_lasting : Lasting stringFields :=
  .bind (.intern _) (fun _ => .bind (.intern _) (fun _ => .bind (.intern _) (fun _ => .pure _)
    fun _ => .pure _) fun _ => .bind (intern_grows rfl) fun _ => .pure _)
    fun _ => .bind (intern_grows rfl) fun _ => .bind (intern_grows rfl) fun _ => .pure _

theorem basic_lasting (wordBits : Nat) (kind : BasicKind) (span : Span) :
    Lasting (basic wordBits kind span) := by
  cases kind with
  | complex64 | complex128 => exact .bind (.intern _) (fun _ => .intern _) fun _ => intern_grows rfl
  | string => exact stringFields_lasting.bind (fun _ => .intern _) fun _ => intern_grows rfl
  | untypedBool | untypedInt | untypedRune | untypedFloat => exact .memoized _ _
  | untypedComplex =>
    exact .bind (.memoized _ _) (fun _ => .memoized _ _) fun _ => memoized_grows _ rfl
  | untypedString =>
    exact stringFields_lasting.bind (fun _ => .memoized _ _) fun _ => memoized_grows _ rfl
  | untypedNil => exact .bind (.intern _) (fun _ => .memoized _ _) fun _ => memoized_grows _ rfl
  | invalid => exact .abort _
  | _ => exact .intern _

theorem ofChecked_lasting (wordBits : Nat) (span : Span) :
    ∀ t : CheckedType, Lasting (ofChecked wordBits span t)
  | .basic kind => basic_lasting wordBits kind span
  | .named name => named_lasting name span
  | .pointer elem => by
    rw [ofChecked]
    exact (ofChecked_lasting wordBits span elem).bind (fun _ => .intern _) fun _ => intern_grows rfl
  | .struct _ | .slice _ | .tuple _ | .signature => .abort _

end Typing

/-! ## Steps of lowering -/

/-- Wherever the step begins and however it ends, types are only added. If in the end they are among
`F`, and if `H` holds, then code is added as `Builder.Adds` says, and a result of the step has the
property `R`. -/
def Supplying {α : Type} (F : TypeStore) (P : Value → Prop) (J : Inst → Prop) (H : Prop)
    (m : Lower α) (R : α → Prop) : Prop :=
  ∀ σ r τ, runOn m σ = (r, τ) → σ.types ≤ τ.types ∧
    (τ.types ≤ F → H → σ.builder.Adds P J τ.builder ∧ ∀ a, r = .ok a → R a)

namespace Supplying

variable {α β : Type} {F : TypeStore} {P : Value → Prop} {J : Inst → Prop} {H : Prop}
  {Q : α → Prop} {R : β → Prop}

theorem of_same {m : Lower α}
    (h : ∀ σ r τ, runOn m σ = (r, τ) → τ.types = σ.types ∧ τ.builder = σ.builder ∧
      (H → ∀ a, r = .ok a → Q a)) : Supplying F P J H m Q := by
  intro σ r τ hrun
  obtain ⟨htypes, hbuilder, hr⟩ := h σ r τ hrun
  exact ⟨htypes ▸ TypeStore.le_refl _, fun _ hh => ⟨hbuilder ▸ .refl P J _, hr hh⟩⟩

theorem pure {a : α} (h : H → Q a) : Supplying F P J H (Pure.pure a) Q :=
  of_same fun σ r τ hrun => by
    cases hrun
    exact ⟨rfl, rfl, fun hh a ha => by cases ha; exact h hh⟩

theorem throw (f : Fault) : Supplying F P J H (MonadExcept.throw f) Q :=
  of_same fun σ r τ hrun => by
    cases hrun
    exact ⟨rfl, rfl, by simp⟩

/-- What is known of the result of the first step is on the side of the second. -/
theorem bind {m : Lower α} {f : α → Lower β} (hm : Supplying F P J H m Q)
    (hf : ∀ a, Supplying F P J (H ∧ Q a) (f a) R) : Supplying F P J H (m >>= f) R := by
  intro σ r τ hrun
  obtain ⟨r₁, σ₁, hrun₁⟩ := exists_runOn m σ
  obtain ⟨hle, hadds⟩ := hm σ r₁ σ₁ hrun₁
  rw [runOn_bind, hrun₁] at hrun
  cases r₁ with
  | error f =>
    cases hrun
    exact ⟨hle, fun hF hh => ⟨(hadds hF hh).1, by simp⟩⟩
  | ok a =>
    obtain ⟨hle', hadds'⟩ := hf a σ₁ r τ hrun
    refine ⟨TypeStore.le_trans hle hle', fun hF hh => ?_⟩
    obtain ⟨hσ₁, ha⟩ := hadds (TypeStore.le_trans hle' hF) hh
    exact (hadds' hF ⟨hh, ha a rfl⟩).imp_left hσ₁.trans

theorem mono {H' : Prop} {Q' : α → Prop} {m : Lower α} (hm : Supplying F P J H m Q) (hh : H' → H)
    (hq : H' → ∀ a, Q a → Q' a) : Supplying F P J H' m Q' := by
  intro σ r τ hrun
  obtain ⟨hle, hadds⟩ := hm σ r τ hrun
  refine ⟨hle, fun hF hh' => ?_⟩
  obtain ⟨hτ, ha⟩ := hadds hF (hh hh')
  exact ⟨hτ, fun a h => hq hh' a (ha a h)⟩

theorem ofOption {γ : Type} {f : Option γ → Lower α} {H : Option γ → Prop}
    (hnone : Supplying F P J (H none) (f none) Q)
    (hsome : ∀ a, Supplying F P J (H (some a)) (f (some a)) Q) :
    ∀ o, Supplying F P J (H o) (f o) Q := by
  rintro (_ | a)
  · exact hnone
  · exact hsome a

theorem get {f : FnState → Lower α} (hf : ∀ s, Supplying F P J H (f s) Q) :
    Supplying F P J H (do f (← MonadState.get)) Q := by
  intro σ r τ hrun
  rw [runOn_bind_ok (runOn_get σ)] at hrun
  exact hf σ σ r τ hrun

theorem typing {m : Typing α} (hm : m.Grows)
    (hq : ∀ s a t, runOn m s = (.ok a, t) → t ≤ F → Q a) :
    Supplying F P J H (Lower.typing m) Q := by
  intro σ r τ hrun
  obtain ⟨r₁, t, hrun₁⟩ := exists_runOn m σ.types
  have hle := (hm σ.types r₁ t hrun₁).1
  rw [Lower.runOn_typing, hrun₁] at hrun
  cases hrun
  exact ⟨hle, fun hF _ => ⟨.refl P J _, fun a ha => hq σ.types a t (ha ▸ hrun₁) hF⟩⟩

theorem lasting {m : Typing α} (hm : m.Grows) (hlasting : m.Lasting) :
    Supplying F P J H (Lower.typing m) fun a => runOn m F = (.ok a, F) :=
  typing hm fun s a t hrun hF => hlasting s a t hrun F hF

theorem growing {m : Typing α} (hm : m.Grows) : Supplying F P J H (Lower.typing m) fun _ => True :=
  typing hm fun _ _ _ _ _ => trivial

theorem body (id : TypeId) : Supplying F P J H (Lower.body id) fun t => F.body? id = some t :=
  typing (Typing.body_grows id) fun s t t' hrun hF => by
    rw [Typing.body, Typing.runOn_ask, TypeStore.body] at hrun
    cases hbody : s.body? id with
    | none =>
      rw [hbody] at hrun
      cases hrun
    | some ty =>
      rw [hbody] at hrun
      cases hrun
      exact TypeStore.body?_le hF hbody

theorem ref (id : TypeId) : Supplying F P J H (Lower.ref id) fun _ => True :=
  growing (Typing.ref_grows id)

theorem bool : Supplying F P J H (Lower.typing Typing.bool) F.IsBool :=
  typing Typing.bool_grows fun s id t hrun hF => by
    cases hrun
    exact TypeStore.body?_le hF
      (TypeStore.body?_of_slot? (TypeStore.slot?_of_interned? (TypeStore.interned?_intern s _)))

theorem build {m : Build α} (hm : H → m.Adding P J Q) : Supplying F P J H (Lower.build m) Q := by
  intro σ r τ hrun
  rw [Lower.runOn_build] at hrun
  cases hm' : m.run σ.builder with
  | error b =>
    rw [hm'] at hrun
    cases hrun
    exact ⟨TypeStore.le_refl _, fun _ _ => ⟨.refl P J _, by simp⟩⟩
  | ok p =>
    obtain ⟨a, b⟩ := p
    rw [hm'] at hrun
    cases hrun
    refine ⟨TypeStore.le_refl _, fun _ hh => ?_⟩
    obtain ⟨hb, ha⟩ := hm hh σ.builder a b hm'
    exact ⟨hb, fun a' h => by cases h; exact ha⟩

theorem createBlock : Supplying F P J H (Lower.build Build.createBlock) fun _ => True :=
  build fun _ => .createBlock

theorem switchTo (i : BlockId) : Supplying F P J H (Lower.build (Build.switchTo i)) fun _ => True :=
  build fun _ => .switchTo i

theorem ensureOpen : Supplying F P J H (Lower.build Build.ensureOpen) fun _ => True :=
  build fun _ => .ensureOpen

theorem cursorIsOpen (b : Builder) :
    Supplying F P J H (Lower.build (liftM b.cursorIsOpen)) fun _ => True :=
  build fun _ => .cursorIsOpen b

theorem terminateBlock (i : BlockId) {t : Terminator} (h : H → ∀ v ∈ t.operands, P v) :
    Supplying F P J H (Lower.build (Build.terminateBlock i t)) fun _ => True :=
  build fun hh => .terminateBlock i (h hh)

theorem terminate {t : Terminator} (h : H → ∀ v ∈ t.operands, P v) :
    Supplying F P J H (Lower.build (Build.terminate t)) fun _ => True :=
  build fun hh => .terminate (h hh)

theorem terminateIfOpen {t : Terminator} (h : H → ∀ v ∈ t.operands, P v) :
    Supplying F P J H (Lower.build (Build.terminateIfOpen t)) fun _ => True :=
  build fun hh => .terminateIfOpen (h hh)

theorem push {type : TypeId} {operation : Operation} (h : H → ∀ v ∈ operation.operands, P v)
    (hJ : H → operation.Mixed → ∀ inst, J inst) :
    Supplying F P J H (Lower.push type operation) fun v => ∃ id, v = .ofLocal id type :=
  build fun hh => .push (h hh) (hJ hh)

theorem pushVoid {type : TypeId} {operation : Operation} (h : H → ∀ v ∈ operation.operands, P v)
    (hJ : H → operation.Mixed → ∀ inst, J inst) :
    Supplying F P J H (Lower.build (Build.pushVoid type operation))
      fun v => v = .ofConst .void type :=
  build fun hh => .pushVoid (h hh) (hJ hh)

theorem report (e : LowerError) : Supplying F P J H (Lower.report e) fun _ => True :=
  of_same fun σ r τ hrun => by
    cases hrun
    exact ⟨rfl, rfl, fun _ _ _ => trivial⟩

theorem recover {m : Lower α} (hm : Supplying F P J H m Q) :
    Supplying F P J H (Lower.recover m) fun o => ∀ a, o = some a → Q a := by
  intro σ r τ hrun
  obtain ⟨r₁, υ, hrun₁⟩ := exists_runOn m σ
  obtain ⟨hle, hadds⟩ := hm σ r₁ υ hrun₁
  rw [Lower.runOn_recover, hrun₁] at hrun
  cases r₁ with
  | ok a =>
    cases hrun
    refine ⟨hle, fun hF hh => ⟨(hadds hF hh).1, fun o ho a' ha' => ?_⟩⟩
    cases ho
    exact (hadds hF hh).2 a' (congrArg _ (Option.some.inj ha'))
  | error f =>
    cases f <;> cases hrun <;>
      exact ⟨hle, fun hF hh => ⟨(hadds hF hh).1, by simp⟩⟩

theorem outcome {m : Lower α} (hm : Supplying F P J H m Q) :
    Supplying F P J H (Lower.outcome m) fun r => ∀ a, r = .ok a → Q a := by
  intro σ r τ hrun
  obtain ⟨r₁, υ, hrun₁⟩ := exists_runOn m σ
  obtain ⟨hle, hadds⟩ := hm σ r₁ υ hrun₁
  rw [Lower.runOn_outcome, hrun₁] at hrun
  cases hrun
  refine ⟨hle, fun hF hh => ⟨(hadds hF hh).1, fun o ho => ?_⟩⟩
  cases ho
  exact (hadds hF hh).2

theorem ofOutcome {r : Except Fault α} (h : H → ∀ a, r = .ok a → Q a) :
    Supplying F P J H (Lower.ofOutcome r) Q :=
  of_same fun σ r' τ hrun => by
    rw [Lower.runOn_ofOutcome] at hrun
    cases hrun
    exact ⟨rfl, rfl, h⟩

end Supplying

end Midend
