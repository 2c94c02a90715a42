import Mathlib.Data.List.Forall2
import Midend.Proofs.Contains
import Midend.Proofs.Operators

/-!
# Midend.Proofs.Verifier

The verifier finds what is wrong with the control flow of a function, and nothing else
(`Function.verify_exact`). `Function.SoundBlock` says what is right with one block. A path through a
function that was accepted meets sound blocks only.
-/

namespace Midend.Ir

open Relation

def Terminator.types : Terminator → List TypeId
  | .condBr cond _ _ => [cond.type]
  | .ret (some value) => [value.type]
  | .br _ | .ret none | .unreachable => []

/-- A condition has one bit, and what is returned is of the return type. -/
def Terminator.Agrees (types : TypeStore) (ret : TypeId) : Terminator → Prop
  | .br _ | .unreachable => True
  | .condBr cond _ _ => types.IsBool cond.type
  | .ret none => types.IsVoid ret
  | .ret (some value) => ¬ types.IsVoid ret ∧ value.type = ret

def Violation.block? : Violation → Option BlockId
  | .unsealed _ block | .missingTarget _ block _ | .nonBoolCondition _ block _
  | .returnMismatch _ block _ _ | .missingReturnValue _ block _ | .unexpectedReturnValue _ block =>
    some block
  | .pendingType _ => none

theorem TypeStore.Contains.exists_ref {s : TypeStore} {id : TypeId} (h : s.Contains id) :
    ∃ text, s.ref? id = some text :=
  Option.isSome_iff_exists.mp (ref?_isSome_iff.mpr h)

theorem mapM_nothing {α β : Type} {l : List α} {f : α → Except Breach (List β)}
    (h : ∀ a ∈ l, f a = .ok []) : l.mapM f = .ok (l.map fun _ => []) := by
  induction l with
  | nil => rfl
  | cons a rest ih =>
    have hrest := ih fun a ha => h a (List.mem_cons_of_mem _ ha)
    simp [List.mapM_cons, h a (by simp), hrest, bind, Except.bind, pure, Except.pure]

theorem flatten_nothing {α β : Type} (l : List α) :
    (l.map fun _ => ([] : List β)).flatten = [] := by
  simp

namespace Function

/-- The store contains the types that the verifier looks at. -/
structure Known (types : TypeStore) (f : Function) : Prop where
  ret : types.Contains f.ret
  terminators : ∀ b ∈ f.blocks.toList, ∀ t, b.terminator = some t →
    ∀ id ∈ t.types, types.Contains id

/-- The block has a terminator, which agrees with the signature and leads to blocks. -/
def SoundBlock (types : TypeStore) (f : Function) (b : Block) : Prop :=
  ∃ t, b.terminator = some t ∧ (∀ j ∈ t.successors, (f.block? j).isSome) ∧ t.Agrees types f.ret

/-- A terminator does not agree with the signature, which is reported as the violation. -/
inductive Disagrees (types : TypeStore) (f : Function) (block : BlockId) :
    Terminator → Violation → Prop where
  | condition {cond : Value} {thenBlock elseBlock : BlockId} {actual : String} :
      ¬ types.IsBool cond.type → types.ref? cond.type = some actual →
      Disagrees types f block (.condBr cond thenBlock elseBlock)
        (.nonBoolCondition f.name block actual)
  | missing {expected : String} : ¬ types.IsVoid f.ret → types.ref? f.ret = some expected →
      Disagrees types f block (.ret none) (.missingReturnValue f.name block expected)
  | unexpected {value : Value} : types.IsVoid f.ret →
      Disagrees types f block (.ret (some value)) (.unexpectedReturnValue f.name block)
  | mismatch {value : Value} {expected actual : String} : ¬ types.IsVoid f.ret →
      value.type ≠ f.ret → types.ref? f.ret = some expected →
      types.ref? value.type = some actual →
      Disagrees types f block (.ret (some value)) (.returnMismatch f.name block expected actual)

/-- The violations of a block: that it is open, or one for each edge that leads to no block and one
for a terminator that does not agree with the signature. -/
inductive Reports (types : TypeStore) (f : Function) (b : Block) : List Violation → Prop where
  | unsealed : b.terminator = none → Reports types f b [.unsealed f.name b.id]
  | agrees {t : Terminator} : b.terminator = some t → t.Agrees types f.ret →
      Reports types f b (f.missingTargets b.id t)
  | disagrees {t : Terminator} {v : Violation} : b.terminator = some t →
      f.Disagrees types b.id t v → Reports types f b (f.missingTargets b.id t ++ [v])

variable {types : TypeStore} {f : Function}

theorem missingTargets_eq_nil {block : BlockId} {t : Terminator} :
    f.missingTargets block t = [] ↔ ∀ j ∈ t.successors, (f.block? j).isSome := by
  simp [missingTargets, List.filter_eq_nil_iff, Option.isSome_iff_ne_none]

theorem Disagrees.not_agrees {block : BlockId} {t : Terminator} {v : Violation}
    (h : f.Disagrees types block t v) : ¬ t.Agrees types f.ret := by
  cases h with
  | condition hbool _ => exact hbool
  | missing hvoid _ => exact hvoid
  | unexpected hvoid => exact fun hagrees => hagrees.1 hvoid
  | mismatch _ hne _ _ => exact fun hagrees => hne hagrees.2

theorem Disagrees.block? {block : BlockId} {t : Terminator} {v : Violation}
    (h : f.Disagrees types block t v) : v.block? = some block := by
  cases h <;> rfl

theorem Reports.eq_nil_iff {b : Block} {vs : List Violation} (h : f.Reports types b vs) :
    vs = [] ↔ f.SoundBlock types b := by
  cases h with
  | unsealed ht =>
    constructor
    · intro h
      cases h
    · rintro ⟨t, ht', _⟩
      rw [ht] at ht'
      cases ht'
  | @agrees t ht hagrees =>
    rw [missingTargets_eq_nil]
    constructor
    · exact fun htargets => ⟨t, ht, htargets, hagrees⟩
    · rintro ⟨t', ht', htargets, _⟩
      obtain rfl : t = t' := Option.some.inj (ht.symm.trans ht')
      exact htargets
  | @disagrees t v ht hdisagrees =>
    constructor
    · intro h
      simp at h
    · rintro ⟨t', ht', _, hagrees⟩
      obtain rfl : t = t' := Option.some.inj (ht.symm.trans ht')
      exact absurd hagrees hdisagrees.not_agrees

theorem Reports.block? {b : Block} {vs : List Violation} (h : f.Reports types b vs) :
    ∀ v ∈ vs, v.block? = some b.id := by
  have hmissing : ∀ t, ∀ v ∈ f.missingTargets b.id t, v.block? = some b.id := by
    intro t v hv
    obtain ⟨target, _, rfl⟩ := List.mem_map.mp hv
    rfl
  cases h with
  | unsealed _ => simp [Violation.block?]
  | agrees _ _ => exact hmissing _
  | disagrees _ hdisagrees =>
    intro v hv
    rcases List.mem_append.mp hv with hv | hv
    · exact hmissing _ v hv
    · obtain rfl := List.mem_singleton.mp hv
      exact hdisagrees.block?

theorem operandViolations_of_agrees (hret : types.Has f.ret) (block : BlockId) {t : Terminator}
    (h : t.Agrees types f.ret) : f.operandViolations types block t = .ok [] := by
  obtain ⟨ret, hbody⟩ := hret
  have hret := TypeStore.body_eq hbody
  cases t with
  | br | unreachable => rfl
  | condBr cond thenBlock elseBlock =>
    have hcond : types.body cond.type = .ok (.int 1) := TypeStore.body_eq h
    simp only [operandViolations, hcond, bind, Except.bind]
    rfl
  | ret value =>
    cases value with
    | none =>
      obtain rfl : ret = .void := Option.some.inj (hbody.symm.trans h)
      simp only [operandViolations, hret, bind, Except.bind]
      rfl
    | some value =>
      have hvoid : ¬ ret.isVoid = true := fun hvoid =>
        h.1 (hbody.trans (congrArg some (Ty.isVoid_iff.mp hvoid)))
      simp only [operandViolations, hret, bind, Except.bind, if_neg hvoid, if_pos h.2]
      rfl

theorem operandViolations_of_not_agrees (hret : types.Contains f.ret) (block : BlockId)
    {t : Terminator} (ht : ∀ id ∈ t.types, types.Contains id) (h : ¬ t.Agrees types f.ret) :
    ∃ v, f.operandViolations types block t = .ok [v] ∧ f.Disagrees types block t v := by
  obtain ⟨ret, hbody⟩ := hret.has
  obtain ⟨expected, hexpected⟩ := hret.exists_ref
  have hvoid : ret.isVoid = true ↔ types.IsVoid f.ret := by
    rw [Ty.isVoid_iff, TypeStore.IsVoid, hbody, Option.some.injEq]
  have hret := TypeStore.body_eq hbody
  cases t with
  | br | unreachable => exact absurd trivial h
  | condBr cond thenBlock elseBlock =>
    have hcond := ht cond.type (by simp [Terminator.types])
    obtain ⟨type, htype⟩ := hcond.has
    obtain ⟨actual, hactual⟩ := hcond.exists_ref
    have hwide : ¬ type.isBool = true := fun hbool =>
      h (htype.trans (congrArg some (Ty.isBool_iff.mp hbool)))
    simp only [operandViolations, TypeStore.body_eq htype, TypeStore.ref_eq hactual, bind,
      Except.bind, if_neg hwide]
    exact ⟨_, rfl, .condition h hactual⟩
  | ret value =>
    cases value with
    | none =>
      simp only [operandViolations, hret, TypeStore.ref_eq hexpected, bind, Except.bind,
        if_neg (h ∘ hvoid.mp)]
      exact ⟨_, rfl, .missing h hexpected⟩
    | some value =>
      obtain ⟨actual, hactual⟩ := (ht value.type (by simp [Terminator.types])).exists_ref
      by_cases hnone : types.IsVoid f.ret
      · simp only [operandViolations, hret, bind, Except.bind, if_pos (hvoid.mpr hnone)]
        exact ⟨_, rfl, .unexpected hnone⟩
      · have hother : ¬ value.type = f.ret := fun hsame => h ⟨hnone, hsame⟩
        simp only [operandViolations, hret, TypeStore.ref_eq hexpected, TypeStore.ref_eq hactual,
          bind, Except.bind, if_neg (hnone ∘ hvoid.mp), if_neg hother]
        exact ⟨_, rfl, .mismatch hnone hother hexpected hactual⟩

theorem blockViolations_spec (h : f.Known types) {b : Block} (hb : b ∈ f.blocks.toList) :
    ∃ vs, f.blockViolations types b = .ok vs ∧ f.Reports types b vs := by
  cases ht : b.terminator with
  | none => exact ⟨_, by rw [blockViolations, ht], .unsealed ht⟩
  | some t =>
    by_cases hagrees : t.Agrees types f.ret
    · have hnone := operandViolations_of_agrees h.ret.has b.id hagrees
      refine ⟨f.missingTargets b.id t, ?_, .agrees ht hagrees⟩
      simp only [blockViolations, ht, hnone, bind, Except.bind, List.append_nil]
      rfl
    · obtain ⟨v, hv, hdisagrees⟩ :=
        operandViolations_of_not_agrees h.ret b.id (h.terminators b hb t ht) hagrees
      refine ⟨f.missingTargets b.id t ++ [v], ?_, .disagrees ht hdisagrees⟩
      simp only [blockViolations, ht, hv]
      rfl

/-! ## The whole function -/

theorem verify_spec (h : f.Known types) : ∃ found, f.verify types = .ok found.flatten ∧
    List.Forall₂ (f.Reports types) f.blocks.toList found := by
  have hall : ∀ blocks : List Block, (∀ b ∈ blocks, b ∈ f.blocks.toList) →
      ∃ found, blocks.mapM (f.blockViolations types) = .ok found ∧
        List.Forall₂ (f.Reports types) blocks found := by
    intro blocks hsub
    induction blocks with
    | nil => exact ⟨[], rfl, .nil⟩
    | cons b rest ih =>
      obtain ⟨vs, hvs, hreports⟩ := blockViolations_spec h (hsub b (by simp))
      obtain ⟨found, hfound, hrest⟩ := ih fun b' hb' => hsub b' (by simp [hb'])
      exact ⟨vs :: found, by rw [List.mapM_cons, hvs, hfound]; rfl, .cons hreports hrest⟩
  obtain ⟨found, hfound, hreports⟩ := hall _ fun _ hb => hb
  exact ⟨found, by rw [verify, hfound]; rfl, hreports⟩

theorem flatten_eq_nil_iff {blocks : List Block} {found : List (List Violation)}
    (h : List.Forall₂ (f.Reports types) blocks found) :
    found.flatten = [] ↔ ∀ b ∈ blocks, f.SoundBlock types b := by
  induction h with
  | nil => simp
  | cons hreports _ ih => simp [List.flatten_cons, hreports.eq_nil_iff, ih]

theorem verify_of_sound (hret : types.Has f.ret)
    (h : ∀ b ∈ f.blocks.toList, f.SoundBlock types b) : f.verify types = .ok [] := by
  have hall : ∀ b ∈ f.blocks.toList, f.blockViolations types b = .ok [] := by
    intro b hb
    obtain ⟨t, ht, htargets, hagrees⟩ := h b hb
    simp only [blockViolations, ht, operandViolations_of_agrees hret b.id hagrees,
      missingTargets_eq_nil.mpr htargets]
    rfl
  rw [verify, mapM_nothing hall]
  simp only [bind, Except.bind, pure, Except.pure, flatten_nothing]

/-- Control can go from block to block. -/
def Edge (f : Function) (i j : BlockId) : Prop := ∃ b, f.block? i = some b ∧ j ∈ b.successors

def SoundAt (types : TypeStore) (f : Function) (i : BlockId) : Prop :=
  ∃ b, f.block? i = some b ∧ f.SoundBlock types b

theorem mem_of_block? {i : BlockId} {b : Block} (h : f.block? i = some b) :
    b ∈ f.blocks.toList := by
  rw [block?] at h
  split at h
  · rename_i b' hget
    split at h
    · cases h
      exact List.mem_of_getElem? (Array.getElem?_toList.trans hget)
    · cases h
  · cases h

theorem soundAt_of_path (hsound : ∀ b ∈ f.blocks.toList, f.SoundBlock types b) {i j : BlockId}
    (hi : (f.block? i).isSome) (hpath : ReflTransGen f.Edge i j) : f.SoundAt types j := by
  induction hpath with
  | refl =>
    obtain ⟨b, hb⟩ := Option.isSome_iff_exists.mp hi
    exact ⟨b, hb, hsound b (mem_of_block? hb)⟩
  | tail _ hedge ih =>
    obtain ⟨b, hb, t, ht, htargets, _⟩ := ih
    obtain ⟨b', hb', hnext⟩ := hedge
    obtain rfl : b = b' := Option.some.inj (hb.symm.trans hb')
    rw [Block.successors, ht] at hnext
    obtain ⟨next, hblock⟩ := Option.isSome_iff_exists.mp (htargets _ hnext)
    exact ⟨next, hblock, hsound next (mem_of_block? hblock)⟩

/-- The block is listed among the violations. -/
def Listed (listed : List Violation) (b : Block) : Prop := ∃ v ∈ listed, v.block? = some b.id

/-- `f'` is `f` after every block that is listed has been made sound. Other blocks end as they did,
and sound blocks may have been added. -/
structure Mends (types : TypeStore) (f f' : Function) (listed : List Violation) : Prop where
  ret : f'.ret = f.ret
  blocks : ∀ (i : Nat) (b : Block), f.blocks[i]? = some b → ∃ b', f'.blocks[i]? = some b' ∧
    b'.id = b.id ∧ (Listed listed b → f'.SoundBlock types b') ∧
    (¬ Listed listed b → b'.terminator = b.terminator)
  added : ∀ (i : Nat) (b' : Block), f'.blocks[i]? = some b' → f.blocks.size ≤ i →
    f'.SoundBlock types b'

theorem sound_of_not_listed {blocks : List Block} {found : List (List Violation)}
    (h : List.Forall₂ (f.Reports types) blocks found) :
    ∀ b ∈ blocks, ¬ Listed found.flatten b → f.SoundBlock types b := by
  induction h with
  | nil => simp
  | @cons b vs rest found hreports _ ih =>
    intro b' hb' hnot
    rcases List.mem_cons.mp hb' with rfl | hb'
    · refine hreports.eq_nil_iff.mp (List.eq_nil_iff_forall_not_mem.mpr fun v hv => hnot ?_)
      exact ⟨v, List.mem_append_left _ hv, hreports.block? v hv⟩
    · exact ih b' hb' fun ⟨v, hv, hblock⟩ => hnot ⟨v, List.mem_append_right _ hv, hblock⟩

namespace Mends

variable {f' : Function} {listed : List Violation}

theorem block?_isSome (h : Mends types f f' listed) {j : BlockId} (hj : (f.block? j).isSome) :
    (f'.block? j).isSome := by
  obtain ⟨b, hb⟩ := Option.isSome_iff_exists.mp hj
  rw [block?] at hb
  split at hb
  · rename_i b₀ hget
    split at hb
    · rename_i hid
      obtain ⟨b', hget', hid', _⟩ := h.blocks _ _ hget
      simp [block?, hget', hid', hid]
    · cases hb
  · cases hb

theorem sound {found : List (List Violation)}
    (hreports : List.Forall₂ (f.Reports types) f.blocks.toList found)
    (h : Mends types f f' found.flatten) :
    ∀ b' ∈ f'.blocks.toList, f'.SoundBlock types b' := by
  intro b' hb'
  obtain ⟨i, hi⟩ := List.mem_iff_getElem?.mp hb'
  rw [Array.getElem?_toList] at hi
  cases hget : f.blocks[i]? with
  | none => exact h.added i b' hi (Array.getElem?_eq_none_iff.mp hget)
  | some b =>
    obtain ⟨b₁, hb₁, _, hlisted, hsame⟩ := h.blocks i b hget
    obtain rfl : b' = b₁ := Option.some.inj (hi.symm.trans hb₁)
    by_cases hb : Listed found.flatten b
    · exact hlisted hb
    · have hmem : b ∈ f.blocks.toList := List.mem_of_getElem? (Array.getElem?_toList.trans hget)
      obtain ⟨t, ht, htargets, hagrees⟩ := sound_of_not_listed hreports b hmem hb
      exact ⟨t, (hsame hb).trans ht, fun j hj => h.block?_isSome (htargets j hj),
        h.ret ▸ hagrees⟩

end Mends

/-- The verifier accepts the functions whose blocks are sound, and otherwise lists what each block
reports, in order. The function passes once the blocks listed have been mended, and every path
through a function that passes stays among sound blocks. -/
theorem verify_exact (h : f.Known types) : ∃ found, f.verify types = .ok found.flatten ∧
    List.Forall₂ (f.Reports types) f.blocks.toList found ∧
    (found.flatten = [] ↔ ∀ b ∈ f.blocks.toList, f.SoundBlock types b) ∧
    (∀ f', Mends types f f' found.flatten → f'.verify types = .ok []) ∧
    (found.flatten = [] → ∀ i j, (f.block? i).isSome → ReflTransGen f.Edge i j →
      f.SoundAt types j) := by
  obtain ⟨found, hverify, hreports⟩ := verify_spec h
  have hnil := flatten_eq_nil_iff hreports
  exact ⟨found, hverify, hreports, hnil,
    fun f' hmends => verify_of_sound (hmends.ret ▸ h.ret.has) (hmends.sound hreports),
    fun hnone _ _ hi hpath => soundAt_of_path (hnil.mp hnone) hi hpath⟩

/-- A function whose only block branches on a wide integer, to itself or to no block. -/
def stray (i64 void : TypeId) : Function :=
  let cond : Value := .ofConst (.int 1) i64
  ⟨"f", [], void, #[], #[⟨⟨0⟩, [], some (.condBr cond ⟨7⟩ ⟨0⟩)⟩]⟩

theorem verify_exact_stray : let types : TypeStore := ⟨#[⟨none, .int 64⟩, ⟨none, .void⟩]⟩
    ∃ found, (stray ⟨0⟩ ⟨1⟩).verify types = .ok found.flatten ∧
      found = [[.missingTarget "f" ⟨0⟩ ⟨7⟩, .nonBoolCondition "f" ⟨0⟩ "i64"]] := by
  intro types
  have hknown : (stray ⟨0⟩ ⟨1⟩).Known types := by
    have hvoid : types.slot? ⟨1⟩ = some ⟨none, .void⟩ := rfl
    have hwide : types.slot? ⟨0⟩ = some ⟨none, .int 64⟩ := rfl
    refine ⟨.anonymous hvoid (by simp [Ty.refs]), fun b hb t ht id hid => ?_⟩
    obtain rfl := List.mem_singleton.mp hb
    cases ht
    obtain rfl := List.mem_singleton.mp hid
    exact .anonymous hwide (by simp [Ty.refs])
  obtain ⟨found, hverify, hreports, _⟩ := verify_exact hknown
  have hall : (stray ⟨0⟩ ⟨1⟩).verify types =
      .ok [.missingTarget "f" ⟨0⟩ ⟨7⟩, .nonBoolCondition "f" ⟨0⟩ "i64"] := by decide
  refine ⟨found, hverify, ?_⟩
  rw [hall, Except.ok.injEq] at hverify
  obtain ⟨vs, rfl⟩ := List.length_eq_one_iff.mp hreports.length_eq.symm
  rw [hverify, List.flatten_singleton]

end Function

end Midend.Ir
