import Mathlib.Logic.Relation
import Midend.Proofs.Flow

/-!
# Midend.Proofs.LifeCycle

The builder of a function under any sequence of calls, failing ones included
(`calls_keep_lifeCycle`). A block is open from the call that made it to the one call that seals it,
and is never written to afterwards; a local is a parameter or the result of one instruction.

Every call is made of `Step`s, and what holds of all steps holds of all calls.
-/

namespace Midend.Ir

open Relation

namespace Builder

inductive Call where
  | addParam (name : Option String) (type : TypeId)
  | createBlock
  | switchTo (id : BlockId)
  | ensureOpen
  | push (type : TypeId) (operation : Operation)
  | pushVoid (type : TypeId) (operation : Operation)
  | terminate (t : Terminator)
  | terminateBlock (id : BlockId) (t : Terminator)
  | terminateIfOpen (t : Terminator)

inductive Answer where
  | value (v : Value)
  | block (id : BlockId)
  | unit
  | flag (b : Bool)
  deriving DecidableEq

namespace Call

def build : Call → Build Answer
  | .addParam name type => .value <$> Build.addParam name type
  | .createBlock => .block <$> Build.createBlock
  | .switchTo id => (fun _ => .unit) <$> Build.switchTo id
  | .ensureOpen => .block <$> Build.ensureOpen
  | .push type operation => .value <$> Build.push type operation
  | .pushVoid type operation => .value <$> Build.pushVoid type operation
  | .terminate t => (fun _ => .unit) <$> Build.terminate t
  | .terminateBlock id t => (fun _ => .unit) <$> Build.terminateBlock id t
  | .terminateIfOpen t => .flag <$> Build.terminateIfOpen t

/-- A call that breaks the contract leaves the builder as it is. -/
def apply (b : Builder) (c : Call) : Except Breach Answer × Builder :=
  match c.build.run b with
  | .ok (answer, b') => (.ok answer, b')
  | .error e => (.error e, b)

/-- The block that the call names is there. -/
def Valid (b : Builder) : Call → Prop
  | .switchTo id | .terminateBlock id _ => id.index < b.size
  | _ => True

instance (b : Builder) (c : Call) : Decidable (c.Valid b) := by
  cases c <;> unfold Valid <;> infer_instance

end Call

def after (b : Builder) (calls : List Call) : Builder := calls.foldl (fun b c => (c.apply b).2) b

def AllValid (b : Builder) : List Call → Prop
  | [] => True
  | c :: rest => c.Valid b ∧ AllValid (c.apply b).2 rest

variable {b b' : Builder}

/-- With the cursor on an open block: where it is, or on a new one. -/
def opened (b : Builder) : Builder :=
  match b.cursorIsOpen with
  | .ok true => b
  | _ => b.withBlock.moved ⟨b.size⟩

theorem opened_of_open (h : b.Open b.cursor) : b.opened = b := by
  have hopen : b.cursorIsOpen = .ok true := isOpen_of_open h
  rw [opened, hopen]

theorem opened_of_sealed (hc : b.cursor.index < b.size) (h : ¬ b.Open b.cursor) :
    b.opened = b.withBlock.moved ⟨b.size⟩ := by
  have hsealed : b.cursorIsOpen = .ok false := isOpen_of_sealed hc h
  rw [opened, hsealed]

theorem open_opened (hc : b.cursor.index < b.size) : b.opened.Open b.opened.cursor := by
  by_cases h : b.Open b.cursor
  · rw [opened_of_open h]
    exact h
  · rw [opened_of_sealed hc h, open_moved, open_withBlock]
    exact .inl rfl

theorem locals_opened (b : Builder) : b.opened.locals = b.locals := by
  rw [opened]
  split <;> rfl

@[simp] theorem ret_opened (b : Builder) : b.opened.ret = b.ret := by
  rw [opened]
  split <;> rfl

theorem opened_withLocal (b : Builder) (type : TypeId) :
    (b.withLocal type).opened = b.opened.withLocal type := by
  have hsame : (b.withLocal type).cursorIsOpen = b.cursorIsOpen := rfl
  rw [opened, opened, hsame]
  split <;> rfl

end Builder

namespace Build

open Builder

variable {b : Builder}

theorem run_ensureOpen (hc : b.cursor.index < b.size) :
    ensureOpen.run b = .ok (b.opened.cursor, b.opened) := by
  by_cases h : b.Open b.cursor
  · rw [run_ensureOpen_of_open h, opened_of_open h]
  · rw [run_ensureOpen_of_sealed hc h, opened_of_sealed hc h]
    rfl

theorem run_append_opened (hc : b.cursor.index < b.size) (inst : Inst) :
    (append inst).run b = .ok ((), b.opened.emitted inst) := by
  simp [append, run_ensureOpen hc, ok_bind, pure_eq, Builder.emitted]

theorem run_push_opened (hc : b.cursor.index < b.size) (type : TypeId) (operation : Operation) :
    (push type operation).run b =
      .ok (.ofLocal ⟨b.locals.size⟩ type, b.opened.pushed type operation) := by
  have happend := run_append_opened (b := b.withLocal type) hc
    ⟨some ⟨b.locals.size⟩, type, operation⟩
  rw [opened_withLocal] at happend
  have hpush : (push type operation).run b =
      (fun r => (Value.ofLocal ⟨b.locals.size⟩ type, r.2)) <$>
        (append ⟨some ⟨b.locals.size⟩, type, operation⟩).run (b.withLocal type) := by
    simp [push, addLocal, Builder.withLocal]
  rw [hpush, happend, Except.map_ok, pushed, locals_opened]

theorem run_pushVoid_opened (hc : b.cursor.index < b.size) (type : TypeId) (operation : Operation) :
    (pushVoid type operation).run b =
      .ok (.ofConst .void type, b.opened.emitted ⟨none, type, operation⟩) := by
  simp [pushVoid, run_append_opened hc ⟨none, type, operation⟩]

theorem run_terminateBlock_of_sealed {i : BlockId} {blk : Block} (hblk : b.block? i = some blk)
    (h : ¬ b.Open i) (t : Terminator) :
    (terminateBlock i t).run b = .error (.sealedTwice blk.id) := by
  have hget : b.blocks[i.index]? = some blk := hblk
  have hsealed : blk.isOpen = false := by
    cases ht : blk.terminator with
    | none => exact absurd ⟨blk, hblk, ht⟩ h
    | some _ => simp [Block.isOpen, ht]
  simp [terminateBlock, StateT.run, hget, hsealed]

theorem run_terminate_of_sealed {blk : Block} (hblk : b.block? b.cursor = some blk)
    (h : ¬ b.Open b.cursor) (t : Terminator) :
    (terminate t).run b = .error (.sealedTwice blk.id) := by
  have hrun : (terminate t).run b = (terminateBlock b.cursor t).run b := rfl
  rw [hrun, run_terminateBlock_of_sealed hblk h]

end Build

namespace Builder

variable {b b' : Builder}

/-! ## Steps -/

/-- The least changes that calls are made of. Code is written to open blocks only. -/
inductive Step (b : Builder) : Builder → Prop where
  | param {name : Option String} {type : TypeId} : Step b (b.withParam name type)
  | create : Step b b.withBlock
  | move {i : BlockId} : i.index < b.size → Step b (b.moved i)
  | push {type : TypeId} {operation : Operation} : b.Open b.cursor →
      Step b (b.pushed type operation)
  | emit {type : TypeId} {operation : Operation} : b.Open b.cursor →
      Step b (b.emitted ⟨none, type, operation⟩)
  | close {i : BlockId} {t : Terminator} : b.Open i → Step b (b.closed i t)

theorem steps_opened (hc : b.cursor.index < b.size) : ReflTransGen Step b b.opened := by
  by_cases h : b.Open b.cursor
  · rw [opened_of_open h]
  · rw [opened_of_sealed hc h]
    exact .tail (.single .create) (.move (by simp))

/-- Blocks and locals carry their own numbers. The parameters are the locals that are marked so, and
each of the others is the result of one instruction. -/
structure Ordered (b : Builder) : Prop where
  cursor : b.cursor.index < b.size
  ownIds : b.OwnIds
  localId : ∀ id l, b.local? id = some l → l.id = id
  params : b.params = (b.locals.toList.filter Local.isParam).map Local.id
  results : b.defined.Perm ((b.locals.toList.filter fun l => !l.isParam).map Local.id)

theorem start_ordered (name : String) (ret : TypeId) : (start name ret).Ordered where
  cursor := by simp [start, size]
  ownIds i blk hblk := by
    obtain ⟨i⟩ := i
    cases i with
    | zero =>
      cases hblk
      rfl
    | succ i => simp [block?, start] at hblk
  localId id l hl := by simp [local?, start] at hl
  params := rfl
  results := by simp [start, defined, Block.fresh, defs]

namespace Ordered

theorem nodup_ids (h : b.Ordered) : (b.locals.toList.map Local.id).Nodup := by
  have hids : b.locals.toList.map Local.id = (List.range b.locals.size).map LocalId.mk := by
    refine List.ext_getElem? fun i => ?_
    rw [List.getElem?_map, List.getElem?_map, Array.getElem?_toList]
    rcases Nat.lt_or_ge i b.locals.size with hlt | hge
    · have hl : b.local? ⟨i⟩ = some b.locals[i] := Array.getElem?_eq_getElem hlt
      rw [List.getElem?_range hlt, Array.getElem?_eq_getElem hlt]
      exact congrArg some (h.localId _ _ hl)
    · rw [Array.getElem?_eq_none hge, List.getElem?_eq_none (by simpa using hge)]
      rfl
  rw [hids]
  exact List.Nodup.map (fun _ _ heq => LocalId.mk.inj heq) List.nodup_range

theorem nodup_defined (h : b.Ordered) : b.defined.Nodup :=
  h.results.nodup_iff.mpr (h.nodup_ids.sublist (List.filter_sublist.map _))

theorem withLocal_localId (h : b.Ordered) {l : Local} (hid : l.id = ⟨b.locals.size⟩) (id : LocalId)
    (other : Local) (hother : (b.locals.push l)[id.index]? = some other) : other.id = id := by
  rw [Array.getElem?_push] at hother
  split at hother
  · rename_i hindex
    cases hother
    rw [hid, ← hindex]
  · exact h.localId id other hother

theorem step (h : b.Ordered) (hstep : Step b b') : b'.Ordered := by
  cases hstep with
  | @param name type =>
    refine ⟨h.cursor, h.ownIds, h.withLocal_localId rfl, ?_, ?_⟩
    · show b.params ++ _ = _
      simp [withParam, h.params]
    · show b.defined.Perm _
      simpa [withParam] using h.results
  | create =>
    refine ⟨?_, h.ownIds.withBlock, h.localId, h.params, ?_⟩
    · rw [size_withBlock]
      exact Nat.lt_succ_of_lt h.cursor
    · rw [defined_withBlock]
      exact h.results
  | move hi => exact ⟨hi, h.ownIds, h.localId, h.params, h.results⟩
  | @push type operation hopen =>
    refine ⟨?_, (h.ownIds : (b.withLocal type).OwnIds).emitted _, h.withLocal_localId rfl, ?_, ?_⟩
    · show b.cursor.index < ((b.withLocal type).emitted _).size
      rw [size_emitted]
      exact h.cursor
    · show b.params = _
      simp [pushed, emitted, withLocal, h.params]
    · have hperm := defined_emitted (b := b.withLocal type) h.cursor
        ⟨some ⟨b.locals.size⟩, type, operation⟩
      have hresults : (b.withLocal type).defined.Perm _ := h.results
      refine hperm.trans ((hresults.append_right _).trans (.of_eq ?_))
      simp [pushed, emitted, withLocal, defs]
  | @emit type operation hopen =>
    refine ⟨?_, h.ownIds.emitted _, h.localId, h.params, ?_⟩
    · rw [size_emitted]
      exact h.cursor
    · have hperm := defined_emitted h.cursor ⟨none, type, operation⟩
      have hnone : defs [⟨none, type, operation⟩] = [] := rfl
      rw [hnone, List.append_nil] at hperm
      exact hperm.trans h.results
  | @close i t hopen =>
    refine ⟨?_, h.ownIds.closed i t, h.localId, h.params, ?_⟩
    · rw [size_closed]
      exact h.cursor
    · rw [defined_closed]
      exact h.results

theorem steps (h : b.Ordered) (hsteps : ReflTransGen Step b b') : b'.Ordered := by
  induction hsteps with
  | refl => exact h
  | tail _ hstep ih => exact ih.step hstep

end Ordered

/-- Later in the building of a function: it differs in the parameters that were added, and otherwise
has only grown. -/
structure Later (b b' : Builder) : Prop where
  params : b.params <+: b'.params
  grown : { b with params := b'.params }.Le b'

theorem Le.later (h : b.Le b') : b.Later b' where
  params := h.params ▸ List.prefix_refl _
  grown := ⟨h.name, h.ret, rfl, h.locals, h.block⟩

namespace Later

theorem refl (b : Builder) : b.Later b := (Le.refl b).later

theorem trans {b'' : Builder} (h₁ : b.Later b') (h₂ : b'.Later b'') : b.Later b'' where
  params := h₁.params.trans h₂.params
  grown :=
    have hsame : { b with params := b''.params }.Le { b' with params := b''.params } :=
      ⟨h₁.grown.name, h₁.grown.ret, rfl, h₁.grown.locals, h₁.grown.block⟩
    hsame.trans h₂.grown

theorem step (hstep : Step b b') : b.Later b' := by
  cases hstep with
  | @param name type =>
    refine ⟨List.prefix_append _ _, rfl, rfl, rfl, fun id l h => ?_,
      fun _ blk h => ⟨blk, h, List.prefix_refl _, fun _ _ => rfl⟩⟩
    have hlt : id.index < b.locals.size := local_lt h
    show (b.locals.push _)[id.index]? = some l
    rw [Array.getElem?_push, if_neg (Nat.ne_of_lt hlt)]
    exact h
  | create => exact (Le.withBlock b).later
  | @move i _ => exact (Le.moved b i).later
  | push h => exact (Le.pushed h _ _).later
  | emit h => exact (Le.emitted h _).later
  | close h => exact (Le.closed h _).later

theorem steps (hsteps : ReflTransGen Step b b') : b.Later b' := by
  induction hsteps with
  | refl => exact .refl b
  | tail _ hstep ih => exact ih.trans (.step hstep)

theorem sealed (h : b.Later b') {i : BlockId} {blk : Block} {t : Terminator}
    (hblk : b.block? i = some blk) (ht : blk.terminator = some t) : b'.block? i = some blk :=
  h.grown.sealed hblk ht

end Later

namespace Call

section

variable (hc : b.cursor.index < b.size)

include hc

theorem apply_ensureOpen : ensureOpen.apply b = (.ok (.block b.opened.cursor), b.opened) := by
  simp only [apply, build, StateT.run_map, Build.run_ensureOpen hc, Except.map_ok]

theorem apply_push (type : TypeId) (operation : Operation) : (push type operation).apply b =
    (.ok (.value (.ofLocal ⟨b.locals.size⟩ type)), b.opened.pushed type operation) := by
  simp only [apply, build, StateT.run_map, Build.run_push_opened hc, Except.map_ok]

theorem apply_pushVoid (type : TypeId) (operation : Operation) : (pushVoid type operation).apply b =
    (.ok (.value (.ofConst .void type)), b.opened.emitted ⟨none, type, operation⟩) := by
  simp only [apply, build, StateT.run_map, Build.run_pushVoid_opened hc, Except.map_ok]

end

section

variable {i : BlockId} (t : Terminator)

theorem apply_terminateBlock_of_open (h : b.Open i) :
    (terminateBlock i t).apply b = (.ok .unit, b.closed i t) := by
  simp only [apply, build, StateT.run_map, Build.run_terminateBlock h, Except.map_ok]

theorem apply_terminate_of_open (h : b.Open b.cursor) :
    (terminate t).apply b = (.ok .unit, b.closed b.cursor t) := by
  simp only [apply, build, StateT.run_map, Build.run_terminate h, Except.map_ok]

theorem apply_terminateIfOpen_of_open (h : b.Open b.cursor) :
    (terminateIfOpen t).apply b = (.ok (.flag true), b.closed b.cursor t) := by
  simp only [apply, build, StateT.run_map, Build.run_terminateIfOpen_of_open h, Except.map_ok]

variable (hb : b.Ordered)

include hb

theorem apply_terminateBlock_of_sealed (hi : i.index < b.size) (h : ¬ b.Open i) :
    (terminateBlock i t).apply b = (.error (.sealedTwice i), b) := by
  obtain ⟨blk, hblk⟩ := block?_of_lt hi
  have hid := hb.ownIds i blk hblk
  simp only [apply, build, StateT.run_map, Build.run_terminateBlock_of_sealed hblk h, hid]
  rfl

theorem apply_terminate_of_sealed (h : ¬ b.Open b.cursor) :
    (terminate t).apply b = (.error (.sealedTwice b.cursor), b) := by
  obtain ⟨blk, hblk⟩ := block?_of_lt hb.cursor
  have hid := hb.ownIds _ blk hblk
  simp only [apply, build, StateT.run_map, Build.run_terminate_of_sealed hblk h, hid]
  rfl

theorem apply_terminateIfOpen_of_sealed (h : ¬ b.Open b.cursor) :
    (terminateIfOpen t).apply b = (.ok (.flag false), b) := by
  simp only [apply, build, StateT.run_map, Build.run_terminateIfOpen_of_sealed hb.cursor h,
    Except.map_ok]

end

theorem steps (hb : b.Ordered) (c : Call) (hc : c.Valid b) : ReflTransGen Step b (c.apply b).2 := by
  have hopen := open_opened hb.cursor
  have hopened := steps_opened hb.cursor
  cases c with
  | addParam name type => exact .single .param
  | createBlock => exact .single .create
  | switchTo i => exact .single (.move hc)
  | ensureOpen =>
    rw [apply_ensureOpen hb.cursor]
    exact hopened
  | push type operation =>
    rw [apply_push hb.cursor]
    exact hopened.tail (.push hopen)
  | pushVoid type operation =>
    rw [apply_pushVoid hb.cursor]
    exact hopened.tail (.emit hopen)
  | terminate t =>
    by_cases h : b.Open b.cursor
    · rw [apply_terminate_of_open t h]
      exact .single (.close h)
    · rw [apply_terminate_of_sealed t hb h]
  | terminateBlock i t =>
    by_cases h : b.Open i
    · rw [apply_terminateBlock_of_open t h]
      exact .single (.close h)
    · rw [apply_terminateBlock_of_sealed t hb hc h]
  | terminateIfOpen t =>
    by_cases h : b.Open b.cursor
    · rw [apply_terminateIfOpen_of_open t h]
      exact .single (.close h)
    · rw [apply_terminateIfOpen_of_sealed t hb h]

end Call

theorem steps_after {calls : List Call} (hb : b.Ordered) (h : b.AllValid calls) :
    ReflTransGen Step b (b.after calls) := by
  induction calls generalizing b with
  | nil => exact .refl
  | cons c rest ih =>
    have hsteps := c.steps hb h.1
    exact hsteps.trans (ih (hb.steps hsteps) h.2)

theorem after_append (b : Builder) (calls more : List Call) :
    b.after (calls ++ more) = (b.after calls).after more := List.foldl_append

theorem allValid_append {calls more : List Call} :
    b.AllValid (calls ++ more) ↔ b.AllValid calls ∧ (b.after calls).AllValid more := by
  induction calls generalizing b with
  | nil => simp [AllValid, after]
  | cons c rest ih =>
    have hrest := @ih (c.apply b).2
    simp only [List.cons_append, AllValid, hrest, and_assoc]
    rfl

def Ends (b : Builder) (i : BlockId) (t : Terminator) : Prop :=
  ∃ blk, b.block? i = some blk ∧ blk.terminator = some t

theorem Open.not_ends {i : BlockId} (h : b.Open i) (t : Terminator) : ¬ b.Ends i t := by
  obtain ⟨blk, hblk, hnone⟩ := h
  rintro ⟨blk', hblk', ht⟩
  rw [hblk] at hblk'
  cases hblk'
  rw [hnone] at ht
  cases ht

theorem ends_withBlock {i : BlockId} {t : Terminator} : b.withBlock.Ends i t ↔ b.Ends i t := by
  constructor
  · rintro ⟨blk, hblk, ht⟩
    rcases block_withBlock_cases hblk with ⟨_, rfl⟩ | hold
    · cases ht
    · exact ⟨blk, hold, ht⟩
  · rintro ⟨blk, hblk, ht⟩
    exact ⟨blk, (Le.withBlock b).sealed hblk ht, ht⟩

theorem ends_emitted {inst : Inst} {i : BlockId} {t : Terminator} :
    (b.emitted inst).Ends i t ↔ b.Ends i t := by
  unfold Ends
  rw [block?_emitted]
  split
  · cases b.block? i <;> simp
  · rfl

theorem ends_closed {i j : BlockId} {t t' : Terminator} (h : b.Open i) :
    (b.closed i t).Ends j t' ↔ b.Ends j t' ∨ (i, t) = (j, t') := by
  rw [Prod.mk.injEq]
  constructor
  · rintro ⟨blk, hblk, ht⟩
    rcases block_closed_cases hblk with ⟨hij, old, _, rfl⟩ | ⟨_, hold⟩
    · exact .inr ⟨hij, Option.some.inj ht⟩
    · exact .inl ⟨blk, hold, ht⟩
  · rintro (⟨blk, hblk, ht⟩ | ⟨rfl, rfl⟩)
    · exact ⟨blk, (Le.closed h t).sealed hblk ht, ht⟩
    · obtain ⟨blk, hblk, _⟩ := h
      exact ⟨_, block?_closed_self hblk, rfl⟩

theorem ends_opened {i : BlockId} {t : Terminator} : b.opened.Ends i t ↔ b.Ends i t := by
  rw [opened]
  split
  · rfl
  · exact ends_withBlock

theorem ends_pushed {type : TypeId} {operation : Operation} {i : BlockId} {t : Terminator} :
    (b.pushed type operation).Ends i t ↔ b.Ends i t :=
  ends_emitted (b := b.withLocal type)

/-- The block that the call sealed, as its answer says, and with what. -/
def Call.seal? (b : Builder) (c : Call) : Option (BlockId × Terminator) :=
  match c, (c.apply b).1 with
  | .terminate t, .ok _ => some (b.cursor, t)
  | .terminateBlock i t, .ok _ => some (i, t)
  | .terminateIfOpen t, .ok (.flag true) => some (b.cursor, t)
  | _, _ => none

theorem Call.seal?_spec (hb : b.Ordered) (c : Call) (hc : c.Valid b) :
    (∀ i t, (c.apply b).2.Ends i t ↔ b.Ends i t ∨ c.seal? b = some (i, t)) ∧
      ∀ i t, c.seal? b = some (i, t) → b.Open i := by
  have hkeeps {b' : Builder} (hends : ∀ i t, b'.Ends i t ↔ b.Ends i t) :
      (∀ i t, b'.Ends i t ↔ b.Ends i t ∨ (none : Option (BlockId × Terminator)) = some (i, t)) ∧
        ∀ i t, (none : Option (BlockId × Terminator)) = some (i, t) → b.Open i :=
    ⟨fun i t => by simp [hends], fun i t h => by cases h⟩
  have hcloses {j : BlockId} (t : Terminator) (h : b.Open j) :
      (∀ i t', (b.closed j t).Ends i t' ↔ b.Ends i t' ∨ some (j, t) = some (i, t')) ∧
        ∀ i t', some (j, t) = some (i, t') → b.Open i := by
    refine ⟨fun i t' => by rw [ends_closed h, Option.some.injEq], fun i t' heq => ?_⟩
    cases heq
    exact h
  cases c with
  | addParam | createBlock => exact hkeeps fun i t => by first | rfl | exact ends_withBlock
  | switchTo i => exact hkeeps fun i t => Iff.rfl
  | ensureOpen =>
    rw [apply_ensureOpen hb.cursor]
    exact hkeeps fun i t => ends_opened
  | push type operation =>
    rw [apply_push hb.cursor]
    exact hkeeps fun i t => ends_pushed.trans ends_opened
  | pushVoid type operation =>
    rw [apply_pushVoid hb.cursor]
    exact hkeeps fun i t => ends_emitted.trans ends_opened
  | terminate t =>
    by_cases h : b.Open b.cursor
    · simpa only [seal?, apply_terminate_of_open t h] using hcloses t h
    · simpa only [seal?, apply_terminate_of_sealed t hb h] using hkeeps fun _ _ => Iff.rfl
  | terminateBlock i t =>
    by_cases h : b.Open i
    · simpa only [seal?, apply_terminateBlock_of_open t h] using hcloses t h
    · simpa only [seal?, apply_terminateBlock_of_sealed t hb hc h] using hkeeps fun _ _ => Iff.rfl
  | terminateIfOpen t =>
    by_cases h : b.Open b.cursor
    · simpa only [seal?, apply_terminateIfOpen_of_open t h] using hcloses t h
    · simpa only [seal?, apply_terminateIfOpen_of_sealed t hb h] using hkeeps fun _ _ => Iff.rfl

def seals (b : Builder) : List Call → List (BlockId × Terminator)
  | [] => []
  | c :: rest => (c.seal? b).toList ++ seals (c.apply b).2 rest

theorem seals_spec {calls : List Call} (hb : b.Ordered) (h : b.AllValid calls) :
    (∀ i t, (b.after calls).Ends i t ↔ b.Ends i t ∨ (i, t) ∈ b.seals calls) ∧
      ((b.seals calls).map Prod.fst).Nodup ∧
        ∀ i t, (i, t) ∈ b.seals calls → ∀ t', ¬ b.Ends i t' := by
  induction calls generalizing b with
  | nil => simp [after, seals]
  | cons c rest ih =>
    obtain ⟨hends, hopen⟩ := c.seal?_spec hb h.1
    obtain ⟨hrest, hnodup, hnew⟩ := ih (hb.steps (c.steps hb h.1)) h.2
    have hmem : ∀ i t, (i, t) ∈ b.seals (c :: rest) ↔
        c.seal? b = some (i, t) ∨ (i, t) ∈ (c.apply b).2.seals rest := by
      intro i t
      simp [seals]
    refine ⟨fun i t => ?_, ?_, fun i t hin t' => ?_⟩
    · rw [hmem, ← or_assoc, ← hends]
      exact hrest i t
    · cases hseal : c.seal? b with
      | none => simpa [seals, hseal] using hnodup
      | some e =>
        obtain ⟨i, t⟩ := e
        simp only [seals, hseal, Option.toList_some, List.singleton_append, List.map_cons,
          List.nodup_cons]
        refine ⟨fun hin => ?_, hnodup⟩
        obtain ⟨⟨j, t'⟩, hlater, heq⟩ := List.mem_map.mp hin
        obtain rfl : j = i := heq
        exact hnew j t' hlater t ((hends j t).mpr (.inr hseal))
    · rcases (hmem i t).mp hin with hseal | hin
      · exact (hopen i t hseal).not_ends t'
      · exact fun hold => hnew i t hin t' ((hends i t').mpr (.inl hold))

/-- The instruction was added at the end of the block under the cursor or, if that is sealed, to a
new block, which has the cursor then. Nothing else was written. -/
inductive Added (b : Builder) (inst : Inst) (b' : Builder) : Prop where
  | atCursor {blk : Block} : b.block? b.cursor = some blk → blk.terminator = none →
      b'.cursor = b.cursor →
      b'.block? b.cursor = some { blk with insts := blk.insts ++ [inst] } →
      (∀ i, i ≠ b.cursor → b'.block? i = b.block? i) → Added b inst b'
  | inNew : ¬ b.Open b.cursor → b'.cursor = ⟨b.size⟩ →
      b'.block? ⟨b.size⟩ = some ⟨⟨b.size⟩, [inst], none⟩ →
      (∀ i, i ≠ ⟨b.size⟩ → b'.block? i = b.block? i) → Added b inst b'

theorem added_emitted (hc : b.cursor.index < b.size) (inst : Inst) :
    Added b inst (b.opened.emitted inst) := by
  by_cases h : b.Open b.cursor
  · rw [opened_of_open h]
    obtain ⟨blk, hblk, hnone⟩ := h
    refine .atCursor hblk hnone rfl (block?_emitted_cursor inst hblk) fun i hi => ?_
    rw [block?_emitted, if_neg hi.symm]
  · rw [opened_of_sealed hc h]
    refine .inNew h rfl ?_ fun i hi => ?_
    · have hblk : (b.withBlock.moved ⟨b.size⟩).block? ⟨b.size⟩ = some (Block.fresh ⟨b.size⟩) := by
        rw [block?_moved, block?_withBlock]
        exact if_pos rfl
      exact block?_emitted_cursor inst hblk
    · have hcursor : (b.withBlock.moved ⟨b.size⟩).cursor ≠ i := Ne.symm hi
      rw [block?_emitted, if_neg hcursor, block?_moved, block?_withBlock, if_neg]
      exact fun heq => hi (index_inj heq)

theorem added_pushed (hc : b.cursor.index < b.size) (type : TypeId) (operation : Operation) :
    Added b ⟨some ⟨b.locals.size⟩, type, operation⟩ (b.opened.pushed type operation) := by
  have hadded := added_emitted hc ⟨some ⟨b.locals.size⟩, type, operation⟩
  rw [pushed, locals_opened]
  cases hadded with
  | atCursor hblk hnone hcursor hnew hrest => exact .atCursor hblk hnone hcursor hnew hrest
  | inNew hsealed hcursor hnew hrest => exact .inNew hsealed hcursor hnew hrest

theorem Added.mem {inst : Inst} (h : Added b inst b') :
    ∃ i blk, b'.block? i = some blk ∧ inst ∈ blk.insts := by
  cases h with
  | atCursor _ _ _ hnew _ => exact ⟨_, _, hnew, by simp⟩
  | inNew _ _ hnew _ => exact ⟨_, _, hnew, by simp⟩

theorem only_of_mem (hb : b'.Ordered) (h : b.Later b') {i : BlockId} {blk : Block} {inst : Inst}
    (hblk : b.block? i = some blk) (hinst : inst ∈ blk.insts) {id : LocalId}
    (hdst : inst.dst = some id) :
    b'.finish.insts.filter (fun inst => inst.dst = some id) = [inst] := by
  obtain ⟨blk', hblk', hprefix, _⟩ := h.grown.block i blk hblk
  have hmem : inst ∈ b'.finish.insts := by
    refine List.mem_flatMap.mpr ⟨blk', ?_, hprefix.subset hinst⟩
    have hget : b'.blocks[i.index]? = some blk' := hblk'
    exact List.mem_of_getElem? (Array.getElem?_toList.trans hget)
  have hid : id ∈ b'.defined := by
    rw [defined_eq]
    exact List.mem_filterMap.mpr ⟨inst, hmem, hdst⟩
  obtain ⟨only, honly⟩ := exists_only hb.nodup_defined hid
  have hfound : inst ∈ b'.finish.insts.filter fun inst => inst.dst = some id := by
    simp [hmem, hdst]
  rw [honly] at hfound ⊢
  rw [List.mem_singleton.mp hfound]

/-! ## Any sequence of calls -/

/-- What holds after the calls, and for as long as more calls follow. -/
structure LifeCycle (b : Builder) (calls more : List Call) : Prop where
  /-- Blocks and locals carry their own numbers. -/
  ownIds : ∀ i blk, (b.after calls).block? i = some blk → blk.id = i
  localIds : ∀ id l, (b.after calls).local? id = some l → l.id = id
  /-- Blocks and locals are added at the end, and instructions at the end of a block. -/
  grown : (b.after calls).Later (b.after (calls ++ more))
  /-- A sealed block stays as it is. -/
  sealed : ∀ i blk t, (b.after calls).block? i = some blk → blk.terminator = some t →
    (b.after (calls ++ more)).block? i = some blk
  /-- The sealed blocks are those that one call sealed, and they have its terminator. -/
  sealedOnce : ((b.seals calls).map Prod.fst).Nodup ∧
    ∀ i t, (i, t) ∈ b.seals calls ↔ (b.after calls).Ends i t
  /-- To seal a block again changes nothing. -/
  sealsAgain : ∀ i t, i.index < (b.after calls).size → ¬ (b.after calls).Open i →
    (Call.terminateBlock i t).apply (b.after calls) = (.error (.sealedTwice i), b.after calls) ∧
      ((b.after calls).cursor = i →
        (Call.terminate t).apply (b.after calls) = (.error (.sealedTwice i), b.after calls) ∧
          (Call.terminateIfOpen t).apply (b.after calls) = (.ok (.flag false), b.after calls))
  /-- An instruction with a result gets a new local, which is the result of no other, ever after. -/
  pushes : ∀ type operation rest, more = .push type operation :: rest →
    ∃ id b', (b.after calls).local? id = none ∧
      (Call.push type operation).apply (b.after calls) = (.ok (.value (.ofLocal id type)), b') ∧
      b'.locals = (b.after calls).locals.push ⟨id, none, type, false⟩ ∧
      Added (b.after calls) ⟨some id, type, operation⟩ b' ∧
      (b.after (calls ++ more)).finish.insts.filter (fun inst => inst.dst = some id) =
        [⟨some id, type, operation⟩]
  /-- An instruction without a result gets no local. -/
  pushesVoid : ∀ type operation, ∃ b',
    (Call.pushVoid type operation).apply (b.after calls) =
      (.ok (.value (.ofConst .void type)), b') ∧
    b'.locals = (b.after calls).locals ∧ Added (b.after calls) ⟨none, type, operation⟩ b'
  /-- The parameters are the locals that are marked so. -/
  params : (b.after calls).finish.params =
    ((b.after calls).finish.locals.toList.filter Local.isParam).map Local.id

/-- The builder keeps the life cycle of blocks and locals, whatever it is asked for. -/
theorem calls_keep_lifeCycle {name : String} {ret : TypeId} {calls more : List Call}
    (h : (start name ret).AllValid (calls ++ more)) : LifeCycle (start name ret) calls more := by
  have hstart := start_ordered name ret
  generalize hb : start name ret = b at h hstart
  have hfresh : ∀ i t, ¬ b.Ends i t := by
    rintro i t ⟨blk, hblk, ht⟩
    rw [← hb] at hblk
    obtain rfl := List.mem_singleton.mp (Array.mem_toList_iff.mpr (Array.mem_of_getElem? hblk))
    cases ht
  obtain ⟨hcalls, hmore⟩ := allValid_append.mp h
  have hordered := hstart.steps (steps_after hstart hcalls)
  have hlast := hordered.steps (steps_after hordered hmore)
  have hlater := Later.steps (steps_after hordered hmore)
  rw [← after_append] at hlast hlater
  obtain ⟨hends, hnodup, _⟩ := seals_spec hstart hcalls
  refine ⟨hordered.ownIds, hordered.localId, hlater, fun i blk t => hlater.sealed,
    ⟨hnodup, fun i t => ?_⟩, fun i t hi hsealed => ⟨?_, ?_⟩, fun type operation rest hrest => ?_,
    fun type operation => ?_, hordered.params⟩
  · rw [hends]
    exact ⟨.inr, fun hor => hor.resolve_left (hfresh i t)⟩
  · exact Call.apply_terminateBlock_of_sealed t hordered hi hsealed
  · rintro rfl
    exact ⟨Call.apply_terminate_of_sealed t hordered hsealed,
      Call.apply_terminateIfOpen_of_sealed t hordered hsealed⟩
  · subst hrest
    refine ⟨⟨(b.after calls).locals.size⟩, _, ?_,
      Call.apply_push hordered.cursor type operation, ?_,
      added_pushed hordered.cursor type operation, ?_⟩
    · exact Array.getElem?_eq_none (Nat.le_refl _)
    · rw [← locals_opened (b.after calls)]
      rfl
    · obtain ⟨i, blk, hblk, hinst⟩ := (added_pushed hordered.cursor type operation).mem
      have hpush := (Call.push type operation).steps hordered trivial
      rw [Call.apply_push hordered.cursor] at hpush
      have hrest := hmore.2
      rw [Call.apply_push hordered.cursor] at hrest
      have hsince := Later.steps (steps_after (hordered.steps hpush) hrest)
      have hsame : b.after (calls ++ .push type operation :: rest) =
          ((b.after calls).opened.pushed type operation).after rest := by
        rw [after_append, after, List.foldl_cons, Call.apply_push hordered.cursor]
        rfl
      rw [hsame] at hlast ⊢
      exact only_of_mem hlast hsince hblk hinst rfl
  · exact ⟨_, Call.apply_pushVoid hordered.cursor type operation, locals_opened _,
      added_emitted hordered.cursor _⟩

/-- A result after the end of the entry, a late parameter, and a return to the entry, which cannot
be sealed again or written to. -/
def detour : List Call :=
  [.terminate (.ret none), .push ⟨0⟩ (.aggregate []), .addParam (some "x") ⟨0⟩, .switchTo ⟨0⟩,
    .terminate .unreachable, .pushVoid ⟨0⟩ (.call "g" []), .terminateBlock ⟨1⟩ .unreachable]

theorem calls_keep_lifeCycle_detour : LifeCycle (start "f" ⟨0⟩) (detour.take 1) (detour.drop 1) ∧
    (start "f" ⟨0⟩).seals detour = [(⟨0⟩, .ret none), (⟨1⟩, .unreachable)] ∧
    ((start "f" ⟨0⟩).after detour).params = [⟨1⟩] ∧
    ((start "f" ⟨0⟩).after detour).blocks = #[⟨⟨0⟩, [], some (.ret none)⟩,
      ⟨⟨1⟩, [⟨some ⟨0⟩, ⟨0⟩, .aggregate []⟩], some .unreachable⟩,
      ⟨⟨2⟩, [⟨none, ⟨0⟩, .call "g" []⟩], none⟩] := by
  have hvalid : (start "f" ⟨0⟩).AllValid (detour.take 1 ++ detour.drop 1) :=
    ⟨trivial, trivial, trivial, by decide, trivial, trivial, by decide, trivial⟩
  exact ⟨calls_keep_lifeCycle hvalid, by decide +kernel, by decide +kernel, by decide +kernel⟩

end Builder

end Midend.Ir
