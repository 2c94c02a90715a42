import Mathlib.Data.List.Forall2
import Midend.Proofs.Advance
import Midend.Proofs.Source

/-!
# Midend.Proofs.Scene

Code that is being lowered next to a run of the code it will be part of. A `Scene` is a machine with
finished code and the names of the source; it covers every draft the code came from. `Scene.Leads`
is a run from where one draft stands to where another does: it leaves alone the locals that are
older than the first.
-/

namespace Midend

open Ir

namespace Ir

/-- The code of the builder is part of the function. -/
def Builder.Within (b : Builder) (f : Function) : Prop :=
  ∀ i blk, b.block? i = some blk → ∃ blk', f.block? i = some blk' ∧ blk.insts <+: blk'.insts ∧
    ∀ t, blk.terminator = some t → blk' = blk

theorem Builder.Within.of_le {b b' : Builder} {f : Function} (h : b'.Within f) (hb : b.Le b') :
    b.Within f := by
  intro i blk hblk
  obtain ⟨blk', hblk', hpre, hsealed⟩ := hb.block i blk hblk
  obtain ⟨blk'', hblk'', hpre', hsealed'⟩ := h i blk' hblk'
  refine ⟨blk'', hblk'', hpre.trans hpre', fun t ht => ?_⟩
  obtain rfl := hsealed t ht
  exact hsealed' t ht

theorem Builder.Within.finish {b : Builder} (h : b.Numbered) : b.Within b.finish := by
  intro i blk hblk
  refine ⟨blk, ?_, List.prefix_refl _, fun _ _ => rfl⟩
  have hget : b.finish.blocks[i.index]? = some blk := hblk
  simp [Function.block?, hget, h.blockId i blk hblk]

/-- The local has the value, which is of the type. -/
structure Machine.Holds {V : Type} (m : Machine V) (env : Locals V) (v : Value) (x : Datum V) :
    Prop where
  read : m.read env v = some x.value
  type : m.types.body? v.type = some x.type

end Ir

namespace Draft

variable {ctx : FnContext}

/-- The number of instructions in the cursor's block. -/
def pc (g : Draft ctx) : Nat :=
  match g.builder.block? g.cur with
  | some blk => blk.insts.length
  | none => 0

theorem pc_eq {g : Draft ctx} {blk : Block} (h : g.builder.block? g.cur = some blk) :
    g.pc = blk.insts.length := by
  simp [pc, h]

/-- A machine that has come to where the draft stands. -/
def spot {V : Type} (g : Draft ctx) (prev : Option BlockId) (env : Locals V)
    (calls : List (Call V)) : Point V :=
  { prev := prev
    block := g.cur
    pc := g.pc
    locals := env
    calls := calls }

end Draft

/-- Finished code with the names that the source has for its parameters. -/
structure Scene (ctx : FnContext) (V : Type) extends Machine V where
  names : Names V
  args : Locals V
  ret : Ty
  hasRet : types.body? code.ret = some ret
  named : ∀ name v, ctx.scope.lookup name = some v → ∃ x, names.lookup name = some x ∧
    ∃ id, v.operand = .local id ∧ id.index < code.params.length ∧ args id = some x.value ∧
      types.body? v.type = some x.type
  unnamed : ∀ name, ctx.scope.lookup name = none → names.lookup name = none

namespace Scene

variable {ctx : FnContext} {V : Type} (s : Scene ctx V)

def world : World V := { ctx.toContext with types := s.types, interp := s.interp }

@[simp] theorem world_interp : s.world.interp = s.interp := rfl

@[simp] theorem world_types : s.world.types = s.types := rfl

@[simp] theorem world_toContext : s.world.toContext = ctx.toContext := rfl

/-- The draft grew into the code. -/
structure Covers (g : Draft ctx) : Prop where
  types : g.types ≤ s.types
  code : g.builder.Within s.code
  params : s.code.params = g.builder.params
  ret : s.code.ret = g.builder.ret

/-- The parameters have the values of the arguments. -/
def Fits (env : Locals V) : Prop := ∀ id, id.index < s.code.params.length → env id = s.args id

/-- From where the first draft stands the machine gets to where the second does. -/
structure Leads (g g' : Draft ctx) (env env' : Locals V) (calls calls' : List (Call V)) :
    Prop where
  steps : ∀ prev, ∃ n prev', s.Steps n (g.spot prev env calls) (g'.spot prev' env' calls')
  kept : ∀ id, id.index < g.builder.locals.size → env' id = env id

/-- On the way, the value gets its meaning. -/
def Computes (g g' : Draft ctx) (env : Locals V) (calls : List (Call V)) (v : Value)
    (x : Datum V) (calls' : List (Call V)) : Prop :=
  ∃ env', s.Leads g g' env env' calls calls' ∧ s.Holds env' v x

variable {s} {g g' g₁ g₂ : Draft ctx} {c : BlockId} {env env₁ env₂ : Locals V}
  {calls calls₁ calls₂ : List (Call V)} {v : Value} {x : Datum V}

theorem Covers.of_le (h : s.Covers g') (ht : g.types ≤ g'.types) (hb : g.builder.Le g'.builder) :
    s.Covers g :=
  ⟨TypeStore.le_trans ht h.types, h.code.of_le hb, h.params.trans hb.params, h.ret.trans hb.ret⟩

theorem Covers.of_draft_le (h : s.Covers g') (hg : g.Le g') : s.Covers g :=
  h.of_le hg.types hg.builder

theorem Covers.of_since (h : s.Covers g') (hs : Draft.Since c g g') : s.Covers g :=
  h.of_le hs.types hs.builder

theorem Covers.body? (h : s.Covers g) {id : TypeId} {t : Ty} (hid : g.types.body? id = some t) :
    s.types.body? id = some t := TypeStore.body?_le h.types hid

theorem Covers.type_eq (h : s.Covers g) {t : Ty} (ht : g.types.body? v.type = some t)
    (hx : s.Holds env v x) : x.type = t :=
  Option.some.inj (hx.type.symm.trans (h.body? ht))

theorem Covers.ret_eq (h : s.Covers g) {t : Ty} (ht : g.types.body? g.builder.ret = some t) :
    s.ret = t := by
  have hret := s.hasRet
  rw [h.ret, h.body? ht] at hret
  exact (Option.some.inj hret).symm

variable {type : TypeId} {y : Datum V} {b : V}

theorem perform_binary (hx : s.Holds env v x) {rhs : Value} (hb : s.read env rhs = some b)
    (op : Opcode) (prev : Option BlockId) :
    s.perform (g.spot prev env calls) type (.binary op v rhs) =
      some (s.interp.binary op x.type x.value b, calls) := by
  simp [Machine.perform, Machine.compute, Draft.spot, hx.type, hx.read, hb]

theorem perform_icmp (hx : s.Holds env v x) {rhs : Value} (hy : s.Holds env rhs y)
    (pred : IntPredicate) (prev : Option BlockId) :
    s.perform (g.spot prev env calls) type (.icmp pred v rhs) =
      some (s.interp.icmp pred x.type x.value y.value, calls) := by
  simp [Machine.perform, Machine.compute, Draft.spot, hx.type, hx.read, hy.read]

theorem perform_fcmp (hx : s.Holds env v x) {rhs : Value} (hy : s.Holds env rhs y)
    (pred : FloatPredicate) (prev : Option BlockId) :
    s.perform (g.spot prev env calls) type (.fcmp pred v rhs) =
      some (s.interp.fcmp pred x.type x.value y.value, calls) := by
  simp [Machine.perform, Machine.compute, Draft.spot, hx.type, hx.read, hy.read]

theorem perform_fneg (hx : s.Holds env v x) (prev : Option BlockId) :
    s.perform (g.spot prev env calls) type (.fneg v) =
      some (s.interp.fneg x.type x.value, calls) := by
  simp [Machine.perform, Machine.compute, Draft.spot, hx.type, hx.read]

theorem perform_cast (hx : s.Holds env v x) {t : Ty} (ht : s.types.body? type = some t)
    (op : CastOp) (prev : Option BlockId) :
    s.perform (g.spot prev env calls) type (.cast op v) =
      some (s.interp.cast op x.type t x.value, calls) := by
  simp [Machine.perform, Machine.compute, Draft.spot, hx.type, hx.read, ht]

/-- The values are those of the data, in order. -/
def HoldAll (s : Scene ctx V) (env : Locals V) (vs : List Value) (xs : List (Datum V)) : Prop :=
  List.Forall₂ (fun v x => s.Holds env v x) vs xs

theorem HoldAll.read {vs : List Value} {xs : List (Datum V)} (h : HoldAll s env vs xs) :
    vs.mapM (s.read env) = some (xs.map Datum.value) := by
  induction h with
  | nil => rfl
  | cons hx _ ih => simp [hx.read, ih]

theorem perform_call {vs : List Value} {xs : List (Datum V)} (h : HoldAll s env vs xs)
    (callee : String) (prev : Option BlockId) :
    s.perform (g.spot prev env calls) type (.call callee vs) =
      some (s.interp.answer (calls ++ [⟨callee, xs.map Datum.value⟩]),
        calls ++ [⟨callee, xs.map Datum.value⟩]) := by
  simp [Machine.perform, Draft.spot, h.read]

theorem perform_aggregate {vs : List Value} {xs : List (Datum V)} (h : HoldAll s env vs xs)
    (prev : Option BlockId) :
    s.perform (g.spot prev env calls) type (.aggregate vs) =
      some (s.interp.aggregate (xs.map Datum.value), calls) := by
  simp [Machine.perform, Machine.compute, Draft.spot, h.read]

theorem Leads.stay (hcur : g'.cur = g.cur)
    (hsame : g'.builder.block? g.cur = g.builder.block? g.cur) :
    s.Leads g g' env env calls calls := by
  have hat : ∀ prev, g'.spot prev env calls = g.spot prev env calls := by
    intro prev
    have hpc : g'.pc = g.pc := by
      unfold Draft.pc
      rw [hcur, hsame]
    unfold Draft.spot
    rw [hcur, hpc]
  exact ⟨fun prev => ⟨0, prev, hat prev ▸ .refl⟩, fun _ _ => rfl⟩

theorem Leads.still (hb : g'.builder = g.builder) : s.Leads g g' env env calls calls :=
  .stay (congrArg Builder.cursor hb) (congrArg (fun b => b.block? g.cur) hb)

theorem Leads.trans (h₁ : s.Leads g g₁ env env₁ calls calls₁)
    (h₂ : s.Leads g₁ g₂ env₁ env₂ calls₁ calls₂) (hb : g.builder.Le g₁.builder) :
    s.Leads g g₂ env env₂ calls calls₂ := by
  refine ⟨fun prev => ?_, fun id hid => ?_⟩
  · obtain ⟨n, prev₁, hn⟩ := h₁.steps prev
    obtain ⟨k, prev₂, hk⟩ := h₂.steps prev₁
    exact ⟨n + k, prev₂, hn.trans hk⟩
  · rw [h₂.kept id (Nat.lt_of_lt_of_le hid hb.locals_size), h₁.kept id hid]

theorem Leads.fits (h : s.Leads g g' env env₁ calls calls₁) (hc : s.Covers g) (hf : s.Fits env) :
    s.Fits env₁ := by
  intro id hid
  have henough := g.numbered.enough
  rw [← hc.params] at henough
  rw [h.kept id (Nat.lt_of_lt_of_le hid henough), hf id hid]

/-- A value that the first draft knows keeps its meaning. -/
theorem Leads.holds (h : s.Leads g g' env env₁ calls calls₁)
    (hv : g.builder.ValueTyped g.types v) (hx : s.Holds env v x) : s.Holds env₁ v x := by
  refine ⟨?_, hx.type⟩
  have hread := hx.read
  unfold Machine.read at hread ⊢
  split
  · rename_i id hid
    rw [hid] at hread
    obtain ⟨l, hl, _⟩ := hv.recorded id hid
    rw [h.kept id (Builder.local_lt hl)]
    exact hread
  · rename_i k hk
    rw [hk] at hread
    exact hread

theorem holds_const {k : Const} {type : TypeId} {t : Ty} (h : s.types.body? type = some t) :
    s.Holds env (.ofConst k type) (s.world.constant k t) :=
  ⟨by simp [Machine.read, Value.ofConst, h, World.constant, world], h⟩

theorem Computes.still (hb : g'.builder = g.builder) (hx : s.Holds env v x) :
    s.Computes g g' env calls v x calls := ⟨env, .still hb, hx⟩

theorem Computes.after (h₂ : s.Computes g₁ g₂ env₁ calls₁ v x calls₂)
    (h₁ : s.Leads g g₁ env env₁ calls calls₁) (hb : g.builder.Le g₁.builder) :
    s.Computes g g₂ env calls v x calls₂ := by
  obtain ⟨env₂, hlead, hx⟩ := h₂
  exact ⟨env₂, h₁.trans hlead hb, hx⟩

theorem Computes.of_still (hb : g₁.builder = g.builder)
    (h : s.Computes g₁ g₂ env calls v x calls₂) : s.Computes g g₂ env calls v x calls₂ :=
  h.after (.still hb) (hb ▸ Builder.Le.refl _)

/-! ## Single steps -/

/-- An instruction of the draft's block that comes next is executed. -/
theorem step_inst (hc : s.Covers g') {blk : Block} {inst : Inst}
    (hblk : g.builder.block? g.cur = some blk)
    (hnext : g'.builder.block? g.cur = some { blk with insts := blk.insts ++ [inst] })
    (prev : Option BlockId) (env : Locals V) (calls : List (Call V)) :
    s.step (g.spot prev env calls) = s.execute (g.spot prev env calls) inst := by
  obtain ⟨blk', hblk', ⟨more, hpre⟩, _⟩ := hc.code _ _ hnext
  have hget : blk'.insts[g.pc]? = some inst := by
    rw [← hpre, Draft.pc_eq hblk]
    simp
  exact s.step_of_inst hblk' hget

/-- The end of the draft's block, which has its terminator by now. -/
theorem step_end (hc : s.Covers g') {blk : Block} {t : Terminator}
    (hblk : g.builder.block? g.cur = some blk)
    (hend : g'.builder.block? g.cur = some { blk with terminator := some t })
    (prev : Option BlockId) (env : Locals V) (calls : List (Call V)) :
    s.step (g.spot prev env calls) = s.leave (g.spot prev env calls) t := by
  obtain ⟨blk', hblk', _, hsealed⟩ := hc.code _ _ hend
  obtain rfl := hsealed t rfl
  have hpc : g.pc = blk.insts.length := Draft.pc_eq hblk
  exact s.step_of_end hblk' hpc rfl

theorem enter_eq {k : BlockId} (hcur : g'.cur = k)
    (hblk : g'.builder.block? k = some (Block.fresh k)) (prev : Option BlockId) (env : Locals V)
    (calls : List (Call V)) :
    Machine.enter (g.spot prev env calls) k = g'.spot (some g.cur) env calls := by
  subst hcur
  have hpc : g'.pc = 0 := Draft.pc_eq hblk
  simp [Machine.enter, Draft.spot, hpc]

/-- A new instruction is executed. -/
theorem step_push {type : TypeId} {operation : Operation} {h : g.Emits type operation}
    {htype : g.types.Proper type} (hc : s.Covers (g.push type operation h htype)) {y : V}
    {prev : Option BlockId}
    (hy : s.perform (g.spot prev env calls) type operation = some (y, calls₁)) :
    s.step (g.spot prev env calls) = .to ((g.push type operation h htype).spot prev
      (Machine.store env (some ⟨g.builder.locals.size⟩) y) calls₁) := by
  obtain ⟨blk, hblk, _⟩ := h.opened
  have hnext := Builder.block?_emitted_cursor (b := g.builder.withLocal type)
    ⟨some ⟨g.builder.locals.size⟩, type, operation⟩ hblk
  have hpc : (g.push type operation h htype).pc = g.pc + 1 := by
    rw [Draft.pc_eq hblk, Draft.pc_eq hnext]
    simp
  rw [step_inst hc hblk hnext, Machine.execute]
  simp only [hy]
  simp only [Draft.spot, hpc]
  rfl

theorem step_emit {type : TypeId} {operation : Operation} {h : g.Emits type operation}
    {htype : g.types.IsVoid type} (hc : s.Covers (g.emit type operation h htype)) {y : V}
    {prev : Option BlockId}
    (hy : s.perform (g.spot prev env calls) type operation = some (y, calls₁)) :
    s.step (g.spot prev env calls) =
      .to ((g.emit type operation h htype).spot prev env calls₁) := by
  obtain ⟨blk, hblk, _⟩ := h.opened
  have hnext := Builder.block?_emitted_cursor ⟨none, type, operation⟩ hblk
  have hpc : (g.emit type operation h htype).pc = g.pc + 1 := by
    rw [Draft.pc_eq hblk, Draft.pc_eq hnext]
    simp
  rw [step_inst hc hblk hnext, Machine.execute]
  simp only [hy]
  simp only [Draft.spot, hpc]
  rfl

/-- The result of a new instruction goes to a local that is newer than all others. -/
theorem store_kept {id : LocalId} (hid : id.index < g.builder.locals.size) (y : V) :
    Machine.store env (some ⟨g.builder.locals.size⟩) y id = env id := by
  have hne : id ≠ ⟨g.builder.locals.size⟩ := by
    rintro rfl
    exact absurd hid (Nat.lt_irrefl _)
  simp [Machine.store, hne]

theorem holds_store {id : LocalId} {type : TypeId} {t : Ty} (ht : s.types.body? type = some t)
    (y : V) : s.Holds (Machine.store env (some id) y) (.ofLocal id type) ⟨y, t⟩ :=
  ⟨by simp [Machine.read, Value.ofLocal, Machine.store], ht⟩

theorem leads_push {type : TypeId} {operation : Operation} {h : g.Emits type operation}
    {htype : g.types.Proper type} (hc : s.Covers (g.push type operation h htype)) {y : V}
    (hy : ∀ prev, s.perform (g.spot prev env calls) type operation = some (y, calls₁)) :
    s.Leads g (g.push type operation h htype) env
      (Machine.store env (some ⟨g.builder.locals.size⟩) y) calls calls₁ :=
  ⟨fun prev => ⟨1, prev, .single (step_push hc (hy prev))⟩, fun _ hid => store_kept hid y⟩

theorem leads_emit {type : TypeId} {operation : Operation} {h : g.Emits type operation}
    {htype : g.types.IsVoid type} (hc : s.Covers (g.emit type operation h htype)) {y : V}
    (hy : ∀ prev, s.perform (g.spot prev env calls) type operation = some (y, calls₁)) :
    s.Leads g (g.emit type operation h htype) env env calls calls₁ :=
  ⟨fun prev => ⟨1, prev, .single (step_emit hc (hy prev))⟩, fun _ _ => rfl⟩

/-- The result of a new instruction is the value of a new local. -/
theorem computes_push {type : TypeId} {operation : Operation} {h : g.Emits type operation}
    {htype : g.types.Proper type} (hc : s.Covers (g.push type operation h htype)) {y : V} {t : Ty}
    (ht : g.types.body? type = some t)
    (hy : ∀ prev, s.perform (g.spot prev env calls) type operation = some (y, calls₁)) :
    s.Computes g (g.push type operation h htype) env calls
      (.ofLocal ⟨g.builder.locals.size⟩ type) ⟨y, t⟩ calls₁ := by
  exact ⟨_, leads_push hc hy, holds_store (TypeStore.body?_le hc.types ht) y⟩

end Scene

end Midend
