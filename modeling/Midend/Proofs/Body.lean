import Midend.Proofs.Params
import Midend.Proofs.Search
import Midend.Proofs.Stmt

/-!
# Midend.Proofs.Body

Lowering of a whole function body: from its parameters (`Draft.begin`), through its statements, to
the block where control falls off the end. What comes out is `Lowered`: complete code, which does
what the body does if nothing was reported.
-/

namespace Midend

open Ir

/-- The types are in order, and so are the functions that can be called. -/
structure Ready (ctx : Context) (types : TypeStore) (errors : List LowerError) : Prop where
  wf : types.WF
  genuine : ∀ e ∈ errors, e.Genuine
  functions : ∀ name sig, ctx.functions.lookup name = some sig →
    (∀ param ∈ sig.params, types.Proper param) ∧ types.Has sig.ret

namespace Draft

def begin {ctx : FnContext} {types : TypeStore} {errors : List LowerError}
    (h : Ready ctx.toContext types errors) (b : Builder) {params : List TypeId}
    (hb : b.Headed params) (hret : types.Has b.ret) (hparams : ∀ t ∈ params, types.Proper t)
    (hscope : ∀ p ∈ ctx.scope, ∃ i type, p.2 = .ofLocal ⟨i⟩ type ∧ params[i]? = some type) :
    Draft ctx where
  types := types
  errors := errors
  builder := b
  sight := fun _ id => id.index < b.params.length
  wf := h.wf
  genuine := h.genuine
  numbered := by
    refine ⟨fun i blk hblk => ?_, fun id l hl => ?_, ?_, ?_, ?_⟩
    · obtain ⟨rfl, rfl⟩ := hb.block?_eq hblk
      rfl
    · obtain ⟨hid, hparam, _⟩ := hb.locals id l hl
      refine ⟨hid, fun _ => ?_, fun _ => hparam⟩
      rw [hb.length_params, ← hb.size]
      exact Builder.local_lt hl
    · rw [hb.length_params]
      exact hb.params
    · exact Nat.le_of_eq (hb.length_params.trans hb.size.symm)
    · rw [Builder.defined, hb.blocks, hb.length_params, hb.size, Nat.sub_self]
      exact .refl _
  typed := by
    refine ⟨hret, fun i blk hblk inst hinst => ?_, fun i blk t hblk ht => ?_, fun i j hedge => ?_⟩
    · obtain ⟨_, rfl⟩ := hb.block?_eq hblk
      simp [Block.fresh] at hinst
    · obtain ⟨_, rfl⟩ := hb.block?_eq hblk
      simp [Block.fresh] at ht
    · exact absurd hedge (hb.not_edge i j)
  flow := by
    refine ⟨fun _ _ hid => hid, fun i blk before inst hblk hpre => ?_, fun i blk t hblk ht => ?_,
      fun i j hedge => absurd hedge (hb.not_edge i j), fun i blk before inst hblk hpre => ?_⟩
    · obtain ⟨_, rfl⟩ := hb.block?_eq hblk
      simp [Block.fresh] at hpre
    · obtain ⟨_, rfl⟩ := hb.block?_eq hblk
      simp [Block.fresh] at ht
    · obtain ⟨_, rfl⟩ := hb.block?_eq hblk
      simp [Block.fresh] at hpre
  inRange := by
    rw [hb.cursor]
    exact Builder.lt_size hb.block?_entry
  functions := h.functions
  scope := by
    intro name v hv
    obtain ⟨_, _, hsplit, _⟩ := List.lookup_eq_some_iff.mp hv
    obtain ⟨i, type, hoperand, htype⟩ := hscope (name, v) (by rw [hsplit]; simp)
    obtain rfl : v = .ofLocal ⟨i⟩ type := hoperand
    have hproper := hparams type (List.mem_of_getElem? htype)
    obtain ⟨hlt, _⟩ := List.getElem?_eq_some_iff.mp htype
    have hlt' : i < b.locals.size := by
      rw [hb.size]
      exact hlt
    have hlocal : b.local? ⟨i⟩ = some b.locals[i] := Array.getElem?_eq_getElem hlt'
    obtain ⟨_, _, hsame⟩ := hb.locals _ _ hlocal
    refine ⟨⟨hproper.has, fun id hid => ?_, fun hvoid => ?_⟩, ⟨i⟩, rfl, ?_⟩
    · cases hid
      exact ⟨_, hlocal, Option.some.inj (hsame.symm.trans htype)⟩
    · obtain ⟨body, hbody, hne⟩ := hproper
      exact absurd (Option.some.inj (hbody.symm.trans hvoid)) hne
    · rw [hb.length_params]
      exact hlt

variable {ctx : FnContext} {g g' f : Draft ctx}

/-- Where control falls off the end of a body, the function returns nothing, or control never comes
there. -/
def FallsOff (g f : Draft ctx) : Prop :=
  Seals g f g.cur (.ret none) ∨ ¬ f.builder.Reached g.cur

/-- Control falls off the end of the body of a function that returns a value. -/
def Missing (g : Draft ctx) : Prop :=
  ¬ g.types.IsVoid g.builder.ret ∧ g.Open g.cur ∧ g.builder.Reached g.cur

theorem reached_back {t : Terminator} (hopen : g.Open g.cur) (ht : t.successors = [])
    {i : BlockId} (h : (g.builder.closed g.cur t).Reached i) : g.builder.Reached i := by
  induction h with
  | entry => exact .entry
  | edge _ hedge ih =>
    rcases (Builder.edge_closed hopen).mp hedge with hold | ⟨_, hnew⟩
    · exact .edge ih hold
    · rw [ht] at hnew
      cases hnew

structure Completes (g f : Draft ctx) : Prop extends Le g f where
  silent : f.errors = g.errors
  sealed : ∀ i, ¬ f.Open i
  fallsOff : ¬ g.Missing → g.Open g.cur → FallsOff g f
  stops : ¬ g.Missing → ∀ i, f.builder.Reached i → f.builder.Stops i → g.builder.Stops i

def MissingErrors (function : String) (span : Span) (g : Draft ctx) (new : List LowerError) :
    Prop :=
  (¬ g.Missing ∧ new = []) ∨ (g.Missing ∧ new = [.missingReturn function span])

theorem MissingErrors.genuine {function : String} {span : Span} {new : List LowerError}
    (h : g.MissingErrors function span new) : ∀ e ∈ new, e.Genuine := by
  rcases h with ⟨_, rfl⟩ | ⟨_, rfl⟩ <;> simp [LowerError.Genuine]

theorem MissingErrors.nil_iff {function : String} {span : Span} {new : List LowerError}
    (h : g.MissingErrors function span new) : new = [] ↔ ¬ g.Missing := by
  rcases h with ⟨hmissing, rfl⟩ | ⟨hmissing, rfl⟩ <;> simp [hmissing]

def Alone (g : Draft ctx) : Prop := ∀ i, ¬ g.Waiting i

theorem Alone.closed (h : g.Alone) {t : Terminator} (hc : g.Closes g.cur t) (i : BlockId) :
    ¬ (g.close g.cur t hc).Open i := by
  intro hopen
  obtain ⟨hne, hopen⟩ := open_close.mp hopen
  exact h i ⟨hopen, hne⟩

theorem completes_ret (halone : g.Alone) (hc : g.Closes g.cur (.ret none)) :
    Completes g (g.close g.cur _ hc) where
  toLe := Since.close.toLe
  silent := rfl
  sealed := halone.closed hc
  fallsOff _ _ := .inl seals_close
  stops _ _ _ := Builder.stops_closed (by simp)

theorem completes_unreachable (halone : g.Alone) (hc : g.Closes g.cur .unreachable)
    (hvoid : ¬ g.types.IsVoid g.builder.ret) : Completes g (g.close g.cur _ hc) := by
  have hnever : ¬ g.Missing → ∀ i, (g.builder.closed g.cur .unreachable).Reached i → i ≠ g.cur := by
    rintro hmissing _ hreached rfl
    exact hmissing ⟨hvoid, hc.opened, reached_back hc.opened rfl hreached⟩
  refine ⟨Since.close.toLe, rfl, halone.closed hc,
    fun hmissing _ => .inr fun hreached => hnever hmissing _ hreached rfl,
    fun hmissing i hreached ⟨blk, hblk, ht⟩ => ?_⟩
  rcases Builder.block_closed_cases hblk with ⟨rfl, _⟩ | ⟨_, hold⟩
  · exact absurd rfl (hnever hmissing _ hreached)
  · exact ⟨blk, hold, ht⟩

end Draft

theorem finishBody_spec {ctx : FnContext} (function : String) (span : Span)
    {g : Draft ctx} (halone : g.Alone) :
    ∃ f new, runOn (Lower.finishBody function span) g.toFnState =
      (.ok (), { f.toFnState with errors := f.errors ++ new }) ∧ g.Completes f ∧
        g.MissingErrors function span new := by
  rw [Lower.finishBody, runOn_bind_ok (runOn_get _)]
  by_cases hopen : g.Open g.cur
  · have hask : runOn (Lower.build (liftM g.builder.cursorIsOpen)) g.toFnState =
        (.ok true, g.toFnState) := by
      rw [Lower.runOn_build, Build.run_cursorIsOpen (Builder.isOpen_of_open hopen)]
    obtain ⟨ret, hret⟩ := g.typed.ret
    rw [runOn_bind_ok hask, if_pos rfl, runOn_bind_ok (g.run_body hret)]
    by_cases hvoid : ret.isVoid = true
    · obtain rfl := Ty.isVoid_iff.mp hvoid
      have hcloses : g.Closes g.cur (.ret none) := .retVoid hopen hret
      refine ⟨_, [], ?_, Draft.completes_ret halone hcloses, .inl ⟨fun h => h.1 hret, rfl⟩⟩
      rw [if_pos hvoid, g.run_terminate hcloses, List.append_nil]
    · have hnot : ¬ g.types.IsVoid g.builder.ret := fun h => by
        rw [TypeStore.IsVoid, hret] at h
        exact hvoid (Ty.isVoid_iff.mpr (Option.some.inj h))
      have hcloses : g.Closes g.cur .unreachable := .unreachable hopen
      have hcompletes := Draft.completes_unreachable halone hcloses hnot
      rw [if_neg hvoid]
      by_cases hreach : g.builder.isReachable g.builder.cursor = true
      · have hgenuine : (LowerError.missingReturn function span).Genuine := fun v => by simp
        refine ⟨_, [.missingReturn function span], ?_, hcompletes,
          .inr ⟨⟨hnot, hopen, Builder.isReachable_iff.mp hreach⟩, rfl⟩⟩
        rw [if_pos hreach, runOn_bind_ok (g.run_report hgenuine),
          (g.report _ hgenuine).run_terminate (.unreachable hopen)]
        rfl
      · have hmissing : ¬ g.Missing := fun h => hreach (Builder.isReachable_iff.mpr h.2.2)
        refine ⟨_, [], ?_, hcompletes, .inl ⟨hmissing, rfl⟩⟩
        rw [if_neg hreach, g.run_terminate hcloses, List.append_nil]
  · have hask : runOn (Lower.build (liftM g.builder.cursorIsOpen)) g.toFnState =
        (.ok false, g.toFnState) := by
      rw [Lower.runOn_build, Build.run_cursorIsOpen (Builder.isOpen_of_sealed g.inRange hopen)]
    refine ⟨g, [], ?_, ⟨.refl g, rfl, fun i hi => halone i ⟨hi, ?_⟩, fun _ h => absurd h hopen,
      fun _ _ _ h => h⟩, .inl ⟨fun h => hopen h.2.1, rfl⟩⟩
    · rw [runOn_bind_ok hask, List.append_nil]
      rfl
    · rintro rfl
      exact hopen hi

def bodyContext (ctx : Context) (decl : FuncDecl) (sig : Signature) : FnContext :=
  { ctx with
    scope := bindParams 0 (((Field.flatten decl.params).map Prod.fst).zip sig.params) [] }

/-- The finished code of a function of the signature. -/
structure Lowered (ctx : Context) (decl : FuncDecl) (sig : Signature)
    (types : TypeStore) (b : Builder) : Prop where
  name : b.name = decl.name
  ret : b.ret = sig.ret
  numbered : b.Numbered
  typed : b.Typed types ctx.functions
  /-- At the entry only the parameters are in sight. -/
  flow : ∃ sight, b.Flow sight ∧ ∀ id, sight ⟨0⟩ id → id.index < b.params.length
  sealed : ∀ i, ¬ b.Open i
  size : 0 < b.size
  params : b.params.length = sig.params.length
  paramTypes : ∀ i t, sig.params[i]? = some t → ∃ l, b.local? ⟨i⟩ = some l ∧ l.type = t

section

variable {ctx : Context} {decl : FuncDecl} {sig : Signature}
  {g g' f : Draft (bodyContext ctx decl sig)}

theorem Lowered.types_le {types types' : TypeStore} {b : Builder}
    (h : Lowered ctx decl sig types b) (hle : types ≤ types') :
    Lowered ctx decl sig types' b :=
  { h with typed := h.typed.store_le hle }

theorem Lowered.of_le (hb : g.builder.Headed sig.params) (hname : g.builder.name = decl.name)
    (hret : g.builder.ret = sig.ret)
    (hsight : ∀ i id, g.sight i id → id.index < g.builder.params.length)
    (hle : g.Le f) (hsealed : ∀ i, ¬ f.Open i) :
    Lowered ctx decl sig f.types f.builder where
  name := hle.builder.name.trans hname
  ret := hle.builder.ret.trans hret
  numbered := f.numbered
  typed := f.typed
  flow := by
    refine ⟨f.sight, f.flow, fun id hid => ?_⟩
    rw [hle.builder.params]
    exact hsight ⟨0⟩ id ((hle.sight ⟨0⟩ id (Builder.lt_size hb.block?_entry)).mp hid)
  sealed := hsealed
  size := Nat.lt_of_lt_of_le (Builder.lt_size hb.block?_entry) hle.size
  params := by rw [hle.builder.params, hb.length_params]
  paramTypes := by
    intro i t ht
    obtain ⟨hlt, _⟩ := List.getElem?_eq_some_iff.mp ht
    have hlt' : i < g.builder.locals.size := by
      rw [hb.size]
      exact hlt
    have hlocal : g.builder.local? ⟨i⟩ = some g.builder.locals[i] := Array.getElem?_eq_getElem hlt'
    obtain ⟨_, _, hsame⟩ := hb.locals _ _ hlocal
    exact ⟨_, hle.builder.locals _ _ hlocal, Option.some.inj (hsame.symm.trans ht)⟩

end

end Midend
