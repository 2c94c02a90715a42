import Midend.Proofs.Visit
import Midend.Proofs.Function
import Midend.Proofs.Verifier

/-!
# Midend.Proofs.Occurrence

The statements in a function. Lowering a declared function comes to each of them in a state
(`Pass.Visits`); the code that it makes of the statement there is in the finished function, and
nothing else branches to it (`Pass.Visits.finished`).
-/

namespace Midend

open Ir

namespace Ir.Builder

variable {b b' : Builder} {live : List BlockId}

theorem Region.ownIds (h : Region [] b b' live) (hb : b.OwnIds) : b'.OwnIds := by
  intro i blk' hblk'
  by_cases hi : i.index < b.size
  · obtain ⟨blk, hblk⟩ := block?_of_lt hi
    exact (h.ids i blk blk' hblk hblk').trans (hb i blk hblk)
  · exact h.made i blk' (Nat.not_lt.mp hi) hblk'

theorem OwnIds.block?_finish (h : b.OwnIds) (i : BlockId) : b.finish.block? i = b.block? i := by
  cases hblk : b.block? i with
  | none =>
    have hget : b.finish.blocks[i.index]? = none := hblk
    simp [Function.block?, hget]
  | some blk =>
    have hget : b.finish.blocks[i.index]? = some blk := hblk
    simp [Function.block?, hget, h i blk hblk]

theorem OwnIds.edge_finish (h : b.OwnIds) {i j : BlockId} : b.finish.Edge i j ↔ b.Edge i j := by
  rw [Function.Edge, h.block?_finish]
  rfl

theorem Headed.bounded {types : List TypeId} (h : b.Headed types) : b.Bounded := fun i j hedge =>
  absurd hedge (h.not_edge i j)

theorem Headed.ownIds {types : List TypeId} (h : b.Headed types) : b.OwnIds := by
  intro i blk hblk
  obtain ⟨rfl, rfl⟩ := h.block?_eq hblk
  rfl

end Ir.Builder

namespace Lower

variable {σ τ : FnState}

theorem finishBody_staying (function : String) (span : Span) :
    Staying [] (finishBody function span) := by
  intro σ hc
  have hask : ∀ o, σ.builder.cursorIsOpen = .ok o →
      runOn (build (liftM σ.builder.cursorIsOpen)) σ = (.ok o, σ) := fun o ho =>
    runOn_build_ok (Build.run_cursorIsOpen ho)
  refine .next (runOn_get σ) ?_
  by_cases hopen : σ.builder.Open σ.builder.cursor
  · refine .next (hask true (Builder.isOpen_of_open hopen)) ?_
    have hsealed : ∀ {t : Terminator} {τ : FnState}, t.successors = [] → σ.Flows τ →
        Ends (build (Build.terminate t)) τ (fun _ υ => σ.Stays [] υ) fun _ => True := by
      intro t τ ht hflows
      refine .of_ok (runOn_terminate (hflows.opened hopen) t) (hflows.toStays.trans ?_)
      exact ⟨TypeStore.le_refl _, .closed (hflows.opened hopen) (by simp [ht])⟩
    refine (Flowing.body _ σ hc).bind (fun ty τ _ hflows => ?_) fun _ _ => trivial
    dsimp only
    split_ifs
    · exact hsealed rfl hflows
    · refine .next (runOn_report _ τ) (hsealed rfl ⟨⟨hflows.types, hflows.code⟩, hflows.opened⟩)
    · exact hsealed rfl hflows
  · refine .next (hask false (Builder.isOpen_of_sealed hc hopen)) (.pure (.refl _ hc))

end Lower

def Ir.Function.Ends (f : Function) (i : BlockId) (t : Terminator) : Prop :=
  ∃ blk, f.block? i = some blk ∧ blk.terminator = some t

namespace Pass

/-- Lowering of the declared function from `s` has come to its body in the state `σ`; in `fctx` the
parameters are in scope. -/
def Starts (ctx : Context) (decl : FuncDecl) (s : Session) (fctx : FnContext)
    (σ : FnState) : Prop :=
  ∃ sig scope, ctx.functions.lookup decl.name = some sig ∧ fctx = { ctx with scope := scope } ∧
    runOn (Lower.build (Lower.addParams [] (((Field.flatten decl.params).map Prod.fst).zip
      sig.params))) ⟨s.types, s.errors, Builder.start decl.name sig.ret⟩ = (.ok scope, σ)

/-- Lowering of the declared function from `s` comes to the statements in the state `τ`. -/
def Visits (ctx : Context) (decl : FuncDecl) (s : Session) (fctx : FnContext) (inner : List Stmt)
    (τ : FnState) : Prop :=
  ∃ body σ, decl.body = some body ∧ Starts ctx decl s fctx σ ∧ Stmt.Visits fctx [body] σ inner τ

/-- In the finished function: the statements were lowered from `τ` to `τ'`, and from then on nothing
branched anew to the blocks that were made for them. -/
structure Finished (fctx : FnContext) (inner : List Stmt) (τ τ' : FnState)
    (b : Builder) : Prop where
  run : runOn (Stmt.lowerAll fctx inner) τ = (.ok (), τ')
  onBlock : τ.OnBlock
  bounded : τ.builder.Bounded
  apart : Builder.Apart τ.builder.size τ'.builder.size τ'.builder b
  ownIds : b.OwnIds

variable {ctx : Context} {decl : FuncDecl} {span : Span} {s s' : Session} {fctx : FnContext}
  {inner : List Stmt} {τ : FnState} {f : Function}

theorem Starts.headed {σ : FnState} (h : Starts ctx decl s fctx σ) :
    σ.types = s.types ∧ σ.OnBlock ∧ ∃ types, σ.builder.Headed types := by
  obtain ⟨sig, scope, -, -, hparams⟩ := h
  obtain ⟨b, hadd, hhead, -, -⟩ := Lower.run_addParams
    (((Field.flatten decl.params).map Prod.fst).zip sig.params)
    (Builder.Headed.start decl.name sig.ret) []
  rw [Lower.runOn_build_ok hadd] at hparams
  obtain rfl : FnState.on _ b = σ := (Prod.mk.inj hparams).2
  refine ⟨rfl, ?_, _, hhead⟩
  show b.cursor.index < b.blocks.size
  rw [hhead.cursor, hhead.blocks]
  exact Nat.one_pos

theorem exists_starts {sig : Signature} (hsig : ctx.functions.lookup decl.name = some sig) :
    ∃ fctx σ, Starts ctx decl s fctx σ := by
  obtain ⟨b, hadd, -, -, -⟩ := Lower.run_addParams
    (((Field.flatten decl.params).map Prod.fst).zip sig.params)
    (Builder.Headed.start decl.name sig.ret) []
  exact ⟨_, _, sig, _, hsig, rfl, Lower.runOn_build_ok hadd⟩

theorem Starts.run {body : Stmt} {σ : FnState} (h : Starts ctx decl s fctx σ)
    (hbody : decl.body = some body)
    (hrun : runOn (Pass.function ctx decl span) s = (.ok (some f), s')) :
    ∃ υ φ, runOn (body.lower fctx) σ = (.ok (), υ) ∧
      runOn (Lower.finishBody decl.name span) υ = (.ok (), φ) ∧ f = φ.builder.finish ∧
        s'.types = φ.types := by
  obtain ⟨sig, scope, hsig, rfl, hparams⟩ := h
  rw [Pass.runOn_function span hbody hsig, Lower.functionBody, runOn_bind_ok hparams] at hrun
  obtain ⟨r, φ, hall⟩ := exists_runOn (do
    body.lower { ctx with scope := scope }
    Lower.finishBody decl.name span) σ
  rw [hall] at hrun
  cases r with
  | error e => cases hrun
  | ok _ =>
    obtain ⟨_, υ, hlower, hfinish⟩ := runOn_bind_eq_ok hall
    cases hrun
    exact ⟨υ, φ, hlower, hfinish, rfl, rfl⟩

theorem Visits.finished (h : Visits ctx decl s fctx inner τ)
    (hrun : runOn (Pass.function ctx decl span) s = (.ok (some f), s')) :
    ∃ τ' b, Finished fctx inner τ τ' b ∧ f = b.finish := by
  obtain ⟨body, σ, hbody, hstarts, hvisits⟩ := h
  obtain ⟨-, hblock, types, hhead⟩ := hstarts.headed
  obtain ⟨υ, φ, hlower, hfinish, rfl, -⟩ := hstarts.run hbody hrun
  have hstays := Stmt.stays_of_lower hblock hlower
  have hend : υ.Stays [] φ :=
    Lower.finishBody_staying decl.name span υ hstays.onBlock _ φ hfinish
  obtain ⟨τ', hinner, -, hapart⟩ :=
    hvisits.completes hblock (Stmt.runOn_lowerAll_singleton hlower)
  have hadds := hvisits.adds hblock
  exact ⟨τ', φ.builder, ⟨hinner, hadds.onBlock, hadds.code.bounded hhead.bounded,
    hapart.trans (.confined hend.code hapart.le.size),
    (hstays.trans hend).code.toRegion.ownIds hhead.ownIds⟩, rfl⟩

/-- The first of the statements was lowered from `σ` to `τ`. -/
structure Placed (fctx : FnContext) (st : Stmt) (f : Function) (σ τ : FnState) : Prop where
  run : runOn (st.lower fctx) σ = (.ok (), τ)
  onBlock : σ.OnBlock
  bounded : σ.builder.Bounded
  /-- What is branched to, of the blocks that were made for the statement. -/
  edges : ∀ i j, σ.builder.size ≤ j.index → j.index < τ.builder.size →
    (f.Edge i j ↔ τ.builder.Edge i j)
  /-- The blocks that were sealed. -/
  ends : ∀ i t, τ.builder.Ends i t → f.Ends i t

theorem Visits.placed {st : Stmt} {rest : List Stmt} {σ : FnState}
    (h : Visits ctx decl s fctx (st :: rest) σ)
    (hrun : runOn (Pass.function ctx decl span) s = (.ok (some f), s')) :
    ∃ τ, Placed fctx st f σ τ := by
  obtain ⟨τ', b, hfinished, rfl⟩ := h.finished hrun
  have hall := hfinished.run
  rw [Stmt.lowerAll] at hall
  obtain ⟨_, τ, hst, hrest⟩ := runOn_bind_eq_ok hall
  have hstays := Stmt.stays_of_lower hfinished.onBlock hst
  have hcode := (Stmt.stays_of_lowerAll hstays.onBlock hrest).code
  refine ⟨τ, hst, hfinished.onBlock, hfinished.bounded, fun i j hlo hhi => ?_,
    fun i t ⟨blk, hblk, ht⟩ => ⟨blk, ?_, ht⟩⟩
  · rw [hfinished.ownIds.edge_finish,
      hfinished.apart.edge_iff hlo (Nat.lt_of_lt_of_le hhi hcode.size),
      hcode.edge_iff hhi (by simp)]
  · rw [hfinished.ownIds.block?_finish]
    exact (hcode.le.trans hfinished.apart.le).sealed hblk ht

end Pass

end Midend
