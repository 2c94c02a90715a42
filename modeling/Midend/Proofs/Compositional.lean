import Midend.Proofs.AnyCode
import Midend.Proofs.Independence
import Midend.Proofs.MissingReturn
import Midend.Proofs.Occurrence

/-!
# Midend.Proofs.Compositional

Errors are found statement by statement (`SourceUnit.lower_compositional`). What a statement of a
function reports depends neither on the code around it nor on the types that other statements have
needed, so the errors of a list of statements are those of each of them, one after the other.
-/

namespace Midend

open Ir Ir.TypeStore

namespace FnState

variable {ctx : FnContext} {σ τ υ : FnState} {b : Builder}

/-- Whatever can be named has a type in the store of the state. -/
structure Grounded (ctx : FnContext) (σ : FnState) : Prop where
  regular : σ.types.Regular
  ret : σ.types.Has σ.builder.ret
  context : SameContext Link.anyCode σ.types σ.types ctx ctx

theorem Grounded.paired (h : Grounded ctx σ) : Link.anyCode.Paired σ σ where
  twin := .refl h.regular fun _ hname => hname
  builder := Alike.refl h.regular.wf h.ret

/-- From `σ` to `τ` types were added, none of them declared. -/
structure LeadsTo (ctx : FnContext) (σ τ : FnState) : Prop where
  types : Extends Declarable σ.types τ.types
  grounded : Grounded ctx τ

namespace LeadsTo

theorem refl (h : Grounded ctx σ) : LeadsTo ctx σ σ := ⟨.refl h.regular, h⟩

theorem trans (h : LeadsTo ctx σ τ) (h' : LeadsTo ctx τ υ) : LeadsTo ctx σ υ :=
  ⟨h.types.trans h'.types, h'.grounded⟩

theorem on (h : LeadsTo ctx σ τ) (hret : b.ret = τ.builder.ret) : LeadsTo ctx σ (τ.on b) where
  types := h.types
  grounded := { h.grounded with ret := by rw [on_builder, hret]; exact h.grounded.ret }

theorem onNew (h : LeadsTo ctx σ τ) : LeadsTo ctx σ τ.onNew := h.on rfl

theorem reopened (h : LeadsTo ctx σ τ) : LeadsTo ctx σ τ.reopened := h.on (Builder.ret_opened _)

theorem enter (h : LeadsTo ctx σ τ) (t : Terminator) (k : BlockId) :
    LeadsTo ctx σ (τ.enter t k) := h.on Builder.ret_left

end LeadsTo

theorem Grounded.run {α : Type} {m : Lower α} {a : α} {Q : TypeStore → TypeStore → α → α → Prop}
    (h : Grounded ctx σ) (hm : Lower.Agrees Link.anyCode m m σ σ Q)
    (hrun : runOn m σ = (.ok a, τ)) : LeadsTo ctx σ τ ∧ Q τ.types τ.types a a := by
  obtain ⟨e, -, υ, hbreak⟩ | ⟨e, -, υ, hbreak⟩ |
    ⟨υ, υ', hon, ⟨b, b', hb, hb', hq⟩ | ⟨f, hf, -⟩⟩ := hm
  · rw [hrun] at hbreak
    cases hbreak
  · rw [hrun] at hbreak
    cases hbreak
  · rw [hrun] at hb hb'
    cases hb
    cases hb'
    have hret : Alike τ.types τ.types τ.builder.ret τ.builder.ret := hon.paired.builder
    exact ⟨⟨hon.left, hon.left.regular, hret.has_left, h.context.onward h.paired hon⟩, hq⟩
  · rw [hrun] at hf
    cases hf

theorem LeadsTo.run {α : Type} {m : Lower α} {a : α} {Q : TypeStore → TypeStore → α → α → Prop}
    (h : LeadsTo ctx σ τ) (hm : Lower.AgreesIn Link.anyCode ctx ctx m m Q)
    (hrun : runOn m τ = (.ok a, υ)) : LeadsTo ctx σ υ :=
  h.trans (h.grounded.run (hm h.grounded.paired h.grounded.context) hrun).1

end FnState

namespace Stmt

open Lower FnState

variable {ctx : FnContext} {s : Stmt} {inner outer : List Stmt} {σ τ : FnState}
  {init : Option Stmt}

theorem switchTag_agrees {L : Link} {ctx ctx' : FnContext} (tag : Option Expr) :
    AgreesIn L ctx ctx' (switchTag ctx tag) (switchTag ctx' tag) fun s t =>
      Option.Rel (Option.Rel (L.Value s t)) := by
  intro σ σ' h hc
  cases tag with
  | none => exact .pure h (.some .none)
  | some e =>
    refine (e.lower_agrees h hc).recover.bind fun o o' τ τ' hon ho => ?_
    cases ho with
    | none => exact .pure hon.paired .none
    | some hv => exact .pure hon.paired (.some (.some hv))

theorem loopCondition_agrees {L : Link} {ctx ctx' : FnContext} (cond : Option Expr) :
    AgreesIn L ctx ctx' (loopCondition ctx cond) (loopCondition ctx' cond) fun s t =>
      Option.Rel (L.Value s t) := by
  intro σ σ' h hc
  cases cond with
  | none => exact .pure h .none
  | some e => exact condition_agrees h hc e

theorem leadsTo_loopStart (h : Grounded ctx σ) : LeadsTo ctx σ (loopStart σ) :=
  (((LeadsTo.refl h).on (Builder.ret_withBlocks 5)).reopened).enter _ _

theorem leadsTo_selectStart (h : Grounded ctx σ) (clauses : List Clause) :
    LeadsTo ctx σ (selectStart clauses σ) := (LeadsTo.refl h).on (Builder.ret_withBlocks _)

theorem Decides.leadsTo {cond : Expr} {v : Value} (h : Decides ctx init cond σ v τ)
    (hσ : Grounded ctx σ) : LeadsTo ctx σ τ := by
  obtain ⟨σ₁, hinit, hcond⟩ := h
  exact ((LeadsTo.refl hσ).run (fun _ _ h hc => lowerOption_agrees init h hc) hinit).reopened.run
    (fun _ _ h hc => condition_agrees h hc cond) hcond

theorem Begins.leadsTo {cond : Option Expr} {exit : Option Value}
    (h : Begins ctx init cond σ exit τ) (hσ : Grounded ctx σ) :
    LeadsTo ctx σ (loopBodyStart σ exit τ) := by
  obtain ⟨σ₁, hinit, hcond⟩ := h
  have hfirst := (leadsTo_loopStart hσ).run (fun _ _ h hc => lowerOption_agrees init h hc) hinit
  exact ((hfirst.enter _ _).run (loopCondition_agrees cond) hcond).enter _ _

theorem Tags.leadsTo {tag : Option Expr} {v : Option Value} (h : Tags ctx init tag σ v τ)
    (hσ : Grounded ctx σ) :
    LeadsTo ctx σ τ ∧ Option.Rel (Link.anyCode.Value τ.types τ.types) v v := by
  obtain ⟨σ₁, hinit, htag⟩ := h
  have hfirst := (LeadsTo.refl hσ).run (fun _ _ h hc => lowerOption_agrees init h hc) hinit
  obtain ⟨hlater, hv⟩ := hfirst.reopened.grounded.run
    (switchTag_agrees tag hfirst.reopened.grounded.paired hfirst.reopened.grounded.context) htag
  refine ⟨hfirst.reopened.trans hlater, ?_⟩
  cases hv with
  | some hv => exact hv

theorem Child.leadsTo (h : Child ctx s σ inner τ) (hσ : Grounded ctx σ) : LeadsTo ctx σ τ := by
  have hlower (s : Stmt) : AgreesIn Link.anyCode ctx ctx (s.lower ctx) (s.lower ctx)
      fun _ _ _ _ => True := fun _ _ h hc => lower_agrees s h hc
  cases h with
  | block | ifInit | switchInit => exact .refl hσ
  | ifThen hdecides => exact (hdecides.leadsTo hσ).onNew
  | ifOther hdecides hthen => exact ((hdecides.leadsTo hσ).onNew.run (hlower _) hthen).onNew
  | loopInit => exact leadsTo_loopStart hσ
  | loopBody hbegins => exact hbegins.leadsTo hσ
  | loopPost hbegins hbody => exact ((hbegins.leadsTo hσ).run (hlower _) hbody).enter _ _
  | @clause _ _ _ before after clause _ _ _ σ₁ σ₂ _ htags hasked hfirsts =>
    obtain ⟨htagged, hv⟩ := htags.leadsTo hσ
    have hblocks (ks : List BlockId) : List.Forall₂ Link.anyCode.block ks ks :=
      List.forall₂_same.mpr fun _ _ => trivial
    have hstart := leadsTo_selectStart htagged.grounded (before ++ clause :: after)
    obtain ⟨hasked, -⟩ := hstart.grounded.run (testClauses_agrees hstart.grounded.paired
      hstart.grounded.context hv _ (hblocks _)) hasked
    have hentry := hasked.run (fun _ _ h hc => lowerClauses_agrees before h hc (hblocks _)) hfirsts
    exact htagged.trans (hstart.trans (hentry.on rfl))

theorem Visits.leadsTo (h : Visits ctx outer σ inner τ) (hσ : Grounded ctx σ) :
    LeadsTo ctx σ τ := by
  induction h with
  | here => exact .refl hσ
  | rest hrun _ ih =>
    have hfirst := (LeadsTo.refl hσ).run (fun _ _ h hc => lower_agrees _ h hc) hrun
    exact hfirst.trans (ih hfirst.grounded)
  | child hchild _ ih =>
    have hfirst := hchild.leadsTo hσ
    exact hfirst.trans (ih hfirst.grounded)

end Stmt

/-- A statement of the function in which `σ` is can be lowered in `τ` too: there may be any code,
and the store may have more types, none of them declared. -/
structure FnState.Admits (σ τ : FnState) : Prop where
  types : Extends Declarable σ.types τ.types
  ret : τ.builder.ret = σ.builder.ret
  onBlock : τ.OnBlock

/-- The errors that the statement reports if nothing else is lowered from `σ` on. -/
def Stmt.ownErrors (ctx : FnContext) (σ : FnState) (s : Stmt) : List LowerError :=
  (runOn (s.lower ctx) { σ with errors := [] }).2.errors

/-- In the function in which `σ` is the statement can be lowered, and reports its own errors,
whatever code is there and whatever was lowered before. -/
def Stmt.StandsAlone (ctx : FnContext) (σ : FnState) (s : Stmt) : Prop :=
  ∀ τ, σ.Admits τ →
    ∃ υ, runOn (s.lower ctx) τ = (.ok (), υ) ∧ υ.errors = τ.errors ++ s.ownErrors ctx σ

namespace FnState

variable {ctx : FnContext} {σ τ τ' υ : FnState} {s : Stmt}

theorem Grounded.agrees (h : Grounded ctx σ) (hτ : σ.Admits τ) (hτ' : σ.Admits τ') (s : Stmt) :
    Lower.Agrees Link.anyCode (s.lower ctx) (s.lower ctx) τ τ' fun _ _ _ _ => True := by
  have htwin : Twin Declarable σ.types σ.types := h.paired.twin
  have hret : Alike τ.types τ'.types τ.builder.ret τ'.builder.ret := by
    rw [hτ.ret, hτ'.ret]
    exact htwin.alike hτ.types hτ'.types (.refl h.regular.wf h.ret)
  exact s.lower_agrees ⟨htwin.extend hτ.types hτ'.types, hret⟩
    (h.context.extend htwin hτ.types hτ'.types)

theorem Grounded.repeated (h : Grounded ctx σ) (hτ : σ.Admits τ) (hτ' : σ.Admits τ')
    (hrun : runOn (s.lower ctx) τ = (.ok (), υ)) : Extends Declarable τ.types υ.types ∧
      ∃ υ' found, runOn (s.lower ctx) τ' = (.ok (), υ') ∧ υ.errors = τ.errors ++ found ∧
        υ'.errors = τ'.errors ++ found := by
  obtain ⟨r, υ', hrun', hon, hok⟩ := (h.agrees hτ hτ' s).of_run
    (s.lower_staying ctx τ hτ.onBlock) (s.lower_staying ctx τ' hτ'.onBlock) hrun
  obtain ⟨found, hfound, hfound'⟩ := hon.errors
  cases r with
  | ok _ => exact ⟨hon.left, υ', found, hrun', hfound, hfound'⟩
  | error f => cases hok rfl

variable (h : Grounded ctx σ) (hc : σ.OnBlock)

include h hc

theorem Grounded.lowered (hτ : σ.Admits τ) (hrun : runOn (s.lower ctx) τ = (.ok (), υ)) :
    σ.Admits υ ∧ s.StandsAlone ctx σ ∧ υ.errors = τ.errors ++ s.ownErrors ctx σ := by
  have hstays := Stmt.stays_of_lower hτ.onBlock hrun
  have hbare : σ.Admits { σ with errors := [] } := ⟨.refl h.regular, rfl, hc⟩
  obtain ⟨hext, υ₀, found, hrun₀, hfound, hown⟩ := h.repeated hτ hbare hrun
  have hsame : s.ownErrors ctx σ = found := by
    rw [Stmt.ownErrors, hrun₀]
    exact hown
  refine ⟨⟨hτ.types.trans hext, hstays.code.le.ret.trans hτ.ret, hstays.onBlock⟩,
    fun τ' hτ' => ?_, hsame ▸ hfound⟩
  obtain ⟨-, υ', new, hrun', hnew, hnew'⟩ := h.repeated hτ hτ' hrun
  obtain rfl : found = new := List.append_cancel_left (hfound.symm.trans hnew)
  exact ⟨υ', hrun', hsame ▸ hnew'⟩

theorem Grounded.lowerAll_apart (ts : List Stmt) (hτ : σ.Admits τ)
    (hrun : runOn (Stmt.lowerAll ctx ts) τ = (.ok (), υ)) :
    (∀ s ∈ ts, s.StandsAlone ctx σ) ∧ υ.errors = τ.errors ++ ts.flatMap (Stmt.ownErrors ctx σ) := by
  induction ts generalizing τ with
  | nil =>
    rw [Stmt.lowerAll] at hrun
    cases hrun
    simp
  | cons s rest ih =>
    rw [Stmt.lowerAll] at hrun
    obtain ⟨_, τ₁, hs, hrest⟩ := runOn_bind_eq_ok hrun
    obtain ⟨hτ₁, halone, herrors⟩ := h.lowered hc hτ hs
    obtain ⟨hall, herrors'⟩ := ih hτ₁ hrest
    refine ⟨List.forall_mem_cons.mpr ⟨halone, hall⟩, ?_⟩
    rw [herrors', herrors, List.flatMap_cons, List.append_assoc]

theorem Grounded.lowerAll_together (ts : List Stmt) (hall : ∀ s ∈ ts, s.StandsAlone ctx σ)
    (hτ : σ.Admits τ) : ∃ υ, runOn (Stmt.lowerAll ctx ts) τ = (.ok (), υ) ∧
      υ.errors = τ.errors ++ ts.flatMap (Stmt.ownErrors ctx σ) := by
  induction ts generalizing τ with
  | nil =>
    rw [Stmt.lowerAll]
    exact ⟨τ, rfl, by simp⟩
  | cons s rest ih =>
    obtain ⟨halone, hall⟩ := List.forall_mem_cons.mp hall
    obtain ⟨τ₁, hs, herrors⟩ := halone τ hτ
    obtain ⟨υ, hrest, herrors'⟩ := ih hall (h.lowered hc hτ hs).1
    refine ⟨υ, ?_, ?_⟩
    · rw [Stmt.lowerAll, runOn_bind_ok hs]
      exact hrest
    · rw [herrors', herrors, List.flatMap_cons, List.append_assoc]

end FnState

/-! ## Functions and units -/

theorem Ready.sameUnit {ctx : Context} {types : TypeStore} {errors : List LowerError}
    (h : Ready ctx types errors)
    (hnames : ∀ entry ∈ ctx.table.entries, ∀ name ∈ entry.2.names, name ∉ reservedTypeNames) :
    Lower.SameUnit types types ctx ctx where
  config := rfl
  table := rfl
  names id c hc := by
    obtain ⟨before, after, hsplit, _⟩ := List.lookup_eq_some_iff.mp hc
    exact hnames (id, c) (by rw [hsplit]; simp)
  unsigned _ := rfl
  declared _ := rfl
  functions name := by
    cases hsig : ctx.functions.lookup name with
    | none => exact .none
    | some sig =>
      obtain ⟨hparams, hret⟩ := h.functions name sig hsig
      have hall : List.Forall₂ (Alike types types) sig.params sig.params :=
        List.forall₂_same.mpr fun param hp => .refl h.wf (hparams param hp).has
      exact .some ⟨hall, .refl h.wf hret⟩
  scope _ := .none

namespace Pass

variable {ctx : Context} {decl : FuncDecl} {s s' : Session} {fctx : FnContext} {σ : FnState}
  {t : TypeStore}

theorem Starts.grounded (h : Starts ctx decl s fctx σ) (hs : s.types.Regular)
    (hc : Lower.SameUnit s.types s.types ctx ctx) : σ.Grounded fctx := by
  obtain ⟨sig, scope, hsig, rfl, hparams⟩ := h
  obtain ⟨sig', hsig', hsame⟩ := (hc.functions decl.name).some_left hsig
  obtain rfl : sig = sig' := Option.some.inj (hsig.symm.trans hsig')
  have hnone : ∀ name, Option.Rel (SameOperand s.types s.types) (([] : Scope).lookup name)
      (([] : Scope).lookup name) := fun _ => .none
  obtain ⟨e, -, he⟩ | ⟨e, -, he⟩ | ⟨scope₁, b, scope₂, b', hadd, hadd', hb, hscope⟩ :=
    Lower.addParams_agrees _ hsame.params hnone _ _ (.start decl.name hsame.ret)
  · rw [Lower.runOn_build, he] at hparams
    cases hparams
  · rw [Lower.runOn_build, he] at hparams
    cases hparams
  · rw [Lower.runOn_build_ok hadd] at hparams
    cases hparams
    cases hadd.symm.trans hadd'
    exact ⟨hs, hb.ret.has_left, (hc.inScope hscope).anyCode⟩

/-- A store to which the run comes from the session on: where it comes to statements of this
function or of one that is lowered later. -/
inductive Meets (ctx : Context) : Session → TypeStore → Prop where
  | here {s : Session} : Meets ctx s s.types
  | statements {decl : FuncDecl} {s : Session} {fctx : FnContext} {inner : List Stmt}
      {τ : FnState} : Visits ctx decl s fctx inner τ → Meets ctx s τ.types
  | later {decl : FuncDecl} {span : Span} {s s' : Session} {fn : Option Function} {t : TypeStore} :
      runOn (Pass.function ctx decl span) s = (.ok fn, s') → Meets ctx s' t → Meets ctx s t

theorem Meets.extends (h : Meets ctx s t) (hs : s.types.Regular)
    (hc : Lower.SameUnit s.types s.types ctx ctx) : Extends Declarable s.types t := by
  induction h with
  | here => exact .refl hs
  | statements hvisits =>
    obtain ⟨body, σ, -, hstarts, hvisits⟩ := hvisits
    rw [← hstarts.headed.1]
    exact (hvisits.leadsTo (hstarts.grounded hs hc)).types
  | later hrun _ ih =>
    have htwin : Twin Declarable _ _ := .refl hs fun _ hname => hname
    obtain ⟨hext, -⟩ := function_agrees htwin hc hrun hrun
    exact hext.trans (ih hext.regular (hc.extend htwin hext hext))

/-- Errors are found statement by statement in the function that begins in `σ`. -/
structure Compositional (ctx : Context) (s : Session) (fctx : FnContext) (σ : FnState) : Prop where
  /-- Statements can be lowered amid any code, with any store to which the run comes later. -/
  reached : ∀ t, Meets ctx s t → ∀ (errors : List LowerError) (b : Builder),
    b.ret = σ.builder.ret → b.cursor.index < b.size → σ.Admits ⟨t, errors, b⟩
  /-- So it is where lowering comes to the statements that are within others. -/
  visited : ∀ outer inner τ, Stmt.Visits fctx outer σ inner τ → σ.Admits τ
  /-- The errors of a list are those of its statements, one after the other. -/
  apart : ∀ ts τ υ, σ.Admits τ → runOn (Stmt.lowerAll fctx ts) τ = (.ok (), υ) →
    (∀ st ∈ ts, st.StandsAlone fctx σ) ∧
      υ.errors = τ.errors ++ ts.flatMap (Stmt.ownErrors fctx σ)
  /-- Statements that can be lowered can be put together in any way. -/
  together : ∀ ts, (∀ st ∈ ts, st.StandsAlone fctx σ) → ∀ τ, σ.Admits τ →
    ∃ υ, runOn (Stmt.lowerAll fctx ts) τ = (.ok (), υ) ∧
      υ.errors = τ.errors ++ ts.flatMap (Stmt.ownErrors fctx σ)

theorem Starts.compositional (h : Starts ctx decl s fctx σ) (hs : s.types.Regular)
    (hc : Lower.SameUnit s.types s.types ctx ctx) : Compositional ctx s fctx σ := by
  obtain ⟨htypes, hblock, -⟩ := h.headed
  have hσ := h.grounded hs hc
  refine ⟨fun t ht errors b hret hcursor => ⟨htypes ▸ ht.extends hs hc, hret, hcursor⟩,
    fun outer inner τ hvisits => ?_, fun ts τ υ hτ hrun => hσ.lowerAll_apart hblock ts hτ hrun,
    fun ts hall τ hτ => hσ.lowerAll_together hblock ts hall hτ⟩
  have hadds := hvisits.adds hblock
  exact ⟨(hvisits.leadsTo hσ).types, hadds.code.le.ret, hadds.onBlock⟩

end Pass

namespace SourceUnit

variable {config : Config} {u : SourceUnit} {ctx : Context} {decl : FuncDecl} {span : Span}
  {s : Session}

theorem ComesTo.regular (h : u.ComesTo config ctx decl span s)
    (hnames : ∀ entry ∈ u.types.entries, ∀ name ∈ entry.2.names, name ∉ reservedTypeNames) :
    s.types.Regular ∧ Lower.SameUnit s.types s.types ctx ctx := by
  obtain ⟨s₁, s₂, before, after, fns, htable, hresolved, hdeclare, hready, hkept, hfns⟩ := h.stages
  rw [← htable] at hnames
  have hregular := (Pass.declareFunctions_extends _ hresolved.regular hdeclare).regular
  obtain ⟨attempts, hattempts, -⟩ := Pass.functions_attempts before hready (fun d hd => by
    obtain ⟨sig, hsig, hsigned⟩ := hkept d (List.mem_append_left _ hd)
    exact ⟨sig, hsig, hsigned.length⟩) hfns
  obtain ⟨hext, -⟩ := hattempts.extends hregular (hready.sameUnit hnames)
  exact ⟨hext.regular, h.ready.1.sameUnit hnames⟩

/-- If the type table names no type of an untyped constant: in every function to which lowering
comes, errors are found statement by statement. -/
theorem lower_compositional
    (hnames : ∀ entry ∈ u.types.entries, ∀ name ∈ entry.2.names, name ∉ reservedTypeNames)
    (hcomes : u.ComesTo config ctx decl span s) :
    (∃ fctx σ, Pass.Starts ctx decl s fctx σ) ∧
      ∀ fctx σ, Pass.Starts ctx decl s fctx σ → Pass.Compositional ctx s fctx σ := by
  obtain ⟨hregular, hunit⟩ := hcomes.regular hnames
  obtain ⟨-, sig, hsig, -⟩ := hcomes.ready
  exact ⟨Pass.exists_starts hsig, fun fctx σ hstarts => hstarts.compositional hregular hunit⟩

def stray (name : String) : Stmt := .expr default (.ident default name)

def partialScope : FnContext := ⟨partialContext, [("a", .ofLocal ⟨0⟩ ⟨0⟩)]⟩

def partialStart : FnState :=
  (runOn (Lower.build (Lower.addParams [] [(some "a", ⟨0⟩)]))
    ⟨partialSession.types, partialSession.errors, Builder.start "f" ⟨0⟩⟩).2

/-- What stands after a return is searched for errors too, and in another order, without the return,
the same errors are found. -/
theorem lower_compositional_stray :
    (∃ υ, runOn (Stmt.lowerAll partialScope
      [.ret default [.ident default "a"], stray "x", stray "y"]) partialStart = (.ok (), υ) ∧
        υ.errors = [.undefinedName "x" .empty, .undefinedName "y" .empty]) ∧
    ∃ υ, runOn (Stmt.lowerAll partialScope [stray "y", stray "x"]) partialStart = (.ok (), υ) ∧
      υ.errors = [.undefinedName "y" .empty, .undefinedName "x" .empty] := by
  have hnames : ∀ entry ∈ partialSample.types.entries, ∀ name ∈ entry.2.names,
      name ∉ reservedTypeNames := by decide +kernel
  have hstarts : Pass.Starts partialContext partialDecl partialSession partialScope partialStart :=
    ⟨⟨[⟨0⟩], ⟨0⟩⟩, partialScope.scope, rfl, rfl, runOn_of_toOption (by decide +kernel)⟩
  have hall := (lower_compositional hnames partialSample_comesTo).2 _ _ hstarts
  have hhere : partialStart.Admits partialStart := hall.visited [] [] _ .here
  have hrun : runOn (Stmt.lowerAll partialScope [.ret default [.ident default "a"], stray "x",
      stray "y"]) partialStart = (.ok (), _) := runOn_of_toOption (by decide +kernel)
  have hown : ∀ name ∈ ["x", "y"], (stray name).ownErrors partialScope partialStart =
      [.undefinedName name .empty] := by decide +kernel
  have hret : Stmt.ownErrors partialScope partialStart
      (.ret default [.ident default "a"]) = [] := by
    decide +kernel
  have hempty : partialStart.errors = [] := by decide +kernel
  obtain ⟨halone, herrors⟩ := hall.apart _ _ _ hhere hrun
  obtain ⟨υ, hrun', herrors'⟩ := hall.together [stray "y", stray "x"]
    (fun s hs => halone s (by simp at hs ⊢; tauto)) _ hhere
  simp only [hempty, List.flatMap_cons, List.flatMap_nil, hret, hown _ List.mem_cons_self,
    hown "y" (by simp), List.nil_append, List.cons_append] at herrors herrors'
  exact ⟨⟨_, hrun, herrors⟩, υ, hrun', herrors'⟩

end SourceUnit

end Midend
