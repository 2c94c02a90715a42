import Midend.Proofs.Expr
import Midend.Proofs.Ends

/-!
# Midend.Proofs.Tests

The tests of a switch. Each of them branches to the clause or to a new block, where the next test
begins, and where everything is in sight that was in sight before the test. So the tag can be read
in all tests.
-/

namespace Midend

open Ir

variable {ctx : FnContext} {g g' g₁ g₂ f : Draft ctx} {v : Value}

namespace Draft

def extended (g : Draft ctx) : Draft ctx := g.addBlock g.atCursor g.params_atCursor

theorem run_extended (g : Draft ctx) :
    runOn (Lower.build Build.createBlock) g.toFnState = (.ok g.next, g.extended.toFnState) := rfl

theorem since_extended (c : BlockId) (g : Draft ctx) : Since c g g.extended :=
  Since.addBlock c

theorem block?_extended (g : Draft ctx) :
    g.extended.builder.block? g.next = some (Block.fresh g.next) := by
  have hsize : g.next.index = g.builder.size := rfl
  show g.builder.withBlock.block? g.next = _
  rw [Builder.block?_withBlock, if_pos hsize]
  rfl

theorem sight_extended (g : Draft ctx) (id : LocalId) :
    g.extended.sight g.next id ↔ g.InSight g.cur id := by
  show g.sight.with g.size g.atCursor g.next id ↔ _
  simp [Builder.Sight.with, next, atCursor]

theorem accepts_extended (g : Draft ctx) : g.extended.Accepts g.cur g.next := by
  have hblank := g.block?_extended
  refine ⟨Builder.lt_size hblank, fun id hid => ?_, fun blk hblk inst hinst => ?_⟩
  · exact (g.since_extended g.cur).inSight g.inRange ((g.sight_extended id).mp hid)
  · rw [hblank] at hblk
    cases hblk
    simp [Block.fresh] at hinst

/-- Two ways lead on from the cursor's block: one to a clause, and one to the new block where the
cursor is now. -/
structure Branches (g g' : Draft ctx) (v : Value) (k : BlockId) : Prop
    extends Step g g' where
  starts : g'.Starts
  sees : ∀ w, g.Sees w → g'.Sees w
  seals : Seals g g' g.cur (.condBr v k g'.cur)
  cur : g'.cur = g.next
  wires : ∀ m, Wires m g g' fun i j => i = g.cur ∧ (j = k ∨ j = g'.cur)

theorem run_branchOrNext (hopen : g.Open g.cur) (hv : g.Sees v) (hbool : g.types.IsBool v.type)
    {k : BlockId} (hk : g.Target k) : ∃ g', g.Branches g' v k ∧
      runOn (Lower.branchOrNext v k) g.toFnState = (.ok (), g'.toFnState) := by
  have hs : Since g.cur g g.extended := g.since_extended g.cur
  have hsame : g.extended.builder.block? g.cur = g.builder.block? g.cur :=
    (g.since_extended g.next).kept g.cur g.inRange g.cur_ne_next
  have hopen' : g.extended.Open g.extended.cur := by
    obtain ⟨blk, hblk, hnone⟩ := hopen
    exact ⟨blk, hsame.trans hblk, hnone⟩
  have hcloses : g.extended.Closes g.extended.cur (.condBr v k g.next) :=
    .condBr hopen' hbool (hv.typed.mono hs.types hs.builder)
      (fun id hid => hs.inSight g.inRange (hv.reach id hid))
      ((hk.of_le hs.toLe).accepts _) g.accepts_extended
  have hclose :
      Since g.extended.cur g.extended (g.extended.close g.extended.cur _ hcloses) := .close
  have hblank : (g.extended.close g.extended.cur _ hcloses).builder.block? g.next =
      some (Block.fresh g.next) :=
    (hclose.kept g.next g.accepts_extended.lt g.cur_ne_next.symm).trans g.block?_extended
  have hlt := Builder.lt_size hblank
  have hall : Since g.cur g ((g.extended.close g.extended.cur _ hcloses).moveTo g.next hlt) :=
    (hs.trans hclose (.inl rfl)).trans (.moveTo g.cur) (.inl rfl)
  refine ⟨(g.extended.close g.extended.cur _ hcloses).moveTo g.next hlt, ⟨⟨hall, fun i => ?_,
    .inr (Nat.le_refl _)⟩, hblank, fun w hw => ?_, ?_, rfl, fun m => ?_⟩, ?_⟩
  · have hnext : i.index = g.size ↔ i = g.next :=
      ⟨fun h => Builder.index_inj h, fun h => by rw [h]; rfl⟩
    have hnew : g.Waiting i → i ≠ g.next := by
      rintro hi rfl
      exact g.not_open_next hi.1
    rw [waiting_moveTo_of_sealed (fun h => (open_close.mp h).1 rfl), waiting_close_cur, extended,
      waiting_addBlock, hnext]
    tauto
  · refine ⟨hw.typed.mono hall.types hall.builder, fun id hid => .inl ?_⟩
    exact (g.sight_extended id).mpr (hw.reach id hid)
  · exact (seals_close (h := hcloses)).back hsame
  · refine (Wires.addBlock.noEdge_trans ((Wires.close (by simp)).trans_noEdge .moveTo)).congr ?_
    intro i j _
    simp [Terminator.successors]
    rfl
  · rw [Lower.branchOrNext, runOn_bind_ok g.run_extended,
      runOn_bind_ok (g.extended.run_ensureOpen hopen'),
      runOn_bind_ok (g.extended.run_terminate hcloses)]
    exact run_switchTo _ hlt

theorem Branches.ways {k : BlockId} {ks : List BlockId} (h : g.Branches g' v k)
    (hopen : g.Open g.cur) (hk : k ∈ ks) (hks : ∀ k ∈ ks, k.index < g.size) :
    Ways ks g g' (fun j => j = k) True := by
  have hnew : g'.cur.index = g.size := by rw [h.cur]; rfl
  have hnext : ∀ f, Keeps g g' f → ∀ i, f.Edge i g'.cur ↔ i = g.cur := by
    intro f hf i
    rw [hf i g'.cur (Nat.le_of_eq hnew.symm) g'.inRange,
      (h.wires (g'.cur.index + 1)).edge_new g'.cur (Nat.le_of_eq hnew.symm) (Nat.lt_succ_self _)]
    simp
  have hw : Wires g.size g g' fun i j => i = g.cur ∧ j = k :=
    (h.wires g.size).congr fun i j hj => by
      have hne : j ≠ g'.cur := by
        rintro rfl
        exact absurd hj (Nat.not_lt.mpr (Nat.le_of_eq hnew.symm))
      simp [hne]
  refine ⟨_, hw, hks, fun i j hij => hij.2 ▸ hk, fun f hf n hlive => ⟨trivial, hopen, ?_⟩,
    fun f hf _ n hlive => ⟨n + 1, h.starts.opened, .edge hlive.2 ((hnext f hf _).mpr rfl)⟩,
    fun f _ i j n hij hn => ?_, fun f _ j hj n hlive => ⟨g.cur, n, ⟨rfl, hj⟩, hlive.2⟩⟩
  · obtain ⟨n', i, hn', hi, hedge⟩ := hlive.2.last (g.pos_of_new (Nat.le_of_eq hnew.symm))
    obtain rfl := (hnext f hf i).mp hedge
    exact hi.mono (Nat.le_of_lt hn')
  · obtain ⟨rfl, rfl⟩ := hij
    exact ⟨rfl, hopen, hn⟩

end Draft

/-! ## What a test does -/

/-- The tag of a switch has the value, if the switch has a tag. -/
def Scene.HoldsTag {V : Type} (s : Scene ctx V) (env : Locals V) :
    Option Value → Option (Datum V) → Prop
  | some v, some x => s.Holds env v x
  | none, none => True
  | _, _ => False

theorem Scene.HoldsTag.keep {V : Type} {s : Scene ctx V} {env env₁ : Locals V}
    {calls calls₁ : List (Call V)} {tag : Option Value} {x : Option (Datum V)}
    (h : s.HoldsTag env tag x) (hlead : s.Leads g g₁ env env₁ calls calls₁)
    (htag : ∀ v ∈ tag, g.Sees v) : s.HoldsTag env₁ tag x := by
  cases tag with
  | none => cases x <;> exact h
  | some v =>
    cases x with
    | none => exact h
    | some x => exact hlead.holds (htag v rfl).typed h

/-- Control goes on at the clause if it is taken, and at the second draft if it is not. -/
def Tests (g g' : Draft ctx) (tag : Option Value) (k : BlockId)
    (act : ∀ {V : Type}, Scene ctx V → Option (Datum V) → Eval V Bool) : Prop :=
  g'.errors = g.errors → g.Open g.cur → g'.Open g'.cur ∧
    ∀ ⦃V : Type⦄ (s : Scene ctx V), s.Covers g' →
    ∀ env calls, s.Fits env → ∀ x, s.HoldsTag env tag x → ∃ taken calls₁ env₁,
      (act s x).run calls = some (taken, calls₁) ∧
        if taken then
          ∀ a : Draft ctx, a.cur = k → a.Starts → s.Leads g a env env₁ calls calls₁
        else s.Leads g g' env env₁ calls calls₁

variable {tag : Value} {k : BlockId}

/-- The clause is entered from the tests of its values, if it has any, and control goes on after the
tests. -/
def Asks (g g' : Draft ctx) (k : BlockId) (p : Prop) : Prop :=
  g'.errors = g.errors → ∀ ks, k ∈ ks → (∀ k ∈ ks, k.index < g.size) →
    Draft.Ways ks g g' (fun j => p ∧ j = k) True

theorem Asks.of_errors {p : Prop} (h : g'.errors ≠ g.errors) : Asks g g' k p :=
  fun herr => absurd herr h

theorem Draft.Branches.asks (h : g₁.Branches g' v k) (hopen : g₁.Open g₁.cur)
    (hfalls : g.Falls g₁ True) : Asks g g' k True := by
  intro _ ks hk hks
  have hks₁ : ∀ k ∈ ks, k.index < g₁.size := fun k hk => Nat.lt_of_lt_of_le (hks k hk) hfalls.size
  exact ((hfalls.ways hks).trans (h.ways hopen hk hks₁)).congr (by simp) (by simp)

theorem Draft.Branches.leads (h : g₁.Branches g' v k) {V : Type} {s : Scene ctx V}
    (hc : s.Covers g') {env env₁ : Locals V} {calls calls₁ : List (Call V)} {x : Datum V}
    (hx : s.Holds env₁ v x) (hlead : s.Leads g g₁ env env₁ calls calls₁) (hs : g.Le g₁) :
    if s.interp.holds x.value then
      ∀ a : Draft ctx, a.cur = k → a.Starts → s.Leads g a env env₁ calls calls₁
    else s.Leads g g' env env₁ calls calls₁ := by
  cases hholds : s.interp.holds x.value with
  | true =>
    intro a hcur hstart
    have hnext : s.Leads g₁ a env₁ env₁ calls₁ calls₁ :=
      Scene.leads_condBr h.seals hc hx hstart (by simp [hholds, hcur])
    exact hlead.trans hnext hs.builder
  | false =>
    have hnext : s.Leads g₁ g' env₁ env₁ calls₁ calls₁ :=
      Scene.leads_condBr h.seals hc hx h.starts (by simp [hholds])
    exact hlead.trans hnext hs.builder

theorem Tests.of_errors {tag : Option Value}
    {act : ∀ {V : Type}, Scene ctx V → Option (Datum V) → Eval V Bool} (h : g'.errors ≠ g.errors) :
    Tests g g' tag k act := fun herr => absurd herr h

theorem testValue_does (e : Expr) (hk : g.Target k) (htag : g.Sees tag) :
    Does (Lower.testValue ctx tag k e) g fun _ g' => (∀ w, g.Sees w → g'.Sees w) ∧
      Asks g g' k True ∧ Tests g g' (some tag) k fun s x => isTaken s.world s.names x [e] := by
  obtain ⟨g₁, hreopens, hrun⟩ := g.run_ensureOpen_reopens
  rw [Lower.testValue]
  refine Does.next hrun hreopens.toStep ?_
  refine (Does.of_evals (Evals.recover (Expr.lower_evals e g₁ hreopens.opened))).bind ?_
  rintro r g₂ - ⟨hstep₂, hr⟩
  have hsees₂ : ∀ w, g.Sees w → g₂.Sees w := fun w hw => hstep₂.seen (hreopens.sees w hw)
  cases r with
  | none =>
    have hne : g₂.errors ≠ g.errors := fun he => hr (hreopens.toLe.errors_right hstep₂.toLe he)
    exact .pure ⟨hsees₂, .of_errors hne, .of_errors hne⟩
  | some v =>
    obtain ⟨hsees, hrealizes⟩ := hr
    refine (Does.of_evals (Evals.recover
      (equal_evals e.span hstep₂.opened (hsees₂ tag htag) hsees))).bind ?_
    rintro r g₃ - ⟨hstep₃, hr⟩
    have hsees₃ : ∀ w, g.Sees w → g₃.Sees w := fun w hw => hstep₃.seen (hsees₂ w hw)
    cases r with
    | none =>
      have hne : g₃.errors ≠ g.errors := fun he =>
        hr ((hreopens.toLe.trans hstep₂.toLe).errors_right hstep₃.toLe he)
      exact .pure ⟨hsees₃, .of_errors hne, .of_errors hne⟩
    | some cond =>
      obtain ⟨hcond, hbool, hjoins⟩ := hr
      have hle : g.Le g₃ := hreopens.toLe.trans (hstep₂.toLe.trans hstep₃.toLe)
      obtain ⟨g₄, hbranches, hrun₄⟩ :=
        g₃.run_branchOrNext hstep₃.opened hcond hbool (hk.of_le hle)
      have hfalls : g.Falls g₃ True :=
        (hreopens.falls.trans (hstep₂.falls.trans hstep₃.falls)).congr (by simp)
      refine Spec.of_run hrun₄ ⟨hbranches.toStep, fun w hw => hbranches.sees w (hsees₃ w hw),
        hbranches.asks hstep₃.opened hfalls, ?_⟩
      intro _ hopen
      obtain rfl := hreopens.same hopen
      refine ⟨hbranches.starts.opened, fun V s hc env calls hfits x hx => ?_⟩
      cases x with
      | none => exact hx.elim
      | some x =>
        have hc₃ := hc.of_since hbranches.toSince
        obtain ⟨y, calls₁, hy, env₁, hlead, hyv⟩ :=
          hrealizes s (hc₃.of_since hstep₃.toSince) env calls hfits
        obtain ⟨z, hz, env₂, hlead₂, hzv⟩ :=
          hjoins s hc₃ env₁ calls₁ x y (hlead.holds htag.typed hx) hyv
        have hall := hlead.trans hlead₂ hstep₂.builder
        refine ⟨s.interp.holds z.value, calls₁, env₂, ?_,
          hbranches.leads hc hzv hall (hstep₂.toLe.trans hstep₃.toLe)⟩
        cases hholds : s.interp.holds z.value <;> simp [isTaken, anyEqual, hy, hz, hholds]

theorem run_anyEqual_cons {V : Type} {w : World V} {names : Names V} {x : Datum V} {e : Expr}
    {rest : List Expr} {taken : Bool} {calls calls₁ : List (Call V)}
    (h : (anyEqual w names x [e]).run calls = some (taken, calls₁)) :
    (anyEqual w names x (e :: rest)).run calls =
      if taken then some (true, calls₁) else (anyEqual w names x rest).run calls₁ := by
  cases hy : (e.eval w names).run calls with
  | none => simp [anyEqual, hy] at h
  | some r =>
    obtain ⟨y, calls₂⟩ := r
    cases hz : w.comparison .eq false x y with
    | none => simp [anyEqual, hy, hz] at h
    | some z =>
      cases hholds : w.interp.holds z.value <;>
        · simp [anyEqual, hy, hz, hholds] at h
          obtain ⟨rfl, rfl⟩ := h
          simp [anyEqual, hy, hz, hholds]

/-- The values of a clause are tested in order, until one equals the tag. -/
theorem Tests.orElse {tag : Value} {e : Expr} {rest : List Expr} (htag : g.Sees tag)
    (hs : g.Le g₁) (hs' : g₁.Le g')
    (h₁ : Tests g g₁ (some tag) k fun s x => isTaken s.world s.names x [e])
    (h₂ : Tests g₁ g' (some tag) k fun s x => isTaken s.world s.names x rest) :
    Tests g g' (some tag) k fun s x => isTaken s.world s.names x (e :: rest) := by
  intro herr hopen
  obtain ⟨hopen₁, hfirst⟩ := h₁ (hs.errors_left hs' herr) hopen
  obtain ⟨hopen', hsecond⟩ := h₂ (hs.errors_right hs' herr) hopen₁
  refine ⟨hopen', fun V s hc env calls hfits x hx => ?_⟩
  have hc₁ := hc.of_draft_le hs'
  obtain ⟨taken, calls₁, env₁, hrun, hlead⟩ := hfirst s hc₁ env calls hfits x hx
  cases x with
  | none => exact hx.elim
  | some x =>
    have hall := @run_anyEqual_cons _ _ _ _ _ rest _ _ _ hrun
    cases taken with
    | true => exact ⟨true, calls₁, env₁, hall, hlead⟩
    | false =>
      have hfits₁ := Scene.Leads.fits hlead (hc₁.of_draft_le hs) hfits
      have hx₁ : s.Holds env₁ tag x := Scene.Leads.holds hlead htag.typed hx
      obtain ⟨taken, calls₂, env₂, hrun₂, hlead₂⟩ :=
        hsecond s hc env₁ calls₁ hfits₁ (some x) hx₁
      refine ⟨taken, calls₂, env₂, hall.trans hrun₂, ?_⟩
      cases taken with
      | true =>
        intro a hcur hstart
        exact Scene.Leads.trans hlead (hlead₂ a hcur hstart) hs.builder
      | false => exact Scene.Leads.trans hlead hlead₂ hs.builder

theorem testValues_does (values : List Expr) (hk : g.Target k) (htag : g.Sees tag) :
    Does (Lower.testValues ctx tag k values) g fun _ g' => (∀ w, g.Sees w → g'.Sees w) ∧
      Asks g g' k (values ≠ []) ∧
        Tests g g' (some tag) k fun s x => isTaken s.world s.names x values := by
  induction values generalizing g with
  | nil =>
    refine .pure ⟨fun _ hw => hw, fun _ ks _ hks => ?_,
      fun _ hopen => ⟨hopen, fun V s _ env calls _ x hx => ?_⟩⟩
    · exact ((Draft.Falls.refl g).ways hks).congr (by simp) Iff.rfl
    · cases x with
      | none => exact hx.elim
      | some x => exact ⟨false, calls, env, rfl, .still rfl⟩
  | cons e rest ih =>
    rw [Lower.testValues]
    refine (testValue_does e hk htag).bind ?_
    rintro _ g₁ hstep ⟨hsees, hasks, htests⟩
    refine (ih (hk.of_le hstep.toLe) (hsees tag htag)).mono ?_
    rintro _ g' hstep' ⟨hsees', hasks', htests'⟩
    refine ⟨fun w hw => hsees' w (hsees w hw), fun herr ks hmem hks => ?_, ?_⟩
    · have hfirst := hasks (hstep.toLe.errors_left hstep'.toLe herr) ks hmem hks
      have hrest := hasks' (hstep.toLe.errors_right hstep'.toLe herr) ks hmem
        fun k hk => Nat.lt_of_lt_of_le (hks k hk) hstep.size
      exact (hfirst.trans hrest).congr (by simp) (by simp)
    · exact htests.orElse htag hstep.toLe hstep'.toLe htests'

variable {lhs rhs : Value}

/-- Two conditions are joined. Their types may differ. -/
theorem disjunction_evals (hopen : g.Open g.cur) (hl : g.Sees lhs) (hr : g.Sees rhs)
    (hlBool : g.types.IsBool lhs.type) (hrBool : g.types.IsBool rhs.type) :
    Evals (Lower.disjunction lhs rhs) g fun r g' => g'.Sees r ∧ g'.types.IsBool r.type ∧
      Joins g g' lhs rhs r fun w x y =>
        some ⟨w.interp.binary .or (.int 1) x.value y.value, .int 1⟩ := by
  have htype : Evals (if lhs.type = rhs.type then pure lhs.type else Lower.typing Typing.bool) g
      fun type g₁ => g₁.types.IsBool type ∧ g₁.builder = g.builder ∧
        (lhs.type = rhs.type → type = lhs.type) := by
    by_cases hsame : lhs.type = rhs.type
    · rw [if_pos hsame]
      exact .pure hopen ⟨hlBool, rfl, fun _ => rfl⟩
    · rw [if_neg hsame]
      exact .typing hopen (Typing.bool_adds g.wf) fun _ _ _ _ hbool _ =>
        ⟨hbool, rfl, fun h => absurd h hsame⟩
  have hcode : Lower.disjunction lhs rhs =
      (if lhs.type = rhs.type then pure lhs.type else Lower.typing Typing.bool) >>=
        fun type => Lower.push type (.binary .or lhs rhs) := by
    rw [Lower.disjunction]
    split <;> rfl
  rw [hcode]
  refine htype.bind ?_
  rintro type g₁ hstep ⟨hbool, hb, hsame⟩
  have hl₁ := hstep.seen hl
  have hr₁ := hstep.seen hr
  have htyped : OperationTyped g₁.types ctx.functions (.binary .or lhs rhs) type := by
    by_cases heq : lhs.type = rhs.type
    · obtain rfl := hsame heq
      exact .arith rfl rfl heq.symm hbool.isInt
    · exact .join heq (hlBool.le hstep.types) (hrBool.le hstep.types) hbool
  refine (push_evals hstep.opened htyped rfl ?_ hbool (by simp)).mono ?_
  · intro w hw
    have hw' : w = lhs ∨ w = rhs := by simpa [Operation.operands] using hw
    rcases hw' with rfl | rfl
    · exact hl₁
    · exact hr₁
  · rintro r g' hstep' ⟨hsees, hbody, _, hrun⟩
    refine ⟨hsees, hbody, fun V s hc env calls x y hx hy => ⟨_, rfl, ?_⟩⟩
    have hxtype : x.type = .int 1 :=
      (hc.of_since hstep'.toSince).type_eq (hlBool.le hstep.types) hx
    refine (hrun s hc env calls _ calls fun prev => ?_).of_still hb
    rw [Scene.perform_binary hx hy.read .or prev, hxtype]
    rfl

/-- What a disjunction has come to, and the value for it. -/
def Collects (g g' : Draft ctx) (before : Option Value) (es : List Expr)
    (r : Option Value) : Prop :=
  ∀ ⦃V : Type⦄ (s : Scene ctx V), s.Covers g' → ∀ env calls, s.Fits env →
    ∀ x, s.HoldsTag env before x → ∃ y calls₁ env₁,
      (disjunctionOf s.world s.names x es).run calls = some (y, calls₁) ∧
        s.Leads g g' env env₁ calls calls₁ ∧ s.HoldsTag env₁ r y

theorem Collects.first {e : Expr} {rest : List Expr} {cond : Value} {r : Option Value}
    (hstep : g.EvalStep g₁) (hstep' : g₁.EvalStep g')
    (hcond : Realizes g g₁ cond fun s => e.eval s.world s.names)
    (hrest : Collects g₁ g' (some cond) rest r) : Collects g g' none (e :: rest) r := by
  intro V s hc env calls hfits x hx
  have hc₁ := hc.of_since hstep'.toSince
  obtain ⟨y, calls₁, hy, env₁, hlead, hyv⟩ := hcond s hc₁ env calls hfits
  obtain ⟨z, calls₂, env₂, hz, hlead₂, hzv⟩ := hrest s hc env₁ calls₁
    (hlead.fits (hc₁.of_since hstep.toSince) hfits) (some y) hyv
  refine ⟨z, calls₂, env₂, ?_, hlead.trans hlead₂ hstep.builder, hzv⟩
  cases x with
  | none => simp [disjunctionOf, hy, hz]
  | some x => exact hx.elim

theorem Collects.next {e : Expr} {rest : List Expr} {cond both : Value} {r : Option Value}
    (hl : g.Sees lhs) (hstep : g.EvalStep g₁) (hstep₂ : g₁.EvalStep g₂) (hstep' : g₂.EvalStep g')
    (hcond : Realizes g g₁ cond fun s => e.eval s.world s.names)
    (hjoins : Joins g₁ g₂ lhs cond both fun w x y =>
      some ⟨w.interp.binary .or (.int 1) x.value y.value, .int 1⟩)
    (hrest : Collects g₂ g' (some both) rest r) : Collects g g' (some lhs) (e :: rest) r := by
  intro V s hc env calls hfits x hx
  cases x with
  | none => exact hx.elim
  | some x =>
    have hc₂ := hc.of_since hstep'.toSince
    have hc₁ := hc₂.of_since hstep₂.toSince
    obtain ⟨y, calls₁, hy, env₁, hlead, hyv⟩ := hcond s hc₁ env calls hfits
    have hx₁ : s.Holds env₁ lhs x := hlead.holds hl.typed hx
    obtain ⟨w, hw, env₂, hlead₂, hwv⟩ := hjoins s hc₂ env₁ calls₁ x y hx₁ hyv
    cases hw
    have hfits₁ := hlead.fits (hc₁.of_since hstep.toSince) hfits
    obtain ⟨z, calls₂, env₃, hz, hlead₃, hzv⟩ :=
      hrest s hc env₂ calls₁ (hlead₂.fits hc₁ hfits₁) (some _) hwv
    refine ⟨z, calls₂, env₃, ?_,
      (hlead.trans hlead₂ hstep.builder).trans hlead₃ (hstep.trans hstep₂).builder, hzv⟩
    simp only [Scene.world_interp] at hz
    simp [disjunctionOf, hy, hz]

theorem anyOf_evals (es : List Expr) (before : Option Value) (g : Draft ctx)
    (hopen : g.Open g.cur) (hbefore : ∀ v ∈ before, g.Sees v ∧ g.types.IsBool v.type) :
    Evals (Lower.anyOf ctx before es) g fun r g' =>
      (∀ v ∈ r, g'.Sees v ∧ g'.types.IsBool v.type) ∧
        (g'.errors = g.errors → (r = none → before = none ∧ es = []) ∧
          Collects g g' before es r) := by
  induction es generalizing before g with
  | nil =>
    refine .pure hopen ⟨hbefore, fun _ => ⟨fun h => ⟨h, rfl⟩, fun V s _ env calls _ x hx => ?_⟩⟩
    exact ⟨x, calls, env, rfl, .still rfl, hx⟩
  | cons e rest ih =>
    rw [Lower.anyOf]
    refine (condition_evals e g hopen).bind ?_
    intro r g₁ hstep hr
    have hbefore₁ : ∀ v ∈ before, g₁.Sees v ∧ g₁.types.IsBool v.type := fun v hv =>
      ⟨hstep.seen (hbefore v hv).1, (hbefore v hv).2.le hstep.types⟩
    cases r with
    | none =>
      refine (ih before g₁ hstep.opened hbefore₁).mono ?_
      exact fun r g' hstep' h => ⟨h.1,
        fun herr => absurd (hstep.toLe.errors_left hstep'.toLe herr) hr⟩
    | some cond =>
      obtain ⟨hsees, hbool, hcond⟩ := hr
      cases before with
      | none =>
        refine (ih (some cond) g₁ hstep.opened (by simpa using ⟨hsees, hbool⟩)).mono ?_
        rintro r g' hstep' ⟨hr, hrest⟩
        refine ⟨hr, fun herr => ?_⟩
        obtain ⟨hsome, hcollects⟩ := hrest (hstep.toLe.errors_right hstep'.toLe herr)
        exact ⟨fun h => by simpa using (hsome h).1, hcollects.first hstep hstep' hcond⟩
      | some lhs =>
        obtain ⟨hl, hlBool⟩ := hbefore₁ lhs rfl
        refine (disjunction_evals hstep.opened hl hsees hlBool hbool).bind ?_
        rintro both g₂ hstep₂ ⟨hboth, hbothBool, hj₂⟩
        refine (ih (some both) g₂ hstep₂.opened (by simpa using ⟨hboth, hbothBool⟩)).mono ?_
        rintro r g' hstep' ⟨hr, hrest⟩
        refine ⟨hr, fun herr => ?_⟩
        have hle : g.Le g₂ := hstep.toLe.trans hstep₂.toLe
        obtain ⟨hsome, hcollects⟩ := hrest (hle.errors_right hstep'.toLe herr)
        exact ⟨fun h => by simpa using (hsome h).1,
          hcollects.next (hbefore lhs rfl).1 hstep hstep₂ hstep' hcond hj₂⟩

/-- A clause without a tag is taken if one of its values holds. They are all computed. -/
theorem testConditions_does (values : List Expr) (hne : values ≠ []) (hk : g.Target k) :
    Does (Lower.testConditions ctx k values) g fun _ g' => Asks g g' k True ∧
      Tests g g' none k fun s x => isTaken s.world s.names x values := by
  obtain ⟨g₁, hreopens, hrun⟩ := g.run_ensureOpen_reopens
  rw [Lower.testConditions]
  refine Does.next hrun hreopens.toStep ?_
  have hnone : ∀ v ∈ (none : Option Value), g₁.Sees v ∧ g₁.types.IsBool v.type := by simp
  refine (Does.of_evals (anyOf_evals values none g₁ hreopens.opened hnone)).bind ?_
  rintro r g₂ - ⟨hstep, hr, hrest⟩
  cases r with
  | none =>
    have herrors : g₂.errors ≠ g.errors := fun herr =>
      absurd ((hrest (hreopens.toLe.errors_right hstep.toLe herr)).1 rfl).2 hne
    exact .pure ⟨.of_errors herrors, .of_errors herrors⟩
  | some cond =>
    obtain ⟨hsees, hbool⟩ := hr cond rfl
    have hle : g.Le g₂ := hreopens.toLe.trans hstep.toLe
    obtain ⟨g₃, hbranches, hrun₃⟩ :=
      g₂.run_branchOrNext hstep.opened hsees hbool (hk.of_le hle)
    have hfalls : g.Falls g₂ True := (hreopens.falls.trans hstep.falls).congr (by simp)
    refine Spec.of_run hrun₃ ⟨hbranches.toStep, hbranches.asks hstep.opened hfalls,
      fun herr hopen => ?_⟩
    obtain rfl := hreopens.same hopen
    refine ⟨hbranches.starts.opened, fun V s hc env calls hfits x hx => ?_⟩
    have hsame := hstep.toLe.errors_left hbranches.toLe herr
    obtain ⟨y, calls₁, env₁, hy, hlead, hyv⟩ :=
      (hrest hsame).2 s (hc.of_since hbranches.toSince) env calls hfits x hx
    cases x with
    | some x => exact hx.elim
    | none =>
      cases y with
      | none => exact hyv.elim
      | some y =>
        refine ⟨s.interp.holds y.value, calls₁, env₁, ?_, hbranches.leads hc hyv hlead hstep.toLe⟩
        simp [isTaken, hy]

end Midend
