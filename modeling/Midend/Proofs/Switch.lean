import Midend.Proofs.Branch
import Midend.Proofs.Tests

/-!
# Midend.Proofs.Switch

Switches. The tests of all clauses come first, one after the other, then the bodies. What the tests
come to is said for any draft `f` where control goes on in the end, since the bodies are not there
yet when the tests are lowered (`Selects`).
-/

namespace Midend

open Ir

variable {ctx : FnContext} {g g' g₁ g₂ f a b : Draft ctx} {v : Value}

theorem run_createEntries (clauses : List Clause) {last : Option BlockId} {blanks : List BlockId}
    (h : Draft.Prepared g a last blanks) : ∃ entries b,
      runOn (Lower.createEntries clauses) a.toFnState = (.ok entries, b.toFnState) ∧
        entries.length = clauses.length ∧ Draft.Prepared g b last (entries ++ blanks) := by
  induction clauses generalizing a blanks with
  | nil => exact ⟨[], a, rfl, rfl, h⟩
  | cons clause rest ih =>
    obtain ⟨entries, b, hrun, hlength, hprepared⟩ := ih h.addTarget
    refine ⟨a.next :: entries, b, ?_, by simp [hlength], ?_⟩
    · rw [Lower.createEntries, runOn_bind_ok a.run_createTarget, runOn_bind_ok hrun]
      rfl
    · exact { hprepared with
        toOpens := hprepared.toOpens.perm (.refl _) List.perm_middle
        new := fun k hk => hprepared.new k (List.perm_middle.mem_iff.mpr hk) }

/-- In the code, control gets from the entries of the clauses whose bodies it falls through to the
ends of the bodies, and in no other way. -/
structure Through (f : Builder) (pairs : List (Clause × BlockId)) (ends : List BlockId)
    (p : Clause → Prop) : Prop where
  back : ∀ i ∈ ends, ∀ n, f.ReachedIn n i → ∃ c ∈ pairs, p c.1 ∧ f.ReachedIn n c.2
  onward : ∀ c ∈ pairs, p c.1 → ∀ n, f.ReachedIn n c.2 → ∃ i ∈ ends, ∃ k, f.ReachedIn k i

/-- What the bodies of the clauses do, wherever control goes on after them in the end. -/
structure Bodies (a b : Draft ctx) (clauses : List Clause) (entries : List BlockId)
    (lasts : List (Option BlockId)) (p : Clause → Prop) : Prop where
  le : a.Le b
  kept : ∀ i, a.Open i → i ∉ entries → b.builder.block? i = a.builder.block? i
  arms : ∀ f, b.Le f → f.Starts →
    (∀ i ∈ Draft.endsOf lasts, Draft.Seals b f i (.br f.cur)) → ∀ p ∈ clauses.zip entries,
      Arm a f p.2 fun s fuel => Stmt.execAll s.world s.names s.ret fuel p.1.body
  wires : b.errors = a.errors → Draft.Wires a.size a b Draft.noEdge
  through : b.errors = a.errors → ∀ f, Draft.Keeps a b f →
    Through f (clauses.zip entries) (Draft.endsOf lasts) p

theorem Through.cons {f : Builder} {clause : Clause} {k : BlockId} {b : Draft ctx}
    {last : Option BlockId} {pairs : List (Clause × BlockId)} {ends : List BlockId}
    {p : Clause → Prop} (h : Draft.Passes f k b (p clause)) (hend : b.IsEnd last)
    (hrest : Through f pairs ends p) :
    Through f ((clause, k) :: pairs) (last.toList ++ ends) p where
  back i hi n hn := by
    rcases List.mem_append.mp hi with hi | hi
    · obtain ⟨hopen, rfl⟩ := hend.mem_iff.mp hi
      exact ⟨_, List.mem_cons_self, h.back n ⟨hopen, hn⟩⟩
    · obtain ⟨c, hc, hp⟩ := hrest.back i hi n hn
      exact ⟨c, List.mem_cons_of_mem _ hc, hp⟩
  onward c hc hp n hn := by
    rcases List.mem_cons.mp hc with rfl | hc
    · obtain ⟨m, hopen, hm⟩ := h.onward hp n hn
      exact ⟨b.cur, List.mem_append_left _ (hend.cur_mem hopen), m, hm⟩
    · obtain ⟨i, hi, hm⟩ := hrest.onward c hc hp n hn
      exact ⟨i, List.mem_append_right _ hi, hm⟩

theorem Bodies.nil {p : Clause → Prop} : Bodies a a [] [] [] p where
  le := .refl a
  kept _ _ _ := rfl
  arms _ _ _ _ p hp := by simp at hp
  wires _ := .refl a
  through _ f _ := ⟨fun i hi => by simp at hi, fun c hc => by simp at hc⟩

theorem Bodies.cons {p : Clause → Prop} {clause : Clause} {rest : List Clause} {k : BlockId}
    {entries ends : List BlockId} {last : Option BlockId} {lasts : List (Option BlockId)}
    {b₁ : Draft ctx} (hblank : a.Blank k) (hstep : (a.moveTo k hblank.lt).Step b₁)
    (hrenders : Renders (a.moveTo k hblank.lt) b₁
      (fun s fuel => Stmt.execAll s.world s.names s.ret fuel clause.body) (p clause))
    (hend : b₁.IsEnd last) (hopens : Draft.Opens g b₁ (last.toList ++ ends) entries)
    (hbodies : Bodies b₁ b rest entries lasts p) :
    Bodies a b (clause :: rest) (k :: entries) (last :: lasts) p := by
  have hmoved : a.Le (a.moveTo k hblank.lt) := (Draft.Since.moveTo k).toLe
  have hab₁ : a.Le b₁ := hmoved.trans hstep.toLe
  have hfalls : b.errors = a.errors → Draft.Falls (a.moveTo k hblank.lt) b₁ (p clause) :=
    fun herr => hrenders.falls (hmoved.errors_between hstep.toLe hbodies.le herr)
  have hwires : b.errors = a.errors → Draft.Wires b₁.size b₁ b Draft.noEdge :=
    fun herr => hbodies.wires (hab₁.errors_right hbodies.le herr)
  refine ⟨hab₁.trans hbodies.le, fun i hi hne => ?_, fun f hf hstart hseals p hp => ?_,
    fun herr => ?_, fun herr f hf => ?_⟩
  · rw [List.mem_cons, not_or] at hne
    have hwaiting : (a.moveTo k hblank.lt).Waiting i := ⟨hi, hne.1⟩
    have hsame := hstep.block_of_waiting hwaiting
    rw [hbodies.kept i ((hstep.waiting i).mpr hwaiting).1 hne.2, hsame]
    rfl
  · rcases List.mem_cons.mp hp with rfl | hp
    · refine ⟨a.moveTo k hblank.lt, rfl, hblank.starts, hmoved,
        hstep.toLe.trans (hbodies.le.trans hf), ?_⟩
      refine hrenders.performs.onward hstep.toLe (hbodies.le.trans hf) (fun hopen => ?_) hstart
      have hmem : b₁.cur ∈ last.toList := hend.cur_mem hopen
      refine (hseals b₁.cur (by simp [hmem])).back (hbodies.kept b₁.cur hopen fun hin => ?_)
      exact (List.nodup_append.mp hopens.nodup).2.2 b₁.cur (by simp [hmem]) b₁.cur hin rfl
    · exact (hbodies.arms f hf hstart (fun i hi => hseals i (by simp [hi])) p hp).of_le hab₁
  · exact Draft.Wires.moveTo.noEdge_trans
      ((hfalls herr).toWires.noEdge_trans ((hwires herr).less hstep.size))
  · rw [Draft.endsOf_cons, List.zip_cons_cons]
    refine Through.cons ((hfalls herr).passes ?_ hblank.starts.opened) hend
      (hbodies.through (hab₁.errors_right hbodies.le herr) f ?_)
    · exact hf.part (Nat.le_refl _) (hwires herr) fun _ _ hno => hno.elim
    · exact hf.part hstep.size (.refl b) fun _ _ hno => hno.elim

theorem lowerClauses_spec {p : Clause → Prop} (clauses : List Clause) (entries : List BlockId)
    (hlength : entries.length = clauses.length) {ends : List BlockId}
    (h : Draft.Opens g a ends entries)
    (hsound : ∀ c ∈ clauses, Sound ctx (Stmt.lowerAll ctx c.body) (fun s fuel =>
      Stmt.execAll s.world s.names s.ret fuel c.body) (p c)) :
    Spec (Stmt.lowerClauses ctx clauses entries) a
      (fun lasts b => Draft.Opens g b (Draft.endsOf lasts ++ ends) [] ∧
        Bodies a b clauses entries lasts p) fun _ _ => True := by
  induction clauses generalizing a entries ends with
  | nil =>
    obtain rfl := List.length_eq_zero_iff.mp hlength
    exact Spec.pure ⟨h, .nil⟩
  | cons clause rest ih =>
    obtain ⟨values, body, span⟩ := clause
    cases entries with
    | nil => simp at hlength
    | cons k entries =>
      have hblank := h.blank k (by simp)
      have hentered := h.enter (.refl _) hblank.lt
      rw [Stmt.lowerClauses]
      refine Spec.next (a.run_switchTo hblank.lt) ?_
      have hbody := hsound (.mk values body span) (by simp) (a.moveTo k hblank.lt)
      refine Spec.bind hbody ?_ fun _ _ _ => trivial
      rintro _ b₁ ⟨hstep, hrenders⟩
      obtain ⟨last, hend, hrun⟩ := b₁.run_openEnd_isEnd
      refine Spec.next hrun ?_
      have hopens := hentered.step (.of_open hblank.starts.opened) hstep hend
      refine Spec.bind (ih entries (by simpa using hlength) hopens
        fun c hc => hsound c (List.mem_cons_of_mem _ hc)) ?_ fun _ _ _ => trivial
      rintro lasts b ⟨hopens', hbodies⟩
      refine Spec.pure ⟨hopens'.perm ?_ (.refl _), .cons hblank hstep hrenders hend hopens hbodies⟩
      rw [Draft.endsOf_cons, List.append_assoc]
      exact List.perm_append_comm_assoc _ _ _

/-- Wherever control goes on in the end, and whatever the clauses do until they come there: the
tests select the clause that the source selects. -/
def Selects (g g' : Draft ctx) (tag : Option Value)
    (pairs : List (Clause × BlockId)) : Prop :=
  ∀ f, g'.Le f → f.Starts → (g'.Open g'.cur → Draft.Seals g' f g'.cur (.br f.cur)) →
    (∀ p ∈ pairs, Arm g' f p.2 fun s fuel =>
      Stmt.execAll s.world s.names s.ret fuel p.1.body) →
    f.errors = g.errors → g.Open g.cur → ∀ ⦃V : Type⦄ (s : Scene ctx V), s.Covers f →
      ∀ fuel env calls, s.Fits env → ∀ x, s.HoldsTag env tag x →
        s.Runs fuel g f env calls
          (Stmt.execClauses s.world s.names s.ret fuel x (pairs.map Prod.fst))

variable {tag : Option Value} {pairs : List (Clause × BlockId)}

theorem selects_nil : Selects g g tag [] := by
  intro f _ hstart hseals _ _ hopen V s hc fuel env calls _ x _
  refine ⟨.normal, calls, ?_, hstart.opened, env, Scene.leads_br (hseals hopen) hc hstart⟩
  simp [Stmt.execClauses]

theorem selects_default {clause : Clause} {entry : BlockId} (hdefault : clause.isDefault = true)
    (hseals : g.Open g.cur → Draft.Seals g g' g.cur (.br entry)) (hs : g.Le g') :
    Selects g g' tag ((clause, entry) :: pairs) := by
  intro f hf _ _ harms herr hopen V s hc fuel env calls hfits x _
  have harm := (harms (clause, entry) (by simp)).of_le hs
  obtain ⟨o, calls', hrun, hreaches⟩ :=
    harm.performs ((hseals hopen).mono hf.builder) herr hopen s hc fuel env calls hfits
  refine ⟨o, calls', ?_, hreaches⟩
  obtain ⟨values, body, span⟩ := clause
  have hempty : values.isEmpty = true := hdefault
  rw [List.map_cons, Stmt.execClauses, if_pos hempty]
  exact hrun

theorem selects_cons {clause : Clause} {entry : BlockId} (hdefault : ¬ clause.isDefault = true)
    (htag : ∀ v ∈ tag, g.Sees v) (hs : g.Le g₁) (hs' : g₁.Le g')
    (htests : Tests g g₁ tag entry fun s x => isTaken s.world s.names x clause.values)
    (h : Selects g₁ g' tag pairs) : Selects g g' tag ((clause, entry) :: pairs) := by
  intro f hf hstart hseals harms herr hopen V s hc fuel env calls hfits x hx
  have hc₁ : s.Covers g₁ := hc.of_draft_le (hs'.trans hf)
  have hsf : g₁.Le f := hs'.trans hf
  obtain ⟨hopen₁, hrun⟩ := htests (hs.errors_left hsf herr) hopen
  obtain ⟨taken, calls₁, env₁, htaken, hlead⟩ := hrun s hc₁ env calls hfits x hx
  obtain ⟨values, body, span⟩ := clause
  have hexec : (Stmt.execClauses s.world s.names s.ret fuel x
      (((Clause.mk values body span, entry) :: pairs).map Prod.fst)).run calls =
        if taken then (Stmt.execAll s.world s.names s.ret fuel body).run calls₁
        else (Stmt.execClauses s.world s.names s.ret fuel x (pairs.map Prod.fst)).run calls₁ := by
    have hempty : ¬ values.isEmpty = true := hdefault
    have htaken' : (isTaken s.world s.names x values).run calls = some (taken, calls₁) := htaken
    rw [List.map_cons, Stmt.execClauses, if_neg hempty]
    cases taken <;> simp [htaken']
  cases taken with
  | true =>
    have harm := (harms (.mk values body span, entry) (by simp)).of_le (hs.trans hs')
    exact harm.runs herr hc hfits hlead hexec
  | false =>
    have hlead' : s.Leads g g₁ env env₁ calls calls₁ := hlead
    exact (h f hf hstart hseals (fun p hp => harms p (by simp [hp]))
      (hs.errors_right hsf herr) hopen₁ s hc fuel env₁
      calls₁ (hlead'.fits (hc₁.of_draft_le hs) hfits) x (hx.keep hlead' htag)).after hlead'
      hs.builder hexec

/-- The tests lead to the clauses up to the first default clause: a default clause is entered from
wherever the tests have come to. -/
def Entered : List (Clause × BlockId) → BlockId → Prop
  | [], _ => False
  | (clause, entry) :: rest, k => k = entry ∨ (¬ clause.isDefault = true ∧ Entered rest k)

/-- What the tests lead to if nothing was reported. -/
def AsksAll (g g' : Draft ctx) (pairs : List (Clause × BlockId)) : Prop :=
  g'.errors = g.errors → ∀ ks, (∀ p ∈ pairs, p.2 ∈ ks) → (∀ k ∈ ks, k.index < g.size) →
    Draft.Ways ks g g' (Entered pairs) (∀ p ∈ pairs, ¬ p.1.isDefault = true)

theorem asksAll_nil : AsksAll g g [] := fun _ _ _ hks =>
  ((Draft.Falls.refl g).ways hks).congr (fun _ => Iff.rfl) (by simp)

theorem asksAll_default {clause : Clause} {entry : BlockId} (hdefault : clause.isDefault = true)
    (hreopens : g.Reopens g₁) {h : g₁.Closes g₁.cur (.br entry)}
    (hs : (g₁.close g₁.cur _ h).Le g') (hrest : AsksAll (g₁.close g₁.cur _ h) g' pairs) :
    AsksAll g g' ((clause, entry) :: pairs) := by
  intro herr ks hmem hks
  have hks₁ : ∀ k ∈ ks, k.index < g₁.size :=
    fun k hk => Nat.lt_of_lt_of_le (hks k hk) hreopens.size
  have hclose : g₁.Le (g₁.close g₁.cur _ h) := Draft.Since.close.toLe
  have hways := (hreopens.falls.ways hks).trans
    ((Draft.ways_br (h := h) (hmem (clause, entry) (by simp)) hks₁).trans
      (hrest ((hreopens.toLe.trans hclose).errors_right hs herr) ks
        (fun p hp => hmem p (by simp [hp]))
        fun k hk => Nat.lt_of_lt_of_le (hks₁ k hk) hclose.size))
  exact hways.congr (fun j => by simp [Entered, hdefault]) (by simp [hdefault])

theorem asksAll_cons {clause : Clause} {entry : BlockId} (hdefault : ¬ clause.isDefault = true)
    (hs : g.Le g₁) (hs' : g₁.Le g') {p : Prop} (hp : p) (hasks : Asks g g₁ entry p)
    (hrest : AsksAll g₁ g' pairs) : AsksAll g g' ((clause, entry) :: pairs) := by
  intro herr ks hmem hks
  have hways := (hasks (hs.errors_left hs' herr) ks (hmem (clause, entry) (by simp)) hks).trans
    (hrest (hs.errors_right hs' herr) ks (fun p hp => hmem p (by simp [hp]))
      fun k hk => Nat.lt_of_lt_of_le (hks k hk) hs.size)
  exact hways.congr (fun j => by simp [Entered, hdefault, hp]) (by simp [hdefault])

theorem testClauses_does (tag : Option Value) (pairs : List (Clause × BlockId))
    (g : Draft ctx) (htag : ∀ v ∈ tag, g.Sees v) (hk : ∀ p ∈ pairs, g.Target p.2) :
    Does (Lower.testClauses ctx tag pairs) g fun _ g' =>
      Selects g g' tag pairs ∧ AsksAll g g' pairs := by
  induction pairs generalizing g with
  | nil => exact .pure ⟨selects_nil, asksAll_nil⟩
  | cons p rest ih =>
    obtain ⟨clause, entry⟩ := p
    have hrest : ∀ g₁ : Draft ctx, g.Le g₁ → (∀ v ∈ tag, g₁.Sees v) →
        Does (Lower.testClauses ctx tag rest) g₁ fun _ g' =>
          Selects g₁ g' tag rest ∧ AsksAll g₁ g' rest :=
      fun g₁ hs htag₁ => ih g₁ htag₁ fun p hp => (hk p (by simp [hp])).of_le hs
    rw [Lower.testClauses.eq_def]
    dsimp only
    by_cases hdefault : clause.isDefault = true
    · rw [if_pos hdefault]
      obtain ⟨g₁, hreopens, hrun⟩ := g.run_ensureOpen_reopens
      have hcloses : g₁.Closes g₁.cur (.br entry) :=
        .br hreopens.opened ((hk (clause, entry) (by simp)).of_le hreopens.toLe)
      have hclose : g₁.Step (g₁.close g₁.cur _ hcloses) := .closeCur
      refine Does.next hrun hreopens.toStep (Does.next (g₁.run_terminate hcloses) hclose ?_)
      have hle := hreopens.toLe.trans hclose.toLe
      refine (hrest _ hle fun v hv => (hreopens.sees v (htag v hv)).of_le hclose.toLe rfl).mono ?_
      rintro _ g' hstep ⟨_, hall⟩
      refine ⟨selects_default hdefault (fun hopen => ?_) (hle.trans hstep.toLe),
        asksAll_default hdefault hreopens hstep.toLe hall⟩
      obtain rfl := hreopens.same hopen
      exact (Draft.seals_close (h := hcloses)).mono hstep.builder
    · rw [if_neg hdefault]
      have hne : clause.values ≠ [] := by simpa [Clause.isDefault] using hdefault
      cases tag with
      | some v =>
        refine (testValues_does clause.values (hk (clause, entry) (by simp)) (htag v rfl)).bind ?_
        rintro _ g₁ hstep ⟨hsees, hasks, htests⟩
        have htag₁ : ∀ w ∈ some v, g₁.Sees w := fun w hw => hsees w (htag w hw)
        refine (hrest g₁ hstep.toLe htag₁).mono ?_
        rintro _ g' hstep' ⟨hselects, hall⟩
        exact ⟨selects_cons hdefault htag hstep.toLe hstep'.toLe htests hselects,
          asksAll_cons hdefault hstep.toLe hstep'.toLe hne hasks hall⟩
      | none =>
        refine (testConditions_does clause.values hne (hk (clause, entry) (by simp))).bind ?_
        rintro _ g₁ hstep ⟨hasks, htests⟩
        have htag₁ : ∀ w ∈ none, g₁.Sees w := by simp
        refine (hrest g₁ hstep.toLe htag₁).mono ?_
        rintro _ g' hstep' ⟨hselects, hall⟩
        exact ⟨selects_cons hdefault htag hstep.toLe hstep'.toLe htests hselects,
          asksAll_cons hdefault hstep.toLe hstep'.toLe trivial hasks hall⟩

/-! ## The code of a switch -/

/-- Control may come to a body that it falls through: that of a clause up to the first default
clause. -/
def AnyFalls (p : Clause → Prop) : List Clause → Prop
  | [] => False
  | clause :: rest => p clause ∨ (¬ clause.isDefault = true ∧ AnyFalls p rest)

theorem anyFalls_iff {p : Clause → Prop} (hnodup : (pairs.map Prod.snd).Nodup) :
    (∃ c ∈ pairs, p c.1 ∧ Entered pairs c.2) ↔ AnyFalls p (pairs.map Prod.fst) := by
  induction pairs with
  | nil => simp [AnyFalls]
  | cons pair rest ih =>
    obtain ⟨clause, entry⟩ := pair
    rw [List.map_cons, List.nodup_cons] at hnodup
    rw [List.map_cons, AnyFalls, ← ih hnodup.2]
    constructor
    · rintro ⟨c, hc, hp, hentered⟩
      rcases List.mem_cons.mp hc with rfl | hc
      · exact .inl hp
      · rcases hentered with heq | ⟨hdefault, hentered⟩
        · have hmem : c.2 ∈ rest.map Prod.snd := List.mem_map_of_mem hc
          rw [heq] at hmem
          exact absurd hmem hnodup.1
        · exact .inr ⟨hdefault, c, hc, hp, hentered⟩
    · rintro (hp | ⟨hdefault, c, hc, hp, hentered⟩)
      · exact ⟨_, List.mem_cons_self, hp, .inl rfl⟩
      · exact ⟨c, List.mem_cons_of_mem _ hc, hp, .inr ⟨hdefault, hentered⟩⟩

/-- Control gets from the first test to the end of the switch past all tests, or through a test and
the body that is entered from there. -/
theorem passes_switch {b : Builder} {p : Clause → Prop} {q : Prop} {entries ends : List BlockId}
    {last : Option BlockId} {new : BlockId → BlockId → Prop}
    (htests : Draft.WaysBy entries g₁ g₂ new (Entered pairs) q) (hkeeps : Draft.Keeps g₁ g₂ b)
    (hopen₁ : g₁.Open g₁.cur) (hend : g₂.IsEnd last) (hthrough : Through b pairs ends p)
    (hpos : ∀ c ∈ pairs, 0 < c.2.index) (hentry : ∀ c ∈ pairs, ∀ i, b.Edge i c.2 ↔ new i c.2)
    (hopen : f.Open f.cur) (hpos' : 0 < f.cur.index)
    (hfollow : ∀ i, b.Edge i f.cur ↔ i ∈ last.toList ++ ends) :
    Draft.Passes b g₁.cur f (q ∨ ∃ c ∈ pairs, p c.1 ∧ Entered pairs c.2) := by
  refine .join hopen hpos' hfollow (fun i n hi hn => ?_) fun hp n hn => ?_
  · rcases List.mem_append.mp hi with hi | hi
    · obtain ⟨hopen₂, rfl⟩ := hend.mem_iff.mp hi
      obtain ⟨hon, _, hn₁⟩ := htests.back b hkeeps n ⟨hopen₂, hn⟩
      exact ⟨.inl hon, hn₁⟩
    · obtain ⟨c, hc, hp, hn⟩ := hthrough.back i hi n hn
      obtain ⟨k, j, hk, hj, hedge⟩ := hn.last (hpos c hc)
      obtain ⟨hentered, _, hn₁⟩ := htests.leaves b hkeeps j c.2 k ((hentry c hc j).mp hedge) hj
      exact ⟨.inr ⟨c, hc, hp, hentered⟩, hn₁.mono (Nat.le_of_lt hk)⟩
  · rcases hp with hon | ⟨c, hc, hp, hentered⟩
    · obtain ⟨k, hopen₂, hk⟩ := htests.onward b hkeeps hon n ⟨hopen₁, hn⟩
      exact ⟨g₂.cur, k, List.mem_append_left _ (hend.cur_mem hopen₂), hk⟩
    · obtain ⟨j, k, hj, hk⟩ := htests.enters b hkeeps c.2 hentered n ⟨hopen₁, hn⟩
      obtain ⟨i, hi, k', hk'⟩ :=
        hthrough.onward c hc hp (k + 1) (.edge hk ((hentry c hc j).mpr hj))
      exact ⟨i, k', List.mem_append_right _ hi, hk'⟩

/-- Control leaves a switch where no clause is taken, if there is no default clause, and where it
falls through the body of a clause that it may come to. -/
theorem falls_switch {p : Clause → Prop} {entries ends : List BlockId} {last : Option BlockId}
    {g₃ : Draft ctx} {clauses : List Clause} (hopen : g.Open g.cur) (hcur : g₁.cur = g.cur)
    (hmade : Draft.Wires g₁.size g g₁ Draft.noEdge)
    (hnew : ∀ k ∈ entries, g.size ≤ k.index ∧ k.index < g₁.size) (hnodup : entries.Nodup)
    (hlength : entries.length = clauses.length)
    (hopen₁ : g₁.Open g₁.cur) (htests : Draft.Ways entries g₁ g₂ (Entered (clauses.zip entries))
      (∀ c ∈ clauses.zip entries, ¬ c.1.isDefault = true)) (hend : g₂.IsEnd last)
    (hbodies : Draft.Wires g₂.size g₂ g₃ Draft.noEdge)
    (hthrough : ∀ b, Draft.Keeps g₂ g₃ b → Through b (clauses.zip entries) ends p)
    (hjoin : ∀ m, Draft.Wires m g₃ f fun i j => i ∈ last.toList ++ ends ∧ j = f.cur)
    (hfollow : f.cur.index = g₃.size) (hopen' : f.Open f.cur) :
    Draft.Falls g f ((∀ c ∈ clauses, ¬ c.isDefault = true) ∨ AnyFalls p clauses) := by
  have hzip : (clauses.zip entries).map Prod.fst = clauses :=
    List.map_fst_zip (Nat.le_of_eq hlength.symm)
  have hzip' : (clauses.zip entries).map Prod.snd = entries :=
    List.map_snd_zip (Nat.le_of_eq hlength)
  have hnone : (∀ c ∈ clauses.zip entries, ¬ c.1.isDefault = true) ↔
      ∀ c ∈ clauses, ¬ c.isDefault = true := by
    conv_rhs => rw [← hzip]
    simp only [List.forall_mem_map]
  have hany := anyFalls_iff (p := p) (hzip'.symm ▸ hnodup)
  rw [hzip] at hany
  rw [← hany, ← hnone]
  obtain ⟨new, htests⟩ := htests
  have hsize₂ : g₁.size ≤ g₂.size := htests.size
  have hafter := hbodies.noEdge_trans (hjoin g₂.size)
  have hall := hmade.noEdge_trans (htests.toWires.trans (hafter.less hsize₂))
  have hold : g.size ≤ g₁.size := hmade.size
  have hlast : g₂.size ≤ f.cur.index := hfollow ▸ hbodies.size
  have hlast' : g.size ≤ f.cur.index := Nat.le_trans hold (Nat.le_trans hsize₂ hlast)
  refine .of_passes ((hall.less hold).congr fun i j hj => ⟨?_, fun hno => hno.elim⟩) hopen
    fun b hb => ?_
  · rintro (hij | ⟨_, rfl⟩)
    · exact absurd hj (Nat.not_lt.mpr (hnew j (htests.targets i j hij)).1)
    · exact absurd hj (Nat.not_lt.mpr hlast')
  · have hkeeps₁ : Draft.Keeps g₁ g₂ b :=
      hb.part hold hafter fun i j hij => .inr (hij.2 ▸ hlast)
    have hkeeps₂ : Draft.Keeps g₂ g₃ b :=
      hb.part (Nat.le_trans hold hsize₂) (hjoin g₃.size) fun i j hij =>
        .inr (hij.2 ▸ Nat.le_of_eq hfollow.symm)
    rw [← hcur]
    refine passes_switch htests hkeeps₁ hopen₁ hend (hthrough b hkeeps₂)
      (fun c hc => g.pos_of_new (hnew c.2 (List.of_mem_zip hc).2).1) (fun c hc i => ?_) hopen'
      (g.pos_of_new hlast') fun i => ?_
    · obtain ⟨hlo, hhi⟩ := hnew c.2 (List.of_mem_zip hc).2
      have hne : c.2 ≠ f.cur := by
        intro heq
        rw [heq] at hhi
        exact absurd (Nat.le_trans hsize₂ hlast) (Nat.not_le.mpr hhi)
      rw [hb i c.2 hlo (Nat.lt_of_lt_of_le hhi (Nat.le_trans hsize₂ hafter.size)),
        hall.edge_new c.2 hlo hhi]
      simp [hne]
    · rw [hb i f.cur hlast' f.inRange,
        (hjoin (f.cur.index + 1)).edge_new f.cur (Nat.le_of_eq hfollow.symm) (Nat.lt_succ_self _)]
      simp

/-- The tests select a body, and its end leads to where control goes on after the switch. -/
theorem Bodies.runs {p : Clause → Prop} {clauses : List Clause} {entries : List BlockId}
    {last : Option BlockId} {lasts : List (Option BlockId)} {g₃ : Draft ctx}
    (hselects : Selects g₁ g₂ tag (clauses.zip entries))
    (h : Bodies g₂ g₃ clauses entries lasts p) (hlength : entries.length = clauses.length)
    (hend : g₂.IsEnd last) (hnew : ∀ i ∈ last.toList, i ∉ entries)
    (hle₃ : g₃.Le f) (hstart : f.Starts)
    (hseals : ∀ i ∈ Draft.endsOf (last :: lasts), Draft.Seals g₃ f i (.br f.cur))
    (herr : f.errors = g₁.errors) (hopen : g₁.Open g₁.cur) {V : Type} {s : Scene ctx V}
    (hc : s.Covers f) (fuel : Nat) {env : Locals V} (calls : List (Call V)) (hfits : s.Fits env)
    {x : Option (Datum V)} (hx : s.HoldsTag env tag x) :
    s.Runs fuel g₁ f env calls (Stmt.execClauses s.world s.names s.ret fuel x clauses) := by
  have htests : g₂.Open g₂.cur → Draft.Seals g₂ f g₂.cur (.br f.cur) := by
    intro hopen₂
    have hmem := hend.cur_mem hopen₂
    exact (hseals g₂.cur (by simp [hmem])).back (h.kept g₂.cur hopen₂ (hnew g₂.cur hmem))
  have harms := h.arms f hle₃ hstart
    fun i hi => hseals i (by rw [Draft.endsOf_cons]; exact List.mem_append_right _ hi)
  have hruns := hselects f (h.le.trans hle₃) hstart htests harms herr hopen s hc fuel env calls
    hfits x hx
  rwa [List.map_fst_zip (Nat.le_of_eq hlength.symm)] at hruns

def select (ctx : FnContext) (tag : Option Value) (clauses : List Clause) : Lower Unit := do
  let entries ← Lower.createEntries clauses
  Lower.testClauses ctx tag (clauses.zip entries)
  let testsEnd ← Lower.openEnd
  let ends ← Stmt.lowerClauses ctx clauses entries
  let follow ← Lower.build Build.createBlock
  Lower.joinAt follow (testsEnd :: ends)
  Lower.build (Build.switchTo follow)

theorem select_does {clauses : List Clause} {p : Clause → Prop} (hopen : g.Open g.cur)
    (htag : ∀ v ∈ tag, g.Sees v)
    (hsound : ∀ c ∈ clauses, Sound ctx (Stmt.lowerAll ctx c.body) (fun s fuel =>
      Stmt.execAll s.world s.names s.ret fuel c.body) (p c)) :
    Does (select ctx tag clauses) g fun _ f => f.errors = g.errors →
      Draft.Falls g f ((∀ c ∈ clauses, ¬ c.isDefault = true) ∨ AnyFalls p clauses) ∧
        ∀ ⦃V : Type⦄ (s : Scene ctx V), s.Covers f → ∀ fuel env calls, s.Fits env →
          ∀ x, s.HoldsTag env tag x → s.Runs fuel g f env calls
            (Stmt.execClauses s.world s.names s.ret fuel x clauses) := by
  have hstart : Draft.Prepared g g (some g.cur) [] :=
    ⟨.start (.of_open hopen), .of_open hopen, rfl, rfl, fun _ => .refl g, by simp⟩
  obtain ⟨entries, g₁, hrun₁, hlength, hprepared⟩ := run_createEntries clauses hstart
  rw [List.append_nil] at hprepared
  have hcur₁ : g₁.cur = g.cur := hprepared.cur
  have hentry : ∀ p ∈ clauses.zip entries, p.1 ∈ clauses ∧ p.2 ∈ entries :=
    fun p hp => List.of_mem_zip hp
  rw [select]
  refine Spec.next hrun₁ ?_
  refine Spec.bind (testClauses_does tag (clauses.zip entries) g₁
    (fun v hv => (htag v hv).of_le hprepared.toLe hcur₁)
    fun p hp => (hprepared.blank p.2 (hentry p hp).2).toTarget) ?_ fun _ _ _ => trivial
  rintro _ g₂ ⟨hstep₂, hselects, hall⟩
  obtain ⟨last, hend, hrun₂⟩ := g₂.run_openEnd_isEnd
  have hopens₂ : Draft.Opens g g₂ (last.toList ++ []) entries :=
    hprepared.toOpens.step hprepared.isEnd hstep₂ hend
  refine Spec.next hrun₂ ?_
  refine Spec.bind (lowerClauses_spec clauses entries hlength hopens₂ hsound) ?_
    fun _ _ _ => trivial
  rintro lasts g₃ ⟨hopens₃, hbodies⟩
  have hopens : Draft.Opens g g₃ (Draft.endsOf (last :: lasts)) [] := by
    refine hopens₃.perm ?_ (.refl _)
    rw [Draft.endsOf_cons, List.append_nil]
    exact List.perm_append_comm
  obtain ⟨f, hrun₃, hopens₄, hjoined⟩ :=
    Draft.run_joinAt (last :: lasts) hopens.addTarget g₃.blank_addTarget.toTarget
  have hfollow := hopens₄.blank g₃.next (by simp)
  have hentered := hopens₄.enter (.refl _) hfollow.lt
  refine Spec.next g₃.run_createTarget (Spec.next hrun₃ ?_)
  have hle₃ : g₃.Le (f.moveTo g₃.next hfollow.lt) := (Draft.since_addTarget g₃.cur g₃).toLe.trans
    (hjoined.toLe.trans (Draft.Since.moveTo f.cur).toLe)
  have hopen₁ : g₁.Open g₁.cur := hprepared.open_cur_iff.mpr hopen
  refine Spec.of_run (f.run_switchTo hfollow.lt)
    ⟨hentered.toStep (.of_open hfollow.starts.opened), fun herr => ⟨?_, ?_⟩⟩
  · have hgb : g.Le g₂ := hprepared.toLe.trans hstep₂.toLe
    have htests := hall (hprepared.toLe.errors_between hstep₂.toLe (hbodies.le.trans hle₃) herr)
      entries (fun p hp => (hentry p hp).2) fun k hk => (hprepared.blank k hk).lt
    have herr₂ := hgb.errors_between hbodies.le hle₃ herr
    exact falls_switch hopen hcur₁ (hprepared.wires _)
      (fun k hk => ⟨hprepared.new k hk, (hprepared.blank k hk).lt⟩)
      (List.nodup_append.mp hprepared.nodup).2.1 hlength hopen₁ htests hend (hbodies.wires herr₂)
      (hbodies.through herr₂)
      (fun m => Draft.Wires.addBlock.noEdge_trans ((hjoined.wires m).trans_noEdge .moveTo)) rfl
      hfollow.starts.opened
  · intro V s hc fuel env calls hfits x hx
    have hnew : ∀ i ∈ last.toList, i ∉ entries := fun i hi hin =>
      (List.nodup_append.mp hopens₂.nodup).2.2 i (List.mem_append_left _ hi) i hin rfl
    have hseals : ∀ i ∈ Draft.endsOf (last :: lasts),
        Draft.Seals g₃ (f.moveTo g₃.next hfollow.lt) i (.br g₃.next) :=
      fun i hi => hjoined.seals_back hi (hopens.mem_open (by simpa using hi))
    have herr₁ := hprepared.toLe.errors_right (hstep₂.toLe.trans (hbodies.le.trans hle₃)) herr
    have hruns := hbodies.runs hselects hlength hend hnew hle₃ hfollow.starts hseals herr₁
      hopen₁ hc fuel calls hfits hx
    exact hruns.after (Scene.Leads.stay hcur₁ hprepared.same) hprepared.builder rfl

theorem switch_none_does {clauses : List Clause} {p : Clause → Prop} (g : Draft ctx)
    (hsound : ∀ c ∈ clauses, Sound ctx (Stmt.lowerAll ctx c.body) (fun s fuel =>
      Stmt.execAll s.world s.names s.ret fuel c.body) (p c)) :
    Does (do
      let _ ← Lower.build Build.ensureOpen
      select ctx none clauses) g fun _ f => Renders g f (fun s fuel =>
        Stmt.execClauses s.world s.names s.ret fuel none clauses)
        ((∀ c ∈ clauses, ¬ c.isDefault = true) ∨ AnyFalls p clauses) := by
  refine Does.ensureOpen fun g₁ hreopens => ?_
  refine (select_does hreopens.opened (by simp) hsound).mono ?_
  intro _ f _ hruns
  refine ⟨fun herr _ V s hc fuel env calls hfits => ?_, fun herr => (hruns herr).1⟩
  exact (hruns herr).2 s hc fuel env calls hfits none trivial

/-- The tag is computed once, before the tests. -/
theorem switch_some_does {clauses : List Clause} {p : Clause → Prop} (tag : Expr) (g : Draft ctx)
    (hsound : ∀ c ∈ clauses, Sound ctx (Stmt.lowerAll ctx c.body) (fun s fuel =>
      Stmt.execAll s.world s.names s.ret fuel c.body) (p c)) :
    Does (do
      let _ ← Lower.build Build.ensureOpen
      let value ← Lower.recover (tag.lower ctx)
      let tag ← pure (value.map some)
      match tag with
      | none => return ()
      | some tag => select ctx tag clauses) g fun _ f => Renders g f (fun s fuel => do
        let x ← tag.eval s.world s.names
        Stmt.execClauses s.world s.names s.ret fuel (some x) clauses)
        ((∀ c ∈ clauses, ¬ c.isDefault = true) ∨ AnyFalls p clauses) := by
  refine Does.ensureOpen fun g₁ hreopens => ?_
  refine (Does.of_evals (Evals.recover (Expr.lower_evals tag g₁ hreopens.opened))).bind ?_
  rintro r g₂ - ⟨hstep, hr⟩
  cases r with
  | none => exact .pure (.of_errors hr)
  | some v =>
    change Does (select ctx (some v) clauses) g₂ _
    obtain ⟨hsees, hrealizes⟩ := hr
    have htag : ∀ w ∈ some v, g₂.Sees w := by simpa using hsees
    refine (select_does hstep.opened htag hsound).mono ?_
    intro _ f hstep' hruns
    refine ⟨fun herr _ V s hc fuel env calls hfits => ?_, fun herr => ?_⟩
    rotate_left
    · have hfalls := (hruns (hstep.toLe.errors_right hstep'.toLe herr)).1
      exact (hstep.falls.trans hfalls).congr (and_iff_right trivial)
    have hc₂ : s.Covers g₂ := hc.of_since hstep'.toSince
    obtain ⟨x, calls₁, hx, env₁, hlead, hxv⟩ := hrealizes s hc₂ env calls hfits
    have hfits₁ := hlead.fits (hc₂.of_since hstep.toSince) hfits
    have herr₂ := hstep.toLe.errors_right hstep'.toLe herr
    refine ((hruns herr₂).2 s hc fuel env₁ calls₁ hfits₁ (some x) hxv).after hlead hstep.builder ?_
    simp [hx]

end Midend
