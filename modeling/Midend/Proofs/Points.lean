import Midend.Proofs.Passes

/-!
# Midend.Proofs.Points

The types that a unit has at each point of the run that lowers it (`SourceUnit.Reaches`): while its
declared types get their slots, while these are given their bodies, and from then on, where types
are only added at the end. The run may be ended by an abort anywhere; the types it ends with are
among these (`SourceUnit.reaches_last`).

A name and an anonymous body that are found at a point are found at the end of the run, under the
same number (`SourceUnit.Reaches.keeps_last`). Until the types are resolved, only declared names are
found (`SourceUnit.Reaches.cases`), and no error is about two types (`LowerError.Quiet`).
-/

namespace Midend

open Ir

namespace Ir.TypeStore

theorem Keeps.push {s : TypeStore} (slot : Slot) : s.Keeps (s.push slot).2 :=
  ⟨fun _ _ h => find?_push_of_some h, fun _ _ h => find?_push_of_some h⟩

theorem Keeps.declare (s : TypeStore) (name : String) (shape : Shape) :
    s.Keeps (s.declare name shape).2 := by
  rw [TypeStore.declare]
  split
  · exact .refl s
  · exact .push _

theorem Keeps.define {s t : TypeStore} {id : TypeId} {body : Ty} (h : s.define id body = .ok t) :
    s.Keeps t := by
  rw [TypeStore.define] at h
  split at h
  · cases h
  · rename_i slot hslot
    obtain ⟨name, old⟩ := slot
    dsimp only at h
    split at h
    · cases name with
      | none => simp at h
      | some name =>
        simp only [reduceCtorEq, if_false] at h
        split at h
        · cases h
          exact keeps_filled hslot
        · cases h
    · cases h

end Ir.TypeStore

/-- An error that says nothing of two types. -/
def LowerError.Quiet : LowerError → Prop
  | .typeMismatch _ _ _ => False
  | _ => True

theorem LowerError.Quiet.apart {s : TypeStore} {e : LowerError} (h : e.Quiet) : e.Apart s := by
  cases e <;> trivial

/-- From `s` to `t` all stays found that was found, and errors of the kind `Q` were reported. -/
structure Session.Keeps (Q : LowerError → Prop) (s t : Session) : Prop where
  types : s.types.Keeps t.types
  errors : ∃ new, t.errors = s.errors ++ new ∧ ∀ e ∈ new, Q e

namespace Session.Keeps

variable {Q : LowerError → Prop} {s t u : Session}

theorem of_types {types : TypeStore} (h : s.types.Keeps types) : s.Keeps Q ⟨types, s.errors⟩ :=
  ⟨h, [], (List.append_nil _).symm, by simp⟩

theorem refl (s : Session) : s.Keeps Q s := of_types (.refl s.types)

theorem trans (h : s.Keeps Q t) (h' : t.Keeps Q u) : s.Keeps Q u := by
  obtain ⟨new, hnew, hq⟩ := h.errors
  obtain ⟨new', hnew', hq'⟩ := h'.errors
  refine ⟨h.types.trans h'.types, new ++ new', ?_, fun e he => ?_⟩
  · rw [hnew', hnew, List.append_assoc]
  · exact (List.mem_append.mp he).elim (hq e) (hq' e)

end Session.Keeps

namespace Pass

/-- Wherever the step begins and however it ends, what was found before is found after it, and its
errors are of a kind. -/
def Keeping {α : Type} (Q : LowerError → Prop) (m : Pass α) : Prop :=
  ∀ s : Session, s.Keeps Q (runOn m s).2

namespace Keeping

variable {α β : Type} {Q Q' : LowerError → Prop}

theorem mono {m : Pass α} (h : Keeping Q m) (hq : ∀ e, Q e → Q' e) : Keeping Q' m := fun s => by
  obtain ⟨htypes, new, hnew, hall⟩ := h s
  exact ⟨htypes, new, hnew, fun e he => hq e (hall e he)⟩

theorem pure (a : α) : Keeping Q (Pure.pure a) := fun s => .refl s

theorem throw (f : Fault) : Keeping Q (MonadExcept.throw f : Pass α) := fun s => .refl s

theorem report {e : LowerError} (he : Q e) : Keeping Q (Pass.report e) := fun s =>
  ⟨.refl s.types, [e], rfl, by simpa using he⟩

theorem bind {m : Pass α} {f : α → Pass β} (hm : Keeping Q m) (hf : ∀ a, Keeping Q (f a)) :
    Keeping Q (m >>= f) := by
  intro s
  obtain ⟨r, s₁, hrun⟩ := exists_runOn m s
  have hfirst := hm s
  rw [hrun] at hfirst
  rw [runOn_bind, hrun]
  cases r with
  | ok a => exact hfirst.trans (hf a s₁)
  | error e => exact hfirst

theorem get {f : Session → Pass α} (hf : ∀ s : Session, s.Keeps Q (runOn (f s) s).2) :
    Keeping Q (do f (← MonadState.get)) := fun s => hf s

theorem of_accruing {wordBits : Nat} {P : TypeStore → LowerError → Prop} {m : Pass α}
    (h : Accruing wordBits P m)
    (hq : ∀ r e, P r e → Q e) : Keeping Q m := fun s => by
  obtain ⟨⟨hle, -, new, hnew, hall⟩, -⟩ := h s _ _ rfl
  refine ⟨.of_le hle, new, hnew, fun e he => ?_⟩
  obtain ⟨r, -, hp⟩ := hall e he
  exact hq r e hp

end Keeping

theorem define_keeping {Q : LowerError → Prop} (id : TypeId) (body : Ty) :
    Keeping Q (define id body) := by
  refine .get fun s => ?_
  cases h : s.types.define id body with
  | ok types => exact .of_types (.define h)
  | error why => exact .refl s

theorem scaffoldTypes_keeping (declared : Declared) (decls : List (TypeDecl × Span)) :
    Keeping LowerError.Quiet (scaffoldTypes declared decls) := by
  induction decls with
  | nil => exact .pure []
  | cons d rest ih =>
    obtain ⟨decl, span⟩ := d
    rw [scaffoldTypes]
    split
    · exact .throw _
    · exact (Keeping.report trivial).bind fun _ => ih
    · rename_i shape _
      refine .get fun s => ?_
      obtain ⟨id?, types, hdeclare⟩ : ∃ id? types, s.types.declare decl.name shape = (id?, types) :=
        ⟨_, _, rfl⟩
      have hkeeps := TypeStore.Keeps.declare s.types decl.name shape
      rw [hdeclare] at hkeeps ⊢
      have hdeclared : s.Keeps LowerError.Quiet ⟨types, s.errors⟩ := .of_types hkeeps
      cases id? with
      | some id => exact hdeclared.trans ((ih.bind fun _ => .pure _) ⟨types, s.errors⟩)
      | none =>
        exact hdeclared.trans (((Keeping.report trivial).bind fun _ => ih) ⟨types, s.errors⟩)

end Pass

namespace Typing

theorem bodyOf_accrues (wordBits : Nat) (declared : Declared) (decl : TypeDecl) (span : Span) :
    Accruing wordBits (fun _ e => e.Quiet) (bodyOf wordBits declared decl span) := by
  have hbasic (kind : BasicKind) (at_ : Span) : Accruing wordBits (fun _ e => e.Quiet) (do
      let id ← Typing.basic wordBits kind at_
      Typing.body id) := (basic_accrues wordBits kind at_).bind fun _ => .ask
  have hquiet {e : LowerError} (h : e.OfLookup) : e.Quiet := by
    cases e <;> trivial
  rw [bodyOf]
  split
  · exact .report fun _ => trivial
  · split
    · exact hbasic _ _
    · exact .report fun _ => trivial
  · exact ((ofExpr_accrues wordBits _).mono fun _ _ => hquiet).bind fun _ => .pure _
  · exact ((ofFields_accrues wordBits _).mono fun _ _ => hquiet).bind fun _ => .pure _
  · exact ((ofExpr_accrues wordBits _).mono fun _ _ => hquiet).bind fun _ => .ask

end Typing

namespace Pass

theorem populateTypes_keeping (wordBits : Nat) (declared : Declared)
    (todo : List (TypeId × TypeDecl × Span)) :
    Keeping LowerError.Quiet (populateTypes wordBits declared todo) := by
  induction todo with
  | nil => exact .pure ()
  | cons d rest ih =>
    obtain ⟨id, decl, span⟩ := d
    rw [populateTypes]
    have hbody := recover_accrues (Typing.bodyOf_accrues wordBits declared decl span)
    refine (Keeping.of_accruing hbody fun _ _ h => h).bind fun r => ?_
    cases r with
    | some body => exact (define_keeping id body).bind fun _ => ih
    | none => exact (Keeping.pure ()).bind fun _ => ih

/-! ## First declarations, then the others -/

theorem scaffoldTypes_append (declared : Declared) (decls more : List (TypeDecl × Span)) :
    scaffoldTypes declared (decls ++ more) = do
      let slots ← scaffoldTypes declared decls
      let others ← scaffoldTypes declared more
      return slots ++ others := by
  induction decls with
  | nil => simp [scaffoldTypes]
  | cons d rest ih =>
    obtain ⟨decl, span⟩ := d
    rw [List.cons_append, scaffoldTypes, scaffoldTypes]
    cases hshape : shapeOf declared decl.type with
    | error u => rfl
    | ok shape? =>
      cases shape? with
      | none => simp [ih]
      | some shape =>
        simp only [bind_assoc, ih]
        congr 1
        funext s
        congr 1
        funext u
        split <;> simp

theorem populateTypes_append (wordBits : Nat) (declared : Declared)
    (todo more : List (TypeId × TypeDecl × Span)) : populateTypes wordBits declared (todo ++ more) =
      (do
        populateTypes wordBits declared todo
        populateTypes wordBits declared more) := by
  induction todo with
  | nil => rfl
  | cons d rest ih =>
    obtain ⟨id, decl, span⟩ := d
    rw [List.cons_append, populateTypes, populateTypes, ih]
    simp only [bind_assoc]
    congr 1
    funext r
    cases r <;> simp

theorem scaffoldTypes_singleton_error {declared : Declared} {d : TypeDecl × Span} {s s' : Session}
    {f : Fault} (h : runOn (scaffoldTypes declared [d]) s = (.error f, s')) : s' = s := by
  obtain ⟨decl, span⟩ := d
  rw [scaffoldTypes] at h
  split at h
  · cases h
    rfl
  · cases h
  · rename_i shape _
    rw [runOn_bind_ok (runOn_get s)] at h
    obtain ⟨id?, types, hdeclare⟩ : ∃ id? types, s.types.declare decl.name shape = (id?, types) :=
      ⟨_, _, rfl⟩
    rw [hdeclare] at h
    cases id? <;> cases h

/-- Where a declaration ends the run, all before it have their slots. -/
theorem scaffoldTypes_error {declared : Declared} {decls : List (TypeDecl × Span)} {s s' : Session}
    {f : Fault} (h : runOn (scaffoldTypes declared decls) s = (.error f, s')) :
    ∃ n slots, runOn (scaffoldTypes declared (decls.take n)) s = (.ok slots, s') := by
  induction decls generalizing s with
  | nil => cases h
  | cons d rest ih =>
    have hsplit (more : List (TypeDecl × Span)) := scaffoldTypes_append declared [d] more
    simp only [List.singleton_append] at hsplit
    obtain ⟨r, s₁, hfirst⟩ := exists_runOn (scaffoldTypes declared [d]) s
    cases r with
    | error e =>
      rw [hsplit, runOn_bind_error hfirst] at h
      cases h
      obtain rfl := scaffoldTypes_singleton_error hfirst
      exact ⟨0, [], rfl⟩
    | ok slots =>
      rw [hsplit, runOn_bind_ok hfirst, runOn_bind] at h
      obtain ⟨r, s₂, hrest⟩ := exists_runOn (scaffoldTypes declared rest) s₁
      rw [hrest] at h
      cases r with
      | ok others => cases h
      | error e =>
        cases h
        obtain ⟨n, others, hn⟩ := ih hrest
        refine ⟨n + 1, slots ++ others, ?_⟩
        rw [List.take_succ_cons, hsplit, runOn_bind_ok hfirst, runOn_bind_ok hn]
        rfl

theorem define_error {id : TypeId} {body : Ty} {s s' : Session} {f : Fault}
    (h : runOn (define id body) s = (.error f, s')) : s' = s := by
  rw [define, runOn_bind_ok (runOn_get s)] at h
  cases hdefine : s.types.define id body <;> rw [hdefine] at h <;> cases h
  rfl

theorem populateTypes_singleton_error {wordBits : Nat} {declared : Declared} {id : TypeId}
    {decl : TypeDecl} {span : Span} {s s' : Session} {f : Fault}
    (h : runOn (populateTypes wordBits declared [(id, decl, span)]) s = (.error f, s')) :
    s'.types = (runOn (bodyOf wordBits declared decl span) s.types).2 := by
  obtain ⟨r, types, hbody⟩ := exists_runOn (bodyOf wordBits declared decl span) s.types
  have hrecover := runOn_recover (bodyOf wordBits declared decl span) s
  rw [hbody] at hrecover ⊢
  rw [populateTypes, runOn_bind, hrecover] at h
  cases r with
  | ok body =>
    dsimp only at h
    obtain ⟨r, s₁, hdefine⟩ := exists_runOn (define id body) { s with types := types }
    rw [runOn_bind, hdefine] at h
    cases r with
    | ok => cases h
    | error e =>
      cases h
      rw [define_error hdefine]
  | error e => cases e <;> cases h <;> rfl

/-- Where the run ends while a body is being found, all before it have been given theirs. -/
theorem populateTypes_error {wordBits : Nat} {declared : Declared}
    {todo : List (TypeId × TypeDecl × Span)} {s s' : Session} {f : Fault}
    (h : runOn (populateTypes wordBits declared todo) s = (.error f, s')) :
    ∃ n s₁ id decl span, runOn (populateTypes wordBits declared (todo.take n)) s = (.ok (), s₁) ∧
      todo[n]? = some (id, decl, span) ∧
      s'.types = (runOn (bodyOf wordBits declared decl span) s₁.types).2 := by
  induction todo generalizing s with
  | nil => cases h
  | cons d rest ih =>
    have hsplit (more : List (TypeId × TypeDecl × Span)) :=
      populateTypes_append wordBits declared [d] more
    simp only [List.singleton_append] at hsplit
    obtain ⟨r, s₁, hfirst⟩ := exists_runOn (populateTypes wordBits declared [d]) s
    cases r with
    | error e =>
      rw [hsplit, runOn_bind_error hfirst] at h
      cases h
      exact ⟨0, s, d.1, d.2.1, d.2.2, rfl, rfl, populateTypes_singleton_error hfirst⟩
    | ok _ =>
      rw [hsplit, runOn_bind_ok hfirst] at h
      obtain ⟨n, s₂, id, decl, span, hn, hnext, htypes⟩ := ih h
      refine ⟨n + 1, s₂, id, decl, span, ?_, hnext, htypes⟩
      rw [List.take_succ_cons, hsplit, runOn_bind_ok hfirst, hn]

end Pass

theorem Scaffold.take {declared : Declared} {n : Nat}
    {todo : List (TypeId × TypeDecl × Span)} {slots : List Slot}
    (h : Scaffold declared n todo slots) (k : Nat) :
    Scaffold declared n (todo.take k) (slots.take k) := by
  induction h generalizing k with
  | nil =>
    rw [List.take_nil, List.take_nil]
    exact .nil
  | cons hshape _ ih =>
    cases k with
    | zero => exact .nil
    | succ k => exact .cons hshape (ih k)

namespace SourceUnit

variable {config : Config} {u : SourceUnit} {t : TypeStore}

def admittedSession (u : SourceUnit) : Session := ⟨.empty, admitErrors [] u.typeDecls⟩

/-- Lowering the unit comes to a point at which it has the types `t`. -/
inductive Reaches (config : Config) (u : SourceUnit) : TypeStore → Prop where
  /-- At first there are none. -/
  | start : Reaches config u .empty
  /-- Some of the declared types have their slots. -/
  | scaffolded {n : Nat} {slots : List (TypeId × TypeDecl × Span)} {s : Session} :
      split u.decls = .ok (u.typeDecls, u.funcDecls) →
      runOn (Pass.scaffoldTypes (declaredTypes u.typeDecls) ((admitted [] u.typeDecls).take n))
        u.admittedSession = (.ok slots, s) → Reaches config u s.types
  /-- All have their slots and some have their bodies, and the types in the next body are found. -/
  | populating {n : Nat} {slots : List (TypeId × TypeDecl × Span)} {s₀ s₁ : Session} {id : TypeId}
      {decl : TypeDecl} {span : Span} {t : TypeStore} :
      split u.decls = .ok (u.typeDecls, u.funcDecls) →
      runOn (Pass.scaffoldTypes (declaredTypes u.typeDecls) (admitted [] u.typeDecls))
        u.admittedSession = (.ok slots, s₀) →
      runOn (Pass.populateTypes config.wordBits (declaredTypes u.typeDecls) (slots.take n)) s₀ =
        (.ok (), s₁) →
      slots[n]? = some (id, decl, span) → s₁.types ≤ t →
      t ≤ (runOn (bodyOf config.wordBits (declaredTypes u.typeDecls) decl span) s₁.types).2 →
      Reaches config u t
  /-- The types are resolved, and functions are registered and lowered. -/
  | lowering {s : Session} {t : TypeStore} : u.Passes config s t → Reaches config u t

/-- What follows when declared types have their slots. -/
def fromSlots (config : Config) (u : SourceUnit) (slots : List (TypeId × TypeDecl × Span)) :
    Pass Module := do
  Pass.populateTypes config.wordBits (declaredTypes u.typeDecls) slots
  u.afterTypes config (declaredTypes u.typeDecls)

theorem fromSlots_keeping (config : Config) (u : SourceUnit)
    (slots : List (TypeId × TypeDecl × Span)) :
    Pass.Keeping (fun _ => True) (u.fromSlots config slots) :=
  ((Pass.populateTypes_keeping _ _ slots).mono fun _ _ => trivial).bind fun _ =>
    .of_accruing (afterTypes_accrues config u _) fun _ _ _ => trivial

theorem runOn_lowerPass (hsplit : split u.decls = .ok (u.typeDecls, u.funcDecls)) :
    runOn (u.lowerPass config) ⟨.empty, []⟩ = runOn (do
      let slots ← Pass.scaffoldTypes (declaredTypes u.typeDecls) (admitted [] u.typeDecls)
      u.fromSlots config slots) u.admittedSession := by
  rw [lowerPass_eq hsplit, Pass.resolveTypes]
  simp only [bind_assoc, pure_bind]
  rw [runOn_bind_ok (Pass.admitTypes_run [] u.typeDecls ⟨.empty, []⟩)]
  rfl

theorem lastTypes_eq (hsplit : split u.decls = .ok (u.typeDecls, u.funcDecls)) :
    u.lastTypes config = (runOn (do
      let slots ← Pass.scaffoldTypes (declaredTypes u.typeDecls) (admitted [] u.typeDecls)
      u.fromSlots config slots) u.admittedSession).2.types := by
  rw [lastTypes, runOn_lowerPass hsplit]

theorem runOn_resolveTypes {wordBits : Nat} {s₀ s : Session}
    {slots : List (TypeId × TypeDecl × Span)}
    (hslots : runOn (Pass.scaffoldTypes (declaredTypes u.typeDecls) (admitted [] u.typeDecls))
      u.admittedSession = (.ok slots, s₀))
    (hbodies : runOn (Pass.populateTypes wordBits (declaredTypes u.typeDecls) slots) s₀ =
      (.ok (), s)) : runOn (Pass.resolveTypes wordBits u.typeDecls) ⟨.empty, []⟩ =
        (.ok (declaredTypes u.typeDecls), s) := by
  rw [Pass.resolveTypes, runOn_bind_ok (Pass.admitTypes_run [] u.typeDecls ⟨.empty, []⟩)]
  exact (runOn_bind_ok hslots).trans (runOn_bind_ok hbodies)

/-- How far the run comes: where it is aborted before the types are resolved, that is how it ends.
-/
inductive Stage (config : Config) (u : SourceUnit) : Prop where
  | splitting {e : Unsupported} : split u.decls = .error e →
      runOn (u.lowerPass config) ⟨.empty, []⟩ = (.error (.abort e), ⟨.empty, []⟩) → Stage config u
  | scaffolding {f : Fault} {s : Session} : split u.decls = .ok (u.typeDecls, u.funcDecls) →
      runOn (Pass.scaffoldTypes (declaredTypes u.typeDecls) (admitted [] u.typeDecls))
        u.admittedSession = (.error f, s) →
      runOn (u.lowerPass config) ⟨.empty, []⟩ = (.error f, s) → Stage config u
  | populating {slots : List (TypeId × TypeDecl × Span)} {f : Fault} {s₀ s : Session} :
      split u.decls = .ok (u.typeDecls, u.funcDecls) →
      runOn (Pass.scaffoldTypes (declaredTypes u.typeDecls) (admitted [] u.typeDecls))
        u.admittedSession = (.ok slots, s₀) →
      runOn (Pass.populateTypes config.wordBits (declaredTypes u.typeDecls) slots) s₀ =
        (.error f, s) →
      runOn (u.lowerPass config) ⟨.empty, []⟩ = (.error f, s) → Stage config u
  | resolved {slots : List (TypeId × TypeDecl × Span)} {s₀ s : Session} :
      runOn (Pass.scaffoldTypes (declaredTypes u.typeDecls) (admitted [] u.typeDecls))
        u.admittedSession = (.ok slots, s₀) →
      runOn (Pass.populateTypes config.wordBits (declaredTypes u.typeDecls) slots) s₀ =
        (.ok (), s) →
      u.Passes config s (u.lastTypes config) → Stage config u

theorem stage (config : Config) (u : SourceUnit) : Stage config u := by
  cases hdecls : split u.decls with
  | error e =>
    refine .splitting hdecls ?_
    rw [lowerPass, hdecls]
    rfl
  | ok p =>
    obtain ⟨types, funcs⟩ := p
    obtain ⟨htypes, hfuncs⟩ := split_ok u.decls hdecls
    have hsplit : split u.decls = .ok (u.typeDecls, u.funcDecls) := by
      rw [hdecls, htypes, hfuncs]
      rfl
    obtain ⟨r, s₀, hslots⟩ := exists_runOn
      (Pass.scaffoldTypes (declaredTypes u.typeDecls) (admitted [] u.typeDecls)) u.admittedSession
    cases r with
    | error f =>
      exact .scaffolding hsplit hslots (by rw [runOn_lowerPass hsplit, runOn_bind_error hslots])
    | ok slots =>
      obtain ⟨r, s, hbodies⟩ := exists_runOn
        (Pass.populateTypes config.wordBits (declaredTypes u.typeDecls) slots) s₀
      cases r with
      | error f =>
        refine .populating hsplit hslots hbodies ?_
        rw [runOn_lowerPass hsplit, runOn_bind_ok hslots, fromSlots, runOn_bind_error hbodies]
      | ok _ =>
        exact .resolved hslots hbodies (passes_last hsplit (runOn_resolveTypes hslots hbodies))

/-- The run ends at a point of it, however it ends. -/
theorem reaches_last (config : Config) (u : SourceUnit) :
    u.Reaches config (u.lastTypes config) := by
  cases stage config u with
  | splitting _ hrun =>
    rw [lastTypes, hrun]
    exact .start
  | scaffolding hsplit hslots hrun =>
    rw [lastTypes, hrun]
    obtain ⟨n, slots, hn⟩ := Pass.scaffoldTypes_error hslots
    exact .scaffolded hsplit hn
  | populating hsplit hslots hbodies hrun =>
    obtain ⟨n, s₁, id, decl, span, hn, hnext, htypes⟩ := Pass.populateTypes_error hbodies
    rw [lastTypes, hrun]
    dsimp only
    rw [htypes]
    refine .populating hsplit hslots hn hnext ?_ (TypeStore.le_refl _)
    exact (Typing.bodyOf_accrues _ _ decl span _ _ _ rfl).1.types
  | resolved _ _ hpasses => exact .lowering hpasses

/-- What is found at a point of the run is found at its end, under the same number. -/
theorem Reaches.keeps_last (h : u.Reaches config t) : t.Keeps (u.lastTypes config) := by
  cases h with
  | start =>
    constructor
    · intro name id hid
      obtain ⟨body, hslot⟩ := TypeStore.slot?_of_lookup? hid
      simp [TypeStore.slot?_empty] at hslot
    · intro body id hid
      have hslot := TypeStore.slot?_of_interned? hid
      simp [TypeStore.slot?_empty] at hslot
  | @scaffolded n slots s hsplit hslots =>
    rw [lastTypes_eq hsplit, ← List.take_append_drop n (admitted [] u.typeDecls),
      Pass.scaffoldTypes_append]
    simp only [bind_assoc]
    rw [runOn_bind_ok hslots]
    have hothers : Pass.Keeping (fun _ => True) (Pass.scaffoldTypes (declaredTypes u.typeDecls)
        ((admitted [] u.typeDecls).drop n)) :=
      (Pass.scaffoldTypes_keeping _ _).mono fun _ _ => trivial
    refine (Pass.Keeping.bind hothers (fun others => ?_) s).types
    simpa using fromSlots_keeping config u _
  | @populating n slots s₀ s₁ id decl span t hsplit hslots hbodies hnext hfrom hto =>
    have hdrop : slots.drop n = (id, decl, span) :: slots.drop (n + 1) :=
      List.drop_eq_getElem?_toList_append.trans (by rw [hnext]; rfl)
    rw [lastTypes_eq hsplit, runOn_bind_ok hslots, fromSlots, ← List.take_append_drop n slots,
      Pass.populateTypes_append]
    simp only [bind_assoc]
    rw [runOn_bind_ok hbodies, hdrop, Pass.populateTypes]
    refine (TypeStore.Keeps.of_le hto).trans ?_
    obtain ⟨r, types, hbody⟩ := exists_runOn
      (bodyOf config.wordBits (declaredTypes u.typeDecls) decl span) s₁.types
    have hrest : Pass.Keeping (fun _ => True) (do
        Pass.populateTypes config.wordBits (declaredTypes u.typeDecls) (slots.drop (n + 1))
        u.afterTypes config (declaredTypes u.typeDecls)) := fromSlots_keeping config u _
    simp only [bind_assoc]
    rw [runOn_bind, Pass.runOn_recover, hbody]
    cases r with
    | ok body =>
      dsimp only
      rw [bind_assoc]
      exact (((Pass.define_keeping id body).bind fun _ => hrest) { s₁ with types := types }).types
    | error f =>
      cases f with
      | report e => exact (hrest ⟨types, s₁.errors ++ [e]⟩).types
      | abort | breach => exact .refl types
  | lowering h => exact .of_le h.upTo

/-- The slots that were given to declarations, where there were none before. -/
theorem scaffolded_spec {decls : List (TypeDecl × Span)}
    (hsub : decls.Sublist (admitted [] u.typeDecls)) {slots : List (TypeId × TypeDecl × Span)}
    {s : Session}
    (h : runOn (Pass.scaffoldTypes (declaredTypes u.typeDecls) decls) u.admittedSession =
      (.ok slots, s)) :
    s.types.WF ∧ Scaffold (declaredTypes u.typeDecls) 0 slots s.types.slots.toList ∧
      slots.map Prod.snd =
        decls.filter fun d => (followAlias (declaredTypes u.typeDecls) d.1.type).isSome := by
  have hnodup : (decls.map fun d => d.1.name).Nodup :=
    (admitted_names [] u.typeDecls).1.sublist (hsub.map _)
  obtain ⟨hw, -, ⟨new, hscaffold, hslots⟩, hmap⟩ :=
    (Pass.scaffoldTypes_comes (s := u.admittedSession) (declaredTypes u.typeDecls) decls .empty
      hnodup (by simp [admittedSession, TypeStore.names, TypeStore.empty])).of_ok h
  have hnil : u.admittedSession.types.slots.toList = [] := rfl
  rw [hnil, List.nil_append] at hslots
  exact ⟨hw, hslots ▸ hscaffold, hmap⟩

theorem names_of_scaffold {declared : Declared} {s : TypeStore}
    {slots : List (TypeId × TypeDecl × Span)} (h : Scaffold declared 0 slots s.slots.toList) :
    s.names = (slots.map Prod.snd).map fun d => d.1.name := by
  rw [TypeStore.names, h.names, List.map_map]
  rfl

/-- Every point is on the way to one with a well-formed store that has declared names only, or it
comes after the types are resolved. -/
theorem Reaches.cases (h : u.Reaches config t) :
    (∃ r : TypeStore, t ≤ r ∧ r.WF ∧
        ∀ name ∈ r.names, ∃ d ∈ admitted [] u.typeDecls, d.1.name = name) ∨
      ∃ s, u.Passes config s t := by
  cases h with
  | start =>
    exact .inl ⟨.empty, TypeStore.le_refl _, .empty, by simp [TypeStore.names, TypeStore.empty]⟩
  | @scaffolded n slots s hsplit hslots =>
    obtain ⟨hw, hscaffold, hmap⟩ := scaffolded_spec (List.take_sublist n _) hslots
    refine .inl ⟨_, TypeStore.le_refl _, hw, fun name hname => ?_⟩
    rw [names_of_scaffold hscaffold, hmap] at hname
    obtain ⟨d, hd, rfl⟩ := List.mem_map.mp hname
    exact ⟨d, List.mem_of_mem_take (List.mem_filter.mp hd).1, rfl⟩
  | @populating n slots s₀ s₁ id decl span t hsplit hslots hbodies hnext hfrom hto =>
    obtain ⟨hw₀, hscaffold, hmap⟩ := scaffolded_spec (List.Sublist.refl _) hslots
    have hnames₀ : s₀.types.names = slottedNames u.typeDecls := by
      rw [names_of_scaffold hscaffold, hmap]
      rfl
    have hsplit₀ : s₀.types.slots.toList =
        [] ++ s₀.types.slots.toList.take n ++ s₀.types.slots.toList.drop n := by simp
    obtain ⟨hw₁, hnames₁, -⟩ := (Pass.populateTypes_comes (fun name => slottedNames_declared)
      (hscaffold.take n) List.length_nil hw₀ hnames₀ hsplit₀).of_ok hbodies
    have hshape : (followAlias (declaredTypes u.typeDecls) decl.type).isSome := by
      have hmem : (decl, span) ∈ slots.map Prod.snd :=
        List.mem_map.mpr ⟨_, List.mem_of_getElem? hnext, rfl⟩
      rw [hmap] at hmem
      simpa using (List.mem_filter.mp hmem).2
    have hfinds := Typing.bodyOf_finds config.wordBits decl span hnames₁
      (fun name => slottedNames_declared) hshape
    have hadds := @Typing.bodyOf_found (declaredTypes u.typeDecls) _ config.wordBits decl span hw₁
    refine .inl ⟨_, hto, hadds.2.1, fun name hname => ?_⟩
    rw [hfinds.names, hnames₁] at hname
    obtain ⟨d, hd, rfl⟩ := List.mem_map.mp hname
    exact ⟨d, (List.mem_filter.mp hd).1, rfl⟩
  | lowering h => exact .inr ⟨_, h⟩

end SourceUnit

end Midend
