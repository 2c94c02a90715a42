import Midend.Proofs.Store

/-!
# Midend.Proofs.Arena

The store of types under any history of calls, failing ones included (`calls_keep_identity`). A name
and an anonymous body keep the slot that they got, a slot keeps its name, and the body of a slot
changes once at most, when a pending type is defined.

`Tables` has the store with its two indices, each of which the calls update on their own. What is
read off the slots is what they find there.
-/

namespace Midend.Ir.TypeStore

inductive Call where
  | intern (body : Ty)
  | void
  | int (bits : Nat)
  | bool
  | float (kind : FloatKind)
  | pointerTo (elem : TypeId)
  | struct (fields : List TypeId)
  | declare (name : String) (shape : Shape)
  | define (id : TypeId) (body : Ty)
  | memoized (name : String) (body : Ty)

inductive Answer where
  | type (id : TypeId)
  | taken
  | defined
  | failed (error : DefineError)
  deriving DecidableEq

def Answer.ofDeclare : Option TypeId → Answer
  | some id => .type id
  | none => .taken

namespace Call

/-- The anonymous body that the call interns. -/
def interns? : Call → Option Ty
  | .intern body => some body
  | .void => some .void
  | .int bits => some (.int bits)
  | .bool => some (.int 1)
  | .float kind => some (.float kind)
  | .pointerTo elem => some (.pointer elem)
  | .struct fields => some (.struct fields)
  | .declare _ _ | .define _ _ | .memoized _ _ => none

/-- A call that fails leaves the store as it is. -/
def apply (s : TypeStore) : Call → Answer × TypeStore
  | .intern body => (TypeStore.intern body s).map .type id
  | .void => (TypeStore.void s).map .type id
  | .int bits => (TypeStore.int bits s).map .type id
  | .bool => (TypeStore.bool s).map .type id
  | .float kind => (TypeStore.float kind s).map .type id
  | .pointerTo elem => (TypeStore.pointerTo elem s).map .type id
  | .struct fields => (TypeStore.struct fields s).map .type id
  | .declare name shape => (TypeStore.declare name shape s).map .ofDeclare id
  | .define i body =>
    match TypeStore.define i body s with
    | .ok t => (.defined, t)
    | .error e => (.failed e, s)
  | .memoized name body => (TypeStore.memoized name body s).map .type id

theorem apply_of_interns {c : Call} {body : Ty} (h : c.interns? = some body) (s : TypeStore) :
    c.apply s = (TypeStore.intern body s).map .type id := by
  cases c <;> first | cases h; rfl | cases h

end Call

def runCalls {σ : Type} (apply : σ → Call → Answer × σ) : List Call → σ → List Answer × σ
  | [], s => ([], s)
  | c :: rest, s =>
    let (answer, s') := apply s c
    let (answers, t) := runCalls apply rest s'
    (answer :: answers, t)

/-- The store after calls that were made from the start. -/
def after (calls : List Call) : TypeStore := (runCalls Call.apply calls .empty).2

theorem runCalls_append {σ : Type} (apply : σ → Call → Answer × σ)
    (calls more : List Call) (s : σ) :
    (runCalls apply (calls ++ more) s).2 = (runCalls apply more (runCalls apply calls s).2).2 := by
  induction calls generalizing s with
  | nil => rfl
  | cons c rest ih => exact ih _

theorem slot?_push_iff {s : TypeStore} {slot other : Slot} {id : TypeId} :
    (s.push slot).2.slot? id = some other ↔
      id = (s.push slot).1 ∧ other = slot ∨ s.slot? id = some other := by
  refine ⟨slot?_push_cases, ?_⟩
  rintro (⟨rfl, rfl⟩ | h)
  · exact slot?_push_self
  · rw [slot?_push, if_neg (Nat.ne_of_lt (index_lt h))]
    exact h

def Definable (s : TypeStore) (id : TypeId) (body : Ty) : Prop :=
  ∃ name, s.slot? id = some ⟨some name, .pending body.shape⟩

theorem define_of_not_definable {s : TypeStore} {id : TypeId} {body : Ty}
    (h : ¬ s.Definable id body) : ∃ e, s.define id body = .error e := by
  cases hslot : s.slot? id with
  | none => exact ⟨.missing, by simp [define, hslot]⟩
  | some slot =>
    obtain ⟨name, old⟩ := slot
    cases old with
    | pending shape =>
      cases name with
      | none => exact ⟨.anonymous, by simp [define, hslot]⟩
      | some name =>
        have hshape : body.shape ≠ shape := fun heq => h ⟨name, heq ▸ hslot⟩
        exact ⟨.wrongShape, by simp [define, hslot, hshape]⟩
    | void | int | float | pointer | struct => exact ⟨.alreadyDefined, by simp [define, hslot]⟩

/-- All that a call can do to the store. -/
inductive Step (s : TypeStore) : TypeStore → Prop where
  | keep : Step s s
  | anonymous {body : Ty} : s.interned? body = none → Step s (s.push ⟨none, body⟩).2
  | named {name : String} {body : Ty} : s.lookup? name = none → Step s (s.push ⟨some name, body⟩).2
  | defined {id : TypeId} {name : String} {body : Ty} :
      s.slot? id = some ⟨some name, .pending body.shape⟩ → Step s (s.filled id name body)

theorem Call.apply_step (c : Call) (s : TypeStore) : Step s (c.apply s).2 := by
  have hintern (body : Ty) : Step s (TypeStore.intern body s).2 := by
    rcases intern_cases s body with ⟨_, _, h⟩ | ⟨hnew, h⟩ <;> rw [h]
    · exact .keep
    · exact .anonymous hnew
  cases c with
  | intern | void | int | bool | float | pointerTo | struct => exact hintern _
  | declare name shape =>
    cases h : s.lookup? name with
    | some id => simpa [apply, declare_of_some shape h] using Step.keep
    | none => simpa [apply, declare_of_none shape h] using Step.named h
  | define i body =>
    by_cases h : s.Definable i body
    · obtain ⟨name, hslot⟩ := h
      simpa [apply, define_of_pending hslot rfl] using Step.defined hslot
    · obtain ⟨e, he⟩ := define_of_not_definable h
      simpa [apply, he] using Step.keep
  | memoized name body =>
    show Step s (TypeStore.memoized name body s).2
    rcases memoized_cases s name body with ⟨_, _, h⟩ | ⟨hnew, h⟩ <;> rw [h]
    · exact .keep
    · exact .named hnew

/-- What a body can become: a pending one is replaced by a body of its shape, and no other. -/
inductive Ty.Becomes : Ty → Ty → Prop where
  | same {body : Ty} : Becomes body body
  | defined {body : Ty} : Becomes (.pending body.shape) body

theorem Ty.Becomes.trans {a b c : Ty} (h₁ : Ty.Becomes a b) (h₂ : Ty.Becomes b c) :
    Ty.Becomes a c := by
  cases h₁ with
  | same => exact h₂
  | defined =>
    cases h₂ with
    | same => exact .defined
    | defined => exact @Ty.Becomes.defined c

/-- What a later store has kept: anonymous slots altogether, and of a named slot its name. -/
structure Kept (s t : TypeStore) : Prop where
  anonymous : ∀ id body, s.slot? id = some ⟨none, body⟩ → t.slot? id = some ⟨none, body⟩
  named : ∀ id name body, s.slot? id = some ⟨some name, body⟩ →
    ∃ body', t.slot? id = some ⟨some name, body'⟩ ∧ Ty.Becomes body body'

namespace Kept

variable {s t u : TypeStore}

theorem refl (s : TypeStore) : Kept s s := ⟨fun _ _ h => h, fun _ _ body h => ⟨body, h, .same⟩⟩

theorem trans (h₁ : Kept s t) (h₂ : Kept t u) : Kept s u where
  anonymous id body h := h₂.anonymous id body (h₁.anonymous id body h)
  named id name body h := by
    obtain ⟨body', h', hbody⟩ := h₁.named id name body h
    obtain ⟨body'', h'', hbody'⟩ := h₂.named id name body' h'
    exact ⟨body'', h'', hbody.trans hbody'⟩

theorem push (s : TypeStore) (slot : Slot) : Kept s (s.push slot).2 where
  anonymous _ _ h := slot?_push_iff.mpr (.inr h)
  named _ _ body h := ⟨body, slot?_push_iff.mpr (.inr h), .same⟩

theorem filled {id : TypeId} {name : String} {body : Ty}
    (h : s.slot? id = some ⟨some name, .pending body.shape⟩) : Kept s (s.filled id name body) where
  anonymous j b hb := by
    have hne : j ≠ id := by
      rintro rfl
      rw [h] at hb
      cases hb
    rw [slot?_filled h, if_neg hne]
    exact hb
  named j n b hb := by
    by_cases hj : j = id
    · subst hj
      rw [h] at hb
      cases hb
      exact ⟨body, by rw [slot?_filled h, if_pos rfl], .defined⟩
    · exact ⟨b, by rw [slot?_filled h, if_neg hj]; exact hb, .same⟩

theorem size_le (h : Kept s t) : s.size ≤ t.size := by
  cases hsize : s.size with
  | zero => exact Nat.zero_le _
  | succ n =>
    have hlt : n < s.slots.size := by
      rw [← size, hsize]
      exact Nat.lt_succ_self n
    have hslot : s.slot? ⟨n⟩ = some s.slots[n] := Array.getElem?_eq_getElem hlt
    generalize s.slots[n] = slot at hslot
    obtain ⟨name, body⟩ := slot
    cases name with
    | none => exact index_lt (h.anonymous _ _ hslot)
    | some name =>
      obtain ⟨_, hslot', _⟩ := h.named _ _ _ hslot
      exact index_lt hslot'

end Kept

theorem Step.kept {s t : TypeStore} (h : Step s t) : Kept s t := by
  cases h with
  | keep => exact .refl s
  | anonymous _ => exact .push s _
  | named _ => exact .push s _
  | defined hslot => exact .filled hslot

theorem Step.linked {s t : TypeStore} (h : Step s t) (hs : s.Linked) : t.Linked := by
  cases h with
  | keep => exact hs
  | anonymous hnew => exact hs.push_anonymous hnew
  | named hnew => exact hs.push_named hnew
  | defined hslot => exact hs.filled hslot

theorem runCalls_kept (calls : List Call) (s : TypeStore) :
    Kept s (runCalls Call.apply calls s).2 := by
  induction calls generalizing s with
  | nil => exact .refl s
  | cons c rest ih => exact (c.apply_step s).kept.trans (ih _)

theorem runCalls_linked (calls : List Call) {s : TypeStore} (h : s.Linked) :
    (runCalls Call.apply calls s).2.Linked := by
  induction calls generalizing s with
  | nil => exact h
  | cons c rest ih => exact ih ((c.apply_step s).linked h)

theorem after_linked (calls : List Call) : (after calls).Linked := runCalls_linked calls .empty

theorem after_kept (calls more : List Call) : Kept (after calls) (after (calls ++ more)) := by
  rw [after, after, runCalls_append]
  exact runCalls_kept more _

theorem intern_eq_iff {s t : TypeStore} {a b : Ty} (h : Kept (intern a s).2 t) (ht : t.Linked) :
    (intern a s).1 = (intern b t).1 ↔ a = b := by
  have ha := h.anonymous _ _ (slot?_of_interned? (interned?_intern s a))
  constructor
  · intro heq
    have hkept : Kept t (intern b t).2 := ((Call.intern b).apply_step t).kept
    have hb := hkept.anonymous _ _ ha
    rw [heq, slot?_of_interned? (interned?_intern t b)] at hb
    cases hb
    rfl
  · rintro rfl
    rw [intern_of_some (ht.interned _ _ ha)]

theorem namedFrom_append (n : Nat) (a b : List Slot) :
    namedFrom n (a ++ b) = namedFrom n a ++ namedFrom (n + a.length) b := by
  induction a generalizing n with
  | nil => rfl
  | cons slot rest ih =>
    obtain ⟨name, body⟩ := slot
    have hrest : namedFrom (n + 1) (rest ++ b) =
        namedFrom (n + 1) rest ++ namedFrom (n + (rest.length + 1)) b := by
      rw [ih, Nat.add_assoc, Nat.add_comm 1]
    cases name with
    | none => exact hrest
    | some name => exact congrArg ((name, ⟨n⟩) :: ·) hrest

theorem named_push (s : TypeStore) (slot : Slot) :
    (s.push slot).2.named = s.named ++ (slot.name.map fun name => (name, ⟨s.size⟩)).toList := by
  obtain ⟨name, body⟩ := slot
  rw [named, named, push, Array.toList_push, namedFrom_append]
  cases name <;> simp [namedFrom, size]

theorem named_pairwise (s : TypeStore) :
    s.named.Pairwise fun a b => a.2.index < b.2.index := by
  have hall : ∀ (slots : List Slot) (n : Nat),
      (namedFrom n slots).Pairwise (fun a b => a.2.index < b.2.index) := by
    intro slots
    induction slots with
    | nil => exact fun _ => .nil
    | cons slot rest ih =>
      intro n
      obtain ⟨name, body⟩ := slot
      cases name with
      | none => exact ih (n + 1)
      | some name =>
        refine .cons (fun entry hentry => ?_) (ih (n + 1))
        obtain ⟨i, _, hid, _⟩ := mem_namedFrom.mp hentry
        rw [hid]
        show n < n + 1 + i
        omega
  exact hall _ _

theorem Linked.mem_named_iff {s : TypeStore} (h : s.Linked) {name : String} {id : TypeId} :
    (name, id) ∈ s.named ↔ s.lookup? name = some id := by
  rw [mem_named, h.lookup?_iff]

theorem namedFrom_congr {slots slots' : List Slot} (h : slots.map Slot.name = slots'.map Slot.name)
    (n : Nat) : namedFrom n slots = namedFrom n slots' := by
  induction slots generalizing slots' n with
  | nil => rw [List.map_eq_nil_iff.mp h.symm]
  | cons slot rest ih =>
    cases slots' with
    | nil => cases h
    | cons slot' rest' =>
      obtain ⟨hname, hrest⟩ := List.cons.inj h
      simp only [namedFrom, hname, ih hrest (n + 1)]

theorem named_filled {s : TypeStore} {id : TypeId} {name : String} {old body : Ty}
    (h : s.slot? id = some ⟨some name, old⟩) : (s.filled id name body).named = s.named := by
  refine namedFrom_congr (List.ext_getElem? fun i => ?_) 0
  have hslot := @slot?_filled s id name old body h ⟨i⟩
  rw [List.getElem?_map, List.getElem?_map, Array.getElem?_toList, Array.getElem?_toList]
  change (s.filled id name body).slots[i]? = _ at hslot
  rw [hslot]
  by_cases hi : (⟨i⟩ : TypeId) = id
  · subst hi
    change s.slots[i]? = _ at h
    rw [if_pos rfl, h]
    rfl
  · rw [if_neg hi]
    rfl

/-! ## The indices -/

/-- The store with an index of the anonymous bodies and one of the names, the latter in the order in
which they were added. -/
structure Tables where
  slots : Array Slot
  interned : List (Ty × TypeId)
  named : List (String × TypeId)

namespace Tables

def empty : Tables := ⟨#[], [], []⟩

def intern (body : Ty) (t : Tables) : TypeId × Tables :=
  match t.interned.lookup body with
  | some id => (id, t)
  | none => (⟨t.slots.size⟩, { t with
      slots := t.slots.push ⟨none, body⟩
      interned := (body, ⟨t.slots.size⟩) :: t.interned })

def add (name : String) (body : Ty) (t : Tables) : TypeId × Tables :=
  (⟨t.slots.size⟩, { t with
    slots := t.slots.push ⟨some name, body⟩
    named := t.named ++ [(name, ⟨t.slots.size⟩)] })

def declare (name : String) (shape : Shape) (t : Tables) : Option TypeId × Tables :=
  match t.named.lookup name with
  | some _ => (none, t)
  | none => (t.add name (.pending shape)).map some id

def memoized (name : String) (body : Ty) (t : Tables) : TypeId × Tables :=
  match t.named.lookup name with
  | some id => (id, t)
  | none => t.add name body

def define (id : TypeId) (body : Ty) (t : Tables) : Except DefineError Tables :=
  (TypeStore.define id body ⟨t.slots⟩).map fun s => { t with slots := s.slots }

def apply (t : Tables) : Call → Answer × Tables
  | .intern body => (t.intern body).map .type id
  | .void => (t.intern .void).map .type id
  | .int bits => (t.intern (.int bits)).map .type id
  | .bool => (t.intern (.int 1)).map .type id
  | .float kind => (t.intern (.float kind)).map .type id
  | .pointerTo elem => (t.intern (.pointer elem)).map .type id
  | .struct fields => (t.intern (.struct fields)).map .type id
  | .declare name shape => (t.declare name shape).map .ofDeclare id
  | .define i body =>
    match t.define i body with
    | .ok t' => (.defined, t')
    | .error e => (.failed e, t)
  | .memoized name body => (t.memoized name body).map .type id

/-- The indices say what the slots say. -/
structure Shows (t : Tables) (s : TypeStore) : Prop where
  slots : t.slots = s.slots
  interned : ∀ body id, (body, id) ∈ t.interned ↔ s.slot? id = some ⟨none, body⟩
  nodup : (t.interned.map Prod.fst).Nodup
  named : t.named = s.named

theorem lookup_eq {α β : Type} [BEq α] [LawfulBEq α] {l : List (α × β)} {f : α → Option β}
    (h : ∀ a b, (a, b) ∈ l ↔ f a = some b) (a : α) : l.lookup a = f a := by
  cases hfound : l.lookup a with
  | some b =>
    obtain ⟨before, rest, hsplit, _⟩ := List.lookup_eq_some_iff.mp hfound
    exact ((h a b).mp (hsplit ▸ by simp)).symm
  | none =>
    refine (Option.eq_none_iff_forall_ne_some.mpr fun b hb => ?_).symm
    have hne := List.lookup_eq_none_iff.mp hfound _ ((h a b).mpr hb)
    simp at hne

namespace Shows

variable {t : Tables} {s : TypeStore}

theorem empty : Shows .empty TypeStore.empty where
  slots := rfl
  interned body id := by simp [Tables.empty, slot?_empty]
  nodup := .nil
  named := rfl

section

variable (h : t.Shows s) (hs : s.Linked)

include h hs

theorem lookup_interned (body : Ty) : t.interned.lookup body = s.interned? body :=
  lookup_eq (fun body id => (h.interned body id).trans hs.interned?_iff.symm) body

theorem lookup_named (name : String) : t.named.lookup name = s.lookup? name :=
  lookup_eq (fun name id => by rw [h.named, hs.mem_named_iff]) name

theorem intern (body : Ty) : (t.intern body).1 = (TypeStore.intern body s).1 ∧
    (t.intern body).2.Shows (TypeStore.intern body s).2 := by
  rw [Tables.intern, h.lookup_interned hs]
  rcases intern_cases s body with ⟨id, hid, he⟩ | ⟨hnew, he⟩
  · rw [hid, he]
    exact ⟨rfl, h⟩
  · rw [hnew, he]
    refine ⟨by rw [h.slots]; rfl, by rw [h.slots]; rfl, fun body' id => ?_,
      List.nodup_cons.mpr ⟨fun hmem => ?_, h.nodup⟩, ?_⟩
    · rw [slot?_push_iff, ← h.interned, h.slots]
      simp [push, and_comm]
    · obtain ⟨⟨body', id⟩, hentry, rfl⟩ := List.mem_map.mp hmem
      have hid := (hs.interned?_iff.mpr ((h.interned body' id).mp hentry)).symm.trans hnew
      cases hid
    · rw [named_push]
      simpa using h.named

omit hs in
theorem add (name : String) (body : Ty) :
    (t.add name body).1 = (s.push ⟨some name, body⟩).1 ∧
      (t.add name body).2.Shows (s.push ⟨some name, body⟩).2 := by
  rw [Tables.add, h.slots, h.named]
  refine ⟨rfl, rfl, fun body' id => ?_, h.nodup, ?_⟩
  · rw [slot?_push_iff]
    simp [h.interned]
  · rw [named_push]
    rfl

theorem declare (name : String) (shape : Shape) :
    (t.declare name shape).1 = (TypeStore.declare name shape s).1 ∧
      (t.declare name shape).2.Shows (TypeStore.declare name shape s).2 := by
  rw [Tables.declare, h.lookup_named hs]
  cases hname : s.lookup? name with
  | some id =>
    rw [declare_of_some shape hname]
    exact ⟨rfl, h⟩
  | none =>
    rw [declare_of_none shape hname]
    obtain ⟨hid, hshows⟩ := h.add name (.pending shape)
    exact ⟨congrArg some hid, hshows⟩

theorem memoized (name : String) (body : Ty) :
    (t.memoized name body).1 = (TypeStore.memoized name body s).1 ∧
      (t.memoized name body).2.Shows (TypeStore.memoized name body s).2 := by
  rw [Tables.memoized, h.lookup_named hs]
  rcases memoized_cases s name body with ⟨id, hname, he⟩ | ⟨hname, he⟩
  · rw [hname, he]
    exact ⟨rfl, h⟩
  · rw [hname, he]
    exact h.add name body

omit hs in
theorem filled {id : TypeId} {name : String} {old body : Ty}
    (hslot : s.slot? id = some ⟨some name, old⟩) :
    Shows { t with slots := (s.filled id name body).slots } (s.filled id name body) where
  slots := rfl
  interned body' j := by
    rw [slot?_filled hslot]
    by_cases hj : j = id
    · subst hj
      simp [h.interned, hslot]
    · simp [h.interned, hj]
  nodup := h.nodup
  named := h.named.trans (named_filled hslot).symm

theorem apply (c : Call) : (t.apply c).1 = (c.apply s).1 ∧ (t.apply c).2.Shows (c.apply s).2 := by
  have hintern (body : Ty) : ((t.intern body).map Answer.type id).1 =
      ((TypeStore.intern body s).map Answer.type id).1 ∧
        ((t.intern body).map Answer.type id).2.Shows
          ((TypeStore.intern body s).map Answer.type id).2 :=
    ⟨congrArg Answer.type (h.intern hs body).1, (h.intern hs body).2⟩
  cases c with
  | intern | void | int | bool | float | pointerTo | struct => exact hintern _
  | declare name shape =>
    obtain ⟨hanswer, hshows⟩ := h.declare hs name shape
    exact ⟨congrArg Answer.ofDeclare hanswer, hshows⟩
  | define i body =>
    have hs' : (⟨t.slots⟩ : TypeStore) = s := by rw [h.slots]
    simp only [Tables.apply, Tables.define, Call.apply, hs']
    by_cases hdef : s.Definable i body
    · obtain ⟨name, hslot⟩ := hdef
      rw [define_of_pending hslot rfl]
      exact ⟨rfl, h.filled hslot⟩
    · obtain ⟨e, he⟩ := define_of_not_definable hdef
      rw [he]
      exact ⟨rfl, h⟩
  | memoized name body =>
    obtain ⟨hanswer, hshows⟩ := h.memoized hs name body
    exact ⟨congrArg Answer.type hanswer, hshows⟩

theorem run (calls : List Call) :
    (runCalls Tables.apply calls t).1 = (runCalls Call.apply calls s).1 ∧
      (runCalls Tables.apply calls t).2.Shows (runCalls Call.apply calls s).2 := by
  induction calls generalizing t s with
  | nil => exact ⟨rfl, h⟩
  | cons c rest ih =>
    obtain ⟨hanswer, hshows⟩ := h.apply hs c
    obtain ⟨hanswers, hrest⟩ := ih hshows ((c.apply_step s).linked hs)
    exact ⟨congr (congrArg List.cons hanswer) hanswers, hrest⟩

end

end Shows

end Tables

/-! ## Any history -/

/-- What holds after the calls, and of everything that is there for as long as more calls follow. -/
structure KeepsIdentity (calls more : List Call) : Prop where
  /-- The anonymous bodies and the anonymous slots belong together one to one. -/
  interned : ∀ body id, (after calls).interned? body = some id ↔
    (after calls).slot? id = some ⟨none, body⟩
  /-- To intern twice, at any two moments, gives one type just if the bodies are equal. -/
  same : ∀ (c d : Call) (a b : Ty), c.interns? = some a → d.interns? = some b →
    ∃ i j, (c.apply (after calls)).1 = .type i ∧
      (d.apply (after (calls ++ c :: more))).1 = .type j ∧ (i = j ↔ a = b)
  /-- The names and the named slots belong together one to one. -/
  looked : ∀ name id, (after calls).lookup? name = some id ↔
    ∃ body, (after calls).slot? id = some ⟨some name, body⟩
  listed : ∀ name id, (name, id) ∈ (after calls).named ↔ (after calls).lookup? name = some id
  ordered : (after calls).named.Pairwise fun a b => a.2.index < b.2.index
  /-- Slots stay where they are, anonymous ones unchanged, and a named one with its name. Its body
  changes only if it is pending, to a body of its shape. -/
  kept : Kept (after calls) (after (calls ++ more))
  appended : (after calls).size ≤ (after (calls ++ more)).size
  keptName : ∀ name id, (after calls).lookup? name = some id →
    (after (calls ++ more)).lookup? name = some id
  /-- What fails changes nothing. -/
  declareFails : ∀ name shape id, (after calls).lookup? name = some id →
    (Call.declare name shape).apply (after calls) = (.taken, after calls)
  defineFails : ∀ id body, ¬ (after calls).Definable id body → ∃ e,
    (Call.define id body).apply (after calls) = (.failed e, after calls)
  /-- The indices that are kept beside the slots answer every call alike, and they say what the
  slots say. -/
  indices : (runCalls Tables.apply calls .empty).1 = (runCalls Call.apply calls .empty).1 ∧
    (runCalls Tables.apply calls .empty).2.Shows (after calls)

/-- The identity of types is kept by every history of calls. -/
theorem calls_keep_identity (calls more : List Call) : KeepsIdentity calls more := by
  have hs := after_linked calls
  have hkept := after_kept calls more
  refine ⟨fun _ _ => hs.interned?_iff, fun c d a b hc hd => ?_, fun _ _ => hs.lookup?_iff,
    fun name id => by rw [mem_named, hs.lookup?_iff], named_pairwise _, hkept, hkept.size_le,
    fun name id hid => ?_, fun name shape id hid => ?_, fun id body hnot => ?_,
    Tables.Shows.empty.run .empty calls⟩
  · have hlater : Kept (intern a (after calls)).2 (after (calls ++ c :: more)) := by
      have hsplit : after (calls ++ c :: more) =
          (runCalls Call.apply more (c.apply (after calls)).2).2 := runCalls_append _ _ _ _
      rw [hsplit, Call.apply_of_interns hc]
      exact runCalls_kept more _
    exact ⟨_, _, by rw [Call.apply_of_interns hc]; rfl, by rw [Call.apply_of_interns hd]; rfl,
      intern_eq_iff hlater (after_linked _)⟩
  · obtain ⟨body, hslot⟩ := slot?_of_lookup? hid
    obtain ⟨body', hslot', _⟩ := hkept.named id name body hslot
    exact (after_linked _).looked id name body' hslot'
  · simp [Call.apply, declare_of_some shape hid, Answer.ofDeclare]
  · obtain ⟨e, he⟩ := define_of_not_definable hnot
    exact ⟨e, by simp only [Call.apply, he]⟩

example : (runCalls Call.apply
    [.int 64, .declare "T" .struct, .int 64, .declare "T" .pointer, .define ⟨1⟩ .void] .empty).1 =
      [.type ⟨0⟩, .type ⟨1⟩, .type ⟨0⟩, .taken, .failed .wrongShape] := by decide +kernel

end Midend.Ir.TypeStore
