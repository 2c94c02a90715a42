import Midend.Ir.Text
import Midend.Proofs.Arena
import Midend.Proofs.Contains

/-!
# Midend.Proofs.TypeText

Writing a type comes to an end although the named types may run in circles
(`Granted.prints_types`). A text stops at names, and an anonymous type was made after those that it
refers to (`Granted.founded`), so that the fuel is never used up: the texts are those of a writer
without any (`Founded.definition?_eq`), and there is no other (`Founded.text_unique`). A module is
the listing of its types and then its functions (`text?_eq`).
-/

namespace Midend.Ir

theorem mapM_map_some {α β γ : Type} (f : α → Option β) (g : β → γ) (l : List α) :
    (l.mapM fun a => (f a).map g) = (l.mapM f).map (List.map g) := by
  induction l with
  | nil => rfl
  | cons a rest ih =>
    rw [List.mapM_cons, List.mapM_cons, ih]
    cases f a with
    | none => rfl
    | some b => cases rest.mapM f <;> rfl

namespace TypeStore

variable {s : TypeStore} {id : TypeId}

/-- An anonymous type stands in the text of another one only if it was made before. -/
theorem Founded.part_wellFounded (h : s.Founded) : WellFounded s.Part :=
  Subrelation.wf (fun ⟨body, hslot, href⟩ => h.earlier _ body hslot _ href)
    (measure TypeId.index).wf

/-- There is one way to write types whose bodies are written with references, and references with
names or else bodies. -/
theorem Founded.text_unique (h : s.Founded) {ref body : TypeId → Option String}
    (href : ∀ id, ref id = s.refVia? body id)
    (hbody : ∀ id, body id = (s.body? id).bind (Ty.text? ref)) :
    ref = s.ref? ∧ body = s.definition? := by
  have hrefs (id : TypeId) : ref id = s.ref? id := by
    induction id using h.part_wellFounded.induction with
    | _ id ih =>
      rw [href id]
      refine refVia?_congr fun b hslot => ?_
      change body id = s.definition? id
      rw [hbody id, h.definition?_eq, body?_of_slot? hslot]
      exact Ty.text?_congr fun other hother => ih other ⟨b, hslot, hother⟩
  obtain rfl : ref = s.ref? := funext hrefs
  exact ⟨rfl, funext fun id => (hbody id).trans (h.definition?_eq id).symm⟩

namespace Call

/-- The types that a call is given. -/
def given : Call → List TypeId
  | .intern body | .memoized _ body => body.refs
  | .pointerTo elem => [elem]
  | .struct fields => fields
  | .define id body => id :: body.refs
  | .void | .int _ | .bool | .float _ | .declare _ _ => []

theorem given_of_interns {c : Call} {body : Ty} (h : c.interns? = some body) :
    c.given = body.refs := by
  cases c <;> cases h <;> rfl

end Call

/-- Calls that are given no types but those that the calls before them have answered. -/
inductive Granted : List Call → Prop where
  | none : Granted []
  | next {calls : List Call} (c : Call) : Granted calls →
      (∀ id ∈ c.given, .type id ∈ (runCalls Call.apply calls .empty).1) → Granted (calls ++ [c])

/-- What a call does to the store, and its answer. -/
inductive Call.Effect (c : Call) (s : TypeStore) : Answer → TypeStore → Prop where
  | found {id : TypeId} {slot : Slot} : s.slot? id = some slot → Effect c s (.type id) s
  | added {slot : Slot} : slot.body.refs ⊆ c.given →
      Effect c s (.type (s.push slot).1) (s.push slot).2
  | defined {id : TypeId} {name : String} {old body : Ty} :
      s.slot? id = some ⟨some name, old⟩ → body.refs ⊆ c.given →
        Effect c s .defined (s.filled id name body)
  | refused {answer : Answer} : (∀ id, answer ≠ .type id) → Effect c s answer s

theorem Call.apply_effect (c : Call) (s : TypeStore) :
    Call.Effect c s (c.apply s).1 (c.apply s).2 := by
  have hintern {body : Ty} (h : c.interns? = some body) :
      Call.Effect c s (c.apply s).1 (c.apply s).2 := by
    have hrefs := Call.given_of_interns h
    rw [Call.apply_of_interns h]
    rcases intern_cases s body with ⟨_, hid, he⟩ | ⟨_, he⟩ <;> rw [he]
    · exact .found (slot?_of_interned? hid)
    · exact .added (hrefs ▸ List.Subset.refl _)
  cases c with
  | intern | void | int | bool | float | pointerTo | struct => exact hintern rfl
  | declare name shape =>
    cases hname : s.lookup? name with
    | some i =>
      simp only [apply, declare_of_some shape hname]
      exact .refused (by simp [Answer.ofDeclare])
    | none =>
      simp only [apply, declare_of_none shape hname]
      exact .added (by simp [Ty.refs])
  | define i body =>
    by_cases hdef : s.Definable i body
    · obtain ⟨name, hslot⟩ := hdef
      simp only [apply, define_of_pending hslot rfl]
      exact .defined hslot (List.subset_cons_self i body.refs)
    · obtain ⟨e, he⟩ := define_of_not_definable hdef
      simp only [apply, he]
      exact .refused (by simp)
  | memoized name body =>
    show Call.Effect _ s (.type (TypeStore.memoized name body s).1)
      (TypeStore.memoized name body s).2
    rcases memoized_cases s name body with ⟨_, hid, he⟩ | ⟨_, he⟩ <;> rw [he]
    · obtain ⟨_, hslot⟩ := slot?_of_lookup? hid
      exact .found hslot
    · exact .added (List.Subset.refl _)

theorem size_filled (s : TypeStore) (id : TypeId) (name : String) (body : Ty) :
    (s.filled id name body).size = s.size := by
  simp [filled, size]

theorem Call.Effect.index_lt_iff {c : Call} {t : TypeStore} {answer : Answer}
    (h : Call.Effect c s answer t) (id : TypeId) :
    id.index < t.size ↔ id.index < s.size ∨ answer = .type id := by
  obtain ⟨i⟩ := id
  cases h with
  | found hslot =>
    have hlt := index_lt hslot
    simp only [Answer.type.injEq]
    exact ⟨.inl, fun hor => hor.elim (fun hold => hold) fun heq => by rwa [heq] at hlt⟩
  | added =>
    rw [size_push, push_fst]
    simp only [Answer.type.injEq, TypeId.mk.injEq]
    omega
  | defined => simp [size_filled]
  | refused hno => simp [hno]

theorem answered_iff (calls : List Call) (id : TypeId) :
    .type id ∈ (runCalls Call.apply calls .empty).1 ↔ id.index < (after calls).size := by
  have hrun (s : TypeStore) : id.index < (runCalls Call.apply calls s).2.size ↔
      id.index < s.size ∨ .type id ∈ (runCalls Call.apply calls s).1 := by
    induction calls generalizing s with
    | nil => simp [runCalls]
    | cons c rest ih =>
      simp only [runCalls, List.mem_cons]
      rw [ih, (c.apply_effect s).index_lt_iff, or_assoc, eq_comm]
  rw [after, hrun]
  exact (or_iff_right (Nat.not_lt_zero _)).symm

theorem Founded.empty : TypeStore.empty.Founded where
  earlier _ _ h := by simp [slot?_empty] at h
  closed _ _ h := by simp [slot?_empty] at h

theorem Founded.filled (h : s.Founded) {name : String} {old body : Ty}
    (hslot : s.slot? id = some ⟨some name, old⟩) (hrefs : ∀ ref ∈ body.refs, ref.index < s.size) :
    (s.filled id name body).Founded where
  earlier i other hother ref href := by
    rcases slot?_filled_cases hslot hother with ⟨-, heq⟩ | hold
    · cases heq
    · exact h.earlier i other hold ref href
  closed i other hother ref href := by
    rw [size_filled]
    rcases slot?_filled_cases hslot hother with ⟨-, rfl⟩ | hold
    · exact hrefs ref href
    · exact h.closed i other hold ref href

theorem Call.Effect.founded {c : Call} {t : TypeStore} {answer : Answer}
    (h : Call.Effect c s answer t) (hs : s.Founded) (hgiven : ∀ id ∈ c.given, id.index < s.size) :
    t.Founded := by
  cases h with
  | found => exact hs
  | added hrefs => exact hs.push fun ref href => hgiven ref (hrefs href)
  | defined hslot hrefs => exact hs.filled hslot fun ref href => hgiven ref (hrefs href)
  | refused => exact hs

theorem Granted.founded {calls : List Call} (h : Granted calls) : (after calls).Founded := by
  induction h with
  | none => exact .empty
  | @next calls c _ hgiven ih =>
    rw [after, runCalls_append]
    exact (c.apply_effect (after calls)).founded ih fun id hid =>
      (answered_iff calls id).mp (hgiven id hid)

theorem Founded.ref?_isSome_iff (h : s.Founded) : (s.ref? id).isSome ↔ id.index < s.size :=
  ⟨fun hsome => (TypeStore.ref?_isSome_iff.mp hsome).has.index_lt, fun hid =>
    Option.isSome_iff_exists.mpr (h.ref?_isSome hid)⟩

theorem Founded.definition?_isSome_iff (h : s.Founded) :
    (s.definition? id).isSome ↔ id.index < s.size := by
  refine ⟨fun hsome => ?_, fun hid => Option.isSome_iff_exists.mpr (h.definition?_isSome hid)⟩
  cases hbody : s.body? id with
  | none =>
    rw [h.definition?_eq, hbody] at hsome
    cases hsome
  | some body => exact Has.index_lt ⟨body, hbody⟩

/-! ## Modules -/

variable {m : Module}

/-- A listed type refers to itself by the name that it is listed under. -/
theorem listedText?_eq {entry : String × TypeId} (h : entry ∈ m.types.named) :
    m.listedText? entry.2 = m.typeText? entry := by
  obtain ⟨name, id⟩ := entry
  obtain ⟨body, hslot⟩ := mem_named.mp h
  simp only [Module.listedText?, Module.typeText?, ref?_of_named hslot]
  cases m.types.definition? id <;> rfl

/-- Both listings of a module give the type its name and the body. -/
structure Lists (m : Module) (entry : String × TypeId) (body : String) : Prop where
  ref : m.types.ref? entry.2 = some ("%" ++ entry.1)
  definition : m.types.definition? entry.2 = some body
  typeText : m.typeText? entry = some ("%" ++ entry.1 ++ " = type " ++ body ++ "\n")
  listedText : m.listedText? entry.2 = some ("%" ++ entry.1 ++ " = type " ++ body ++ "\n")

theorem Founded.exists_lists (h : m.types.Founded) {entry : String × TypeId}
    (hentry : entry ∈ m.types.named) : ∃ body, Lists m entry body := by
  obtain ⟨_, hslot⟩ := mem_named.mp hentry
  obtain ⟨body, hbody⟩ := h.definition?_isSome (index_lt hslot)
  have htext : m.typeText? entry = some ("%" ++ entry.1 ++ " = type " ++ body ++ "\n") := by
    simp [Module.typeText?, hbody]
  exact ⟨body, ref?_of_named hslot, hbody, htext, (listedText?_eq hentry).trans htext⟩

theorem Founded.typesText?_isSome (h : m.types.Founded) : m.typesText?.isSome := by
  have hall : (m.types.named.mapM fun entry => m.listedText? entry.2).isSome := by
    refine mapM_isSome_iff.mpr fun entry hentry => ?_
    obtain ⟨body, hlists⟩ := h.exists_lists hentry
    rw [hlists.listedText]
    rfl
  obtain ⟨texts, htexts⟩ := Option.isSome_iff_exists.mp hall
  rw [Module.typesText?, htexts]
  rfl

theorem text?_eq (m : Module) : m.text? = do
    let types ← m.typesText?
    let functions ← m.functions.mapM (Function.text? m.types)
    return types ++ String.join (functions.map fun text => "\n" ++ text ++ "\n") := by
  have htypes : m.types.named.mapM (fun entry => m.listedText? entry.2) =
      m.types.named.mapM m.typeText? := mapM_congr fun _ => listedText?_eq
  have hfunctions : m.functions.mapM m.functionText? =
      (m.functions.mapM (Function.text? m.types)).map
        (List.map fun text => "\n" ++ text ++ "\n") := mapM_map_some _ _ _
  rw [Module.text?, Module.typesText?, htypes, hfunctions]
  cases m.types.named.mapM m.typeText? with
  | none => rfl
  | some types => cases m.functions.mapM (Function.text? m.types) <;> rfl

/-- What is written of the types that calls leave, whatever circles the named ones run in. -/
structure PrintsTypes (calls : List Call) : Prop where
  /-- An anonymous type refers to types that were made before it. -/
  earlier : ∀ id body, (after calls).slot? id = some ⟨none, body⟩ →
    ∀ ref ∈ body.refs, ref.index < id.index
  /-- Nothing is part of itself without end. -/
  ends : WellFounded (after calls).Part
  /-- The types with a text are those that were answered. -/
  ref : ∀ id, ((after calls).ref? id).isSome ↔ .type id ∈ (runCalls Call.apply calls .empty).1
  definition : ∀ id, ((after calls).definition? id).isSome ↔
    .type id ∈ (runCalls Call.apply calls .empty).1
  /-- The texts are those of a writer without fuel, of which there is one. -/
  ref_eq : ∀ id, (after calls).ref? id = (after calls).refVia? (after calls).definition? id
  definition_eq : ∀ id, (after calls).definition? id =
    ((after calls).body? id).bind (Ty.text? (after calls).ref?)
  unique : ∀ ref body, (∀ id, ref id = (after calls).refVia? body id) →
    (∀ id, body id = ((after calls).body? id).bind (Ty.text? ref)) →
      ref = (after calls).ref? ∧ body = (after calls).definition?
  /-- The index of the names has them as the slots do. -/
  index : (runCalls Tables.apply calls .empty).2.named = (after calls).named
  /-- Both listings give a type the same name and body. -/
  listed : ∀ name functions, ∀ entry ∈ (after calls).named, ∃ body,
    Lists ⟨name, after calls, functions⟩ entry body
  /-- A module is its types, and then each function after an empty line. -/
  module : ∀ name functions, ∃ types,
    Module.typesText? ⟨name, after calls, functions⟩ = some types ∧
      Module.text? ⟨name, after calls, functions⟩ =
      (functions.mapM (Function.text? (after calls))).map fun texts =>
        types ++ String.join (texts.map fun text => "\n" ++ text ++ "\n")

/-- Every type can be written that was made by calls which refer to types made before. -/
theorem Granted.prints_types {calls : List Call} (h : Granted calls) : PrintsTypes calls := by
  have hs := h.founded
  refine ⟨hs.earlier, hs.part_wellFounded, fun id => ?_, fun id => ?_, fun _ => rfl,
    hs.definition?_eq, fun _ _ => hs.text_unique, (Tables.Shows.empty.run .empty calls).2.named,
    fun name functions entry hentry => ?_, fun name functions => ?_⟩
  · rw [hs.ref?_isSome_iff, answered_iff]
  · rw [hs.definition?_isSome_iff, answered_iff]
  · exact Founded.exists_lists (m := ⟨name, after calls, functions⟩) hs hentry
  · have hsome := Founded.typesText?_isSome (m := ⟨name, after calls, functions⟩) hs
    obtain ⟨types, htypes⟩ := Option.isSome_iff_exists.mp hsome
    refine ⟨types, htypes, ?_⟩
    rw [text?_eq, htypes]
    cases functions.mapM (Function.text? (after calls)) <;> rfl

/-- A struct that holds a pointer to itself. -/
def nodeCalls : List Call :=
  [.declare "Node" .struct, .int 32, .pointerTo ⟨0⟩, .define ⟨0⟩ (.struct [⟨1⟩, ⟨2⟩])]

theorem nodeCalls_granted : Granted nodeCalls :=
  (((Granted.none.next (.declare "Node" .struct) (by decide +kernel)).next (.int 32)
    (by decide +kernel)).next (.pointerTo ⟨0⟩) (by decide +kernel)).next
      (.define ⟨0⟩ (.struct [⟨1⟩, ⟨2⟩])) (by decide +kernel)

theorem node_prints_types : Granted nodeCalls ∧ PrintsTypes nodeCalls ∧
    Module.text? ⟨"list", after nodeCalls, []⟩ =
      some "; module list\n%Node = type \x7b i32, %Node* \x7d\n" :=
  ⟨nodeCalls_granted, Granted.prints_types nodeCalls_granted, by decide +kernel⟩

end TypeStore

end Midend.Ir
