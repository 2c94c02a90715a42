import Midend.Proofs.Lookup
import Midend.Proofs.Undefined

/-!
# Midend.Proofs.Resolve

The declared types of a unit. Which declarations are admitted, which get a slot and which of these
stay pending is read off the declarations (`admitted`, `slotted`, `unpopulated`), and it is what
resolving them comes to (`Pass.resolveTypes_ok`).
-/

namespace Midend

open Ir

namespace Ir.TypeStore

/-- The named slots without a body. -/
def pendingNames (slots : List Slot) : List String :=
  slots.filterMap fun slot => if slot.body.isPending then slot.name else none

theorem pendingNames_append (a b : List Slot) :
    pendingNames (a ++ b) = pendingNames a ++ pendingNames b := List.filterMap_append

theorem pendingNames_eq_nil {slots : List Slot} (h : ∀ slot ∈ slots, slot.body.isPending = false) :
    pendingNames slots = [] := by
  refine List.filterMap_eq_nil_iff.mpr fun slot hslot => ?_
  simp [h slot hslot]

theorem pendingTypes_from (s : TypeStore) (before after : List Slot)
    (h : s.slots.toList = before ++ after) :
    ((namedFrom before.length after).filter fun entry =>
      (s.body? entry.2).any Ty.isPending).map (fun entry => Violation.pendingType entry.1) =
      (pendingNames after).map .pendingType := by
  induction after generalizing before with
  | nil => rfl
  | cons slot rest ih =>
    obtain ⟨name, body⟩ := slot
    have hget : s.body? ⟨before.length⟩ = some body := by
      have hslot : s.slot? ⟨before.length⟩ = some ⟨name, body⟩ := by
        rw [slot?_eq_toList, h]
        simp
      exact body?_of_slot? hslot
    have ih' := ih (before ++ [⟨name, body⟩]) (by rw [h, List.append_assoc]; rfl)
    rw [List.length_append, List.length_singleton] at ih'
    cases name with
    | none => simpa [namedFrom, pendingNames] using ih'
    | some name =>
      rw [namedFrom]
      cases hp : body.isPending with
      | true => simpa [hget, hp, pendingNames] using ih'
      | false => simpa [hget, hp, pendingNames] using ih'

theorem pendingTypes_eq (s : TypeStore) :
    s.pendingTypes = (pendingNames s.slots.toList).map .pendingType :=
  pendingTypes_from s [] s.slots.toList rfl

theorem exists_append_of_le {s t : TypeStore} (h : s ≤ t) :
    ∃ more, t.slots.toList = s.slots.toList ++ more ∧
      ∀ slot ∈ more, slot.body.isPending = false := by
  have hpre : s.slots.toList <+: t.slots.toList := by
    rw [List.prefix_iff_getElem?]
    intro i hi
    have hslot : s.slot? ⟨i⟩ = some s.slots.toList[i] := by
      rw [slot?_eq_toList]
      exact List.getElem?_eq_getElem hi
    rw [← @slot?_eq_toList t ⟨i⟩]
    exact slot?_le h hslot
  obtain ⟨more, hmore⟩ := hpre
  refine ⟨more, hmore.symm, fun slot hslot => ?_⟩
  obtain ⟨j, hj⟩ := List.mem_iff_getElem?.mp hslot
  cases hp : slot.body.isPending with
  | false => rfl
  | true =>
    have hget : t.slot? ⟨s.slots.toList.length + j⟩ = some slot := by
      rw [slot?_eq_toList, ← hmore, List.getElem?_append_right (by simp)]
      simpa using hj
    have hlt : s.slots.toList.length + j < s.slots.size := index_lt (h.pending _ _ hget hp)
    rw [Array.length_toList] at hlt
    omega

theorem pendingTypes_le {s t : TypeStore} (h : s ≤ t) : t.pendingTypes = s.pendingTypes := by
  obtain ⟨more, hmore, hnone⟩ := exists_append_of_le h
  rw [pendingTypes_eq, pendingTypes_eq, hmore, pendingNames_append, pendingNames_eq_nil hnone,
    List.append_nil]

theorem namedFrom_names (n : Nat) (slots : List Slot) :
    (namedFrom n slots).map Prod.fst = slots.filterMap Slot.name := by
  induction slots generalizing n with
  | nil => rfl
  | cons slot rest ih =>
    obtain ⟨name, body⟩ := slot
    cases name with
    | none => simpa [namedFrom] using ih (n + 1)
    | some name => simpa [namedFrom] using ih (n + 1)

theorem named_le {s t : TypeStore} (h : s ≤ t) :
    s.named.map Prod.fst <+: t.named.map Prod.fst := by
  obtain ⟨more, hmore, _⟩ := exists_append_of_le h
  rw [named, named, namedFrom_names, namedFrom_names, hmore, List.filterMap_append]
  exact List.prefix_append _ _

section

variable {s : TypeStore} {id : TypeId} {name : String} {old body : Ty}

theorem keeps_filled (h : s.slot? id = some ⟨some name, old⟩) : s.Keeps (s.filled id name body) :=
  ⟨fun n _ hn => (lookup?_filled h n).trans hn, fun b _ hb => (interned?_filled h b).trans hb⟩

theorem WF.filled (hs : s.WF) (h : s.slot? id = some ⟨some name, old⟩) (hb : body ≠ .void)
    (hrefs : ∀ ref ∈ body.refs, ref.index < s.size) : (s.filled id name body).WF := by
  have hcases := fun j slot (hget : (s.filled id name body).slot? j = some slot) =>
    slot?_filled_cases h hget
  have hsize : (s.filled id name body).size = s.size := by simp [TypeStore.filled, size]
  have hlinked : (s.filled id name body).Linked := hs.linked.filled h
  refine ⟨fun j b hget => ?_, fun j n b hget => ?_, hlinked.interned, hlinked.looked,
    fun j slot hget ref hr => ?_⟩
  · rcases hcases j _ hget with ⟨_, heq⟩ | hold
    · cases heq
    · exact hs.anonymous j b hold
  · rcases hcases j _ hget with ⟨_, heq⟩ | hold
    · cases heq
      exact hb
    · exact hs.named j n b hold
  · rw [hsize]
    rcases hcases j _ hget with ⟨_, rfl⟩ | hold
    · exact hrefs ref hr
    · exact hs.closed j slot hold ref hr

end

end Ir.TypeStore

/-- The declarations whose names are neither reserved nor taken by an earlier one. -/
def admitted (taken : List String) : List (TypeDecl × Span) → List (TypeDecl × Span)
  | [] => []
  | d :: rest =>
    if d.1.name ∈ reservedTypeNames ∨ d.1.name ∈ taken then admitted taken rest
    else d :: admitted (d.1.name :: taken) rest

/-- The declared types, with what they are declared as. -/
def declaredTypes (decls : List (TypeDecl × Span)) : Declared :=
  (admitted [] decls).map fun d => (d.1.name, d.1.type)

/-- The declarations that get a slot: their alias chains come to an end. -/
def slotted (decls : List (TypeDecl × Span)) : List (TypeDecl × Span) :=
  (admitted [] decls).filter fun d => (followAlias (declaredTypes decls) d.1.type).isSome

def slottedNames (decls : List (TypeDecl × Span)) : List String :=
  (slotted decls).map fun d => d.1.name

/-- The declarations whose types have an undefined name. -/
def unpopulated (decls : List (TypeDecl × Span)) : List (TypeDecl × Span) :=
  (slotted decls).filter fun d =>
    (d.1.undefined? (declaredTypes decls) (slottedNames decls)).isSome

theorem admitted_names (taken : List String) (decls : List (TypeDecl × Span)) :
    ((admitted taken decls).map fun d => d.1.name).Nodup ∧
      ∀ d ∈ admitted taken decls, d.1.name ∉ taken := by
  induction decls generalizing taken with
  | nil => simp [admitted]
  | cons d rest ih =>
    rw [admitted]
    split
    · exact ih taken
    · rename_i hnew
      rw [not_or] at hnew
      obtain ⟨hnodup, hnot⟩ := ih (d.1.name :: taken)
      refine ⟨?_, fun d' hd' => ?_⟩
      · rw [List.map_cons, List.nodup_cons]
        refine ⟨fun hmem => ?_, hnodup⟩
        obtain ⟨d', hd', heq⟩ := List.mem_map.mp hmem
        exact hnot d' hd' (by simp [heq])
      · rcases List.mem_cons.mp hd' with rfl | hd'
        · exact hnew.2
        · exact fun hmem => hnot d' hd' (List.mem_cons_of_mem _ hmem)

theorem admitted_sublist (taken : List String) (decls : List (TypeDecl × Span)) :
    (admitted taken decls).Sublist decls := by
  induction decls generalizing taken with
  | nil => exact .slnil
  | cons d rest ih =>
    rw [admitted]
    split
    · exact (ih _).cons _
    · exact (ih _).cons_cons _

/-- A declaration is admitted if it is the first of its name, which is not reserved. -/
theorem mem_admitted_iff (taken : List String) (decls : List (TypeDecl × Span))
    {d : TypeDecl × Span} : d ∈ admitted taken decls ↔
      d.1.name ∉ reservedTypeNames ∧ d.1.name ∉ taken ∧
        decls.find? (fun d' => d'.1.name = d.1.name) = some d := by
  induction decls generalizing taken with
  | nil => simp [admitted]
  | cons first rest ih =>
    rw [admitted, List.find?_cons]
    by_cases hname : first.1.name = d.1.name
    · simp only [hname, decide_true, Option.some.injEq]
      split
      · rename_i hskip
        rw [ih]
        constructor
        · rintro ⟨hreserved, htaken, _⟩
          exact absurd hskip (by simp [hreserved, htaken])
        · rintro ⟨hreserved, htaken, _⟩
          exact absurd hskip (by simp [hreserved, htaken])
      · rename_i hkeep
        rw [not_or] at hkeep
        rw [List.mem_cons, ih]
        constructor
        · rintro (rfl | ⟨_, htaken, _⟩)
          · exact ⟨hkeep.1, hkeep.2, rfl⟩
          · exact absurd (by simp) htaken
        · rintro ⟨_, _, rfl⟩
          exact .inl rfl
    · simp only [hname, decide_false]
      have hne : ¬ d.1.name = first.1.name := fun h => hname h.symm
      split
      · exact ih taken
      · rw [List.mem_cons, ih]
        constructor
        · rintro (rfl | ⟨hreserved, htaken, hfind⟩)
          · exact absurd rfl hname
          · exact ⟨hreserved, fun h => htaken (List.mem_cons_of_mem _ h), hfind⟩
        · rintro ⟨hreserved, htaken, hfind⟩
          exact .inr ⟨hreserved, by simp [hne, htaken], hfind⟩

/-- What a name is declared as: what its first declaration says, unless it is reserved. -/
theorem lookup_declaredTypes {decls : List (TypeDecl × Span)} {name : String} {t : TypeExpr} :
    (declaredTypes decls).lookup name = some t ↔ name ∉ reservedTypeNames ∧
      ∃ d, decls.find? (fun d => d.1.name = name) = some d ∧ d.1.type = t := by
  constructor
  · intro h
    obtain ⟨before, after, hsplit, _⟩ := List.lookup_eq_some_iff.mp h
    have hmem : (name, t) ∈ declaredTypes decls := by simp [hsplit]
    obtain ⟨d, hd, heq⟩ := List.mem_map.mp hmem
    obtain ⟨rfl, rfl⟩ : d.1.name = name ∧ d.1.type = t := by simpa using heq
    obtain ⟨hreserved, _, hfind⟩ := (mem_admitted_iff [] decls).mp hd
    exact ⟨hreserved, d, hfind, rfl⟩
  · rintro ⟨hreserved, d, hfind, rfl⟩
    obtain rfl : d.1.name = name := by simpa using List.find?_some hfind
    have hd : d ∈ admitted [] decls :=
      (mem_admitted_iff [] decls).mpr ⟨hreserved, by simp, hfind⟩
    refine lookup_of_mem ?_ (List.mem_map.mpr ⟨d, hd, rfl⟩)
    rw [declaredTypes, List.map_map]
    exact (admitted_names [] decls).1

/-- The errors of the declarations that are not admitted. -/
def admitErrors (taken : List String) : List (TypeDecl × Span) → List LowerError
  | [] => []
  | d :: rest =>
    if d.1.name ∈ reservedTypeNames then .reservedTypeName d.1.name d.2 :: admitErrors taken rest
    else if d.1.name ∈ taken then .duplicateDefinition d.1.name d.2 :: admitErrors taken rest
    else admitErrors (d.1.name :: taken) rest

/-- The error of a declaration whose alias chain has no end. -/
def loopError? (declared : Declared) (d : TypeDecl × Span) : Option LowerError :=
  if (followAlias declared d.1.type).isSome then none else some (.recursiveAlias d.1.name d.2)

/-- The error of a declaration whose type has an undefined name. -/
def undefinedError? (declared : Declared) (known : List String) (d : TypeDecl × Span) :
    Option LowerError :=
  (d.1.undefined? declared known).map fun u => .undefinedType u.1 u.2

/-- All errors of the declarations, in the order in which they are found. -/
def resolveErrors (decls : List (TypeDecl × Span)) : List LowerError :=
  admitErrors [] decls ++ (admitted [] decls).filterMap (loopError? (declaredTypes decls)) ++
    (slotted decls).filterMap (undefinedError? (declaredTypes decls) (slottedNames decls))

theorem admitErrors_plain (taken : List String) (decls : List (TypeDecl × Span)) :
    ∀ e ∈ admitErrors taken decls, e.Plain := by
  induction decls generalizing taken with
  | nil => simp [admitErrors]
  | cons d rest ih =>
    rw [admitErrors]
    split
    · exact List.forall_mem_cons.mpr ⟨by simp [LowerError.Plain], ih taken⟩
    · split
      · exact List.forall_mem_cons.mpr ⟨by simp [LowerError.Plain], ih taken⟩
      · exact ih _

theorem resolveErrors_plain (decls : List (TypeDecl × Span)) :
    ∀ e ∈ resolveErrors decls, e.Plain := by
  intro e he
  simp only [resolveErrors, List.mem_append, List.mem_filterMap] at he
  rcases he with (he | ⟨d, _, he⟩) | ⟨d, _, he⟩
  · exact admitErrors_plain [] decls e he
  · rw [loopError?] at he
    split at he
    · cases he
    · cases he
      simp [LowerError.Plain]
  · obtain ⟨u, _, rfl⟩ := Option.map_eq_some_iff.mp he
    simp [LowerError.Plain]

theorem admitted_eq_of_admitErrors (taken : List String) (decls : List (TypeDecl × Span))
    (h : admitErrors taken decls = []) : admitted taken decls = decls := by
  induction decls generalizing taken with
  | nil => rfl
  | cons d rest ih =>
    rw [admitErrors] at h
    rw [admitted]
    split at h
    · cases h
    · rename_i hreserved
      split at h
      · cases h
      · rename_i htaken
        rw [if_neg (by simp [hreserved, htaken]), ih _ h]

/-- The reported errors come after those that were there, and the verifier found none of them. -/
structure Reports (s s' : Session) (found : List LowerError) : Prop where
  errors : s'.errors = s.errors ++ found
  plain : ∀ e ∈ found, e.Plain

theorem Reports.nil {s s' : Session} (h : s'.errors = s.errors) : Reports s s' [] :=
  ⟨by rw [h, List.append_nil], by simp⟩

theorem Reports.trans {s s₁ s₂ : Session} {es es' : List LowerError} (h₁ : Reports s s₁ es)
    (h₂ : Reports s₁ s₂ es') : Reports s s₂ (es ++ es') := by
  refine ⟨by rw [h₂.errors, h₁.errors, List.append_assoc], fun e he => ?_⟩
  rcases List.mem_append.mp he with he | he
  · exact h₁.plain e he
  · exact h₂.plain e he

theorem Reports.one {s s' : Session} {e : LowerError} (h : s'.errors = s.errors ++ [e])
    (he : e.Plain) : Reports s s' [e] := by
  refine ⟨h, fun e' he' => ?_⟩
  obtain rfl : e' = e := by simpa using he'
  exact he

/-! ## Slots -/

/-- The slots of declared types, numbered from `n`, as they are before the bodies are there. -/
inductive Scaffold (declared : Declared) :
    Nat → List (TypeId × TypeDecl × Span) → List Slot → Prop where
  | nil {n : Nat} : Scaffold declared n [] []
  | cons {n : Nat} {decl : TypeDecl} {span : Span} {shape : Shape}
      {rest : List (TypeId × TypeDecl × Span)} {slots : List Slot} :
      shapeOf declared decl.type = .ok (some shape) → Scaffold declared (n + 1) rest slots →
      Scaffold declared n ((⟨n⟩, decl, span) :: rest) (⟨some decl.name, .pending shape⟩ :: slots)

theorem Scaffold.names {declared : Declared} {n : Nat} {todo : List (TypeId × TypeDecl × Span)}
    {slots : List Slot} (h : Scaffold declared n todo slots) :
    slots.filterMap Slot.name = todo.map fun d => d.2.1.name := by
  induction h with
  | nil => rfl
  | cons _ _ ih => simp [ih]

/-- The slot of a declared type when the bodies are there: it stays pending if its type has an
undefined name, and has the body of the end of its alias chain otherwise. -/
inductive Filled (wordBits : Nat) (declared : Declared) (known : List String) (s : TypeStore) :
    TypeDecl → Slot → Prop where
  | body {decl : TypeDecl} {last : TypeExpr} {body : Ty} :
      decl.undefined? declared known = none → followAlias declared decl.type = some last →
      last.bodyIn? s wordBits = some body →
      Filled wordBits declared known s decl ⟨some decl.name, body⟩
  | pending {decl : TypeDecl} {u : String × Span} {shape : Shape} :
      decl.undefined? declared known = some u → shapeOf declared decl.type = .ok (some shape) →
      Filled wordBits declared known s decl ⟨some decl.name, .pending shape⟩

section

variable {wordBits : Nat} {declared : Declared} {known : List String} {s t : TypeStore}

theorem Filled.keeps {decl : TypeDecl} {slot : Slot}
    (h : Filled wordBits declared known s decl slot) (hle : s.Keeps t) :
    Filled wordBits declared known t decl slot := by
  cases h with
  | body hnone hlast hbody => exact .body hnone hlast (TypeExpr.bodyIn?_keeps hle hbody)
  | pending hsome hshape => exact .pending hsome hshape

theorem Filled.name {decl : TypeDecl} {slot : Slot}
    (h : Filled wordBits declared known s decl slot) : slot.name = some decl.name := by
  cases h <;> rfl

theorem Filled.isPending {decl : TypeDecl} {slot : Slot}
    (h : Filled wordBits declared known s decl slot) :
    slot.body.isPending = (decl.undefined? declared known).isSome := by
  cases h with
  | body hnone _ hbody =>
    rw [hnone]
    exact (TypeExpr.has_of_bodyIn? hbody).2.1
  | pending hsome _ =>
    rw [hsome]
    rfl

theorem pendingNames_filled {todo : List TypeDecl} {slots : List Slot}
    (h : List.Forall₂ (Filled wordBits declared known s) todo slots) :
    TypeStore.pendingNames slots =
      (todo.filter fun d => (d.undefined? declared known).isSome).map TypeDecl.name := by
  induction h with
  | nil => rfl
  | @cons decl slot todo slots hd _ ih =>
    rw [TypeStore.pendingNames] at ih ⊢
    rw [List.filterMap_cons, hd.isPending, hd.name, ih]
    cases h : decl.undefined? declared known <;> simp [h]

end

namespace Pass

theorem admitTypes_run (taken : List String) (decls : List (TypeDecl × Span)) (s : Session) :
    runOn (admitTypes taken decls) s =
      (.ok (admitted taken decls), ⟨s.types, s.errors ++ admitErrors taken decls⟩) := by
  induction decls generalizing taken s with
  | nil => simp [admitTypes, admitted, admitErrors]
  | cons d rest ih =>
    obtain ⟨decl, span⟩ := d
    rw [admitTypes, admitted, admitErrors]
    by_cases hreserved : decl.name ∈ reservedTypeNames
    · rw [if_pos hreserved, if_pos (.inl hreserved), if_pos hreserved,
        runOn_bind_ok (runOn_report _ s), ih]
      simp
    · rw [if_neg hreserved]
      by_cases htaken : decl.name ∈ taken
      · rw [if_pos htaken, if_pos (.inr htaken), if_neg hreserved, if_pos htaken,
          runOn_bind_ok (runOn_report _ s), ih]
        simp
      · rw [if_neg htaken, if_neg (by simp [hreserved, htaken]), if_neg hreserved, if_neg htaken,
          runOn_bind_ok (ih (decl.name :: taken) s)]
        rfl

/-- A type whose shape was found comes to the end of its alias chain. -/
theorem followAlias_of_shapeOf {declared : Declared} {t : TypeExpr} {shape? : Option Shape}
    (h : shapeOf declared t = .ok shape?) :
    (followAlias declared t).isSome = shape?.isSome := by
  unfold shapeOf at h
  split at h
  · rename_i hnone
    cases h
    rw [hnone]
    rfl
  · rename_i hsome
    rw [hsome]
    split at h <;> cases h <;> rfl
  · rename_i hsome
    rw [hsome]
    split at h <;> cases h
    rfl
  · rename_i hsome
    cases h
    rw [hsome]
    rfl
  · rename_i hsome
    cases h
    rw [hsome]
    rfl
  · cases h

theorem scaffoldTypes_comes (declared : Declared) (decls : List (TypeDecl × Span)) {s : Session}
    (hs : s.types.WF) (hnodup : (decls.map fun d => d.1.name).Nodup)
    (hnew : ∀ d ∈ decls, d.1.name ∉ s.types.names) :
    (scaffoldTypes declared decls).Comes s fun slots s' =>
      s'.types.WF ∧ s'.errors = s.errors ++ decls.filterMap (loopError? declared) ∧
      (∃ new, Scaffold declared s.types.size slots new ∧
        s'.types.slots.toList = s.types.slots.toList ++ new) ∧
      slots.map Prod.snd = decls.filter fun d => (followAlias declared d.1.type).isSome := by
  induction decls generalizing s with
  | nil => exact .pure ⟨hs, by simp, ⟨[], .nil, by simp⟩, rfl⟩
  | cons d rest ih =>
    obtain ⟨decl, span⟩ := d
    rw [List.map_cons, List.nodup_cons] at hnodup
    rw [scaffoldTypes]
    cases hshape : shapeOf declared decl.type with
    | error u => exact .abort
    | ok shape? =>
      have hend := followAlias_of_shapeOf hshape
      cases shape? with
      | none =>
        refine .next (runOn_report _ s) ?_
        refine (ih (s := ⟨s.types, s.errors ++ [.recursiveAlias decl.name span]⟩) hs hnodup.2
          fun d hd => hnew d (List.mem_cons_of_mem _ hd)).mono ?_
        rintro slots s' ⟨hw, herrors, hslots, hmap⟩
        refine ⟨hw, ?_, hslots, ?_⟩
        · rw [herrors]
          simp [loopError?, hend]
        · rw [hmap, List.filter_cons_of_neg (by simp [hend])]
      | some shape =>
        have hfree := TypeStore.lookup?_eq_none (hnew (decl, span) (by simp))
        refine .next (runOn_get s) ?_
        simp only [TypeStore.declare_of_none shape hfree]
        refine .next (runOn_set _ s) ?_
        refine (ih (hs.push_named (by simp) hfree (by simp [Ty.refs])) hnodup.2
          fun d hd => ?_).bind ?_
        · have hname : d.1.name ≠ decl.name := by
            intro heq
            exact hnodup.1 (List.mem_map.mpr ⟨d, hd, heq⟩)
          simpa [TypeStore.names, TypeStore.push, hname] using
            hnew d (List.mem_cons_of_mem _ hd)
        · rintro slots s₁ - ⟨hw, herrors, ⟨new, hscaffold, hslots⟩, hmap⟩
          rw [TypeStore.size_push] at hscaffold
          refine .pure ⟨hw, ?_, ⟨_, .cons hshape hscaffold, ?_⟩, ?_⟩
          · rw [herrors]
            simp [loopError?, hend]
          · rw [hslots]
            simp [TypeStore.push]
          · rw [List.map_cons, hmap, List.filter_cons_of_pos (by simp [hend])]

theorem recover_bodyOf {wordBits : Nat} {declared : Declared} {known : List String}
    {decl : TypeDecl} {span : Span} {s : Session} (hs : s.types.WF)
    (hknown : s.types.names = known) (hdeclared : ∀ name ∈ known, (declared.lookup name).isSome)
    (hshape : (followAlias declared decl.type).isSome) :
    (recover (bodyOf wordBits declared decl span)).Comes s fun r s' =>
      s.types ≤ s'.types ∧ s'.types.WF ∧ s'.types.names = known ∧
        s'.errors = s.errors ++ (undefinedError? declared known (decl, span)).toList ∧
        match r with
        | some body => decl.undefined? declared known = none ∧
            ∃ last, followAlias declared decl.type = some last ∧
              last.bodyIn? s'.types wordBits = some body
        | none => (decl.undefined? declared known).isSome := by
  obtain ⟨hnames, houtcome⟩ := Typing.bodyOf_finds wordBits decl span hknown hdeclared hshape
  rcases (@Typing.bodyOf_found declared _ wordBits decl span hs).cases with
    ⟨body, types, hbody, hle, hw, hp, _⟩ | ⟨f, types, hbody, hle, hw, htame⟩
  · rw [hbody] at hnames houtcome
    have hnone : decl.undefined? declared known = none := houtcome
    refine .inl ⟨some body, ⟨types, s.errors⟩, by rw [runOn_recover, hbody], hle, hw,
      hnames.trans hknown, ?_, hnone, hp⟩
    simp [undefinedError?, hnone]
  · rw [hbody] at hnames houtcome
    cases f with
    | report e =>
      obtain ⟨name, at_, hundefined, rfl⟩ := houtcome
      refine .inl ⟨none, ⟨types, s.errors ++ [.undefinedType name at_]⟩,
        by rw [runOn_recover, hbody], hle, hw, hnames.trans hknown, ?_, ?_⟩
      · simp [undefinedError?, hundefined]
      · simp [hundefined]
    | abort u => exact .inr ⟨_, _, by rw [runOn_recover, hbody], htame⟩
    | breach b => exact htame.elim

theorem run_define {declared : Declared} {wordBits : Nat} {decl : TypeDecl} {last : TypeExpr}
    {shape : Shape} {body : Ty} {s : Session} {before after : List Slot} (hs : s.types.WF)
    (hslots : s.types.slots.toList = before ++ ⟨some decl.name, .pending shape⟩ :: after)
    (hshape : shapeOf declared decl.type = .ok (some shape))
    (hlast : followAlias declared decl.type = some last)
    (hbody : last.bodyIn? s.types wordBits = some body) :
    ∃ s', runOn (define ⟨before.length⟩ body) s = (.ok (), s') ∧ s'.types.WF ∧
      s'.types.names = s.types.names ∧ s.types.Keeps s'.types ∧ s'.errors = s.errors ∧
      s'.types.slots.toList = before ++ ⟨some decl.name, body⟩ :: after := by
  have hat : s.types.slot? ⟨before.length⟩ = some ⟨some decl.name, .pending shape⟩ := by
    rw [TypeStore.slot?_eq_toList, hslots]
    simp
  obtain ⟨hvoid, _, hrefs⟩ := TypeExpr.has_of_bodyIn? hbody
  have hslots' : (s.types.filled ⟨before.length⟩ decl.name body).slots.toList =
      before ++ ⟨some decl.name, body⟩ :: after := by
    simp only [TypeStore.filled, Array.toList_setIfInBounds]
    rw [hslots]
    simp
  refine ⟨⟨s.types.filled ⟨before.length⟩ decl.name body, s.errors⟩, ?_,
    hs.filled hat hvoid fun ref hr => (hrefs ref hr).index_lt, ?_, TypeStore.keeps_filled hat, rfl,
    hslots'⟩
  · rw [define, runOn_bind_ok (runOn_get s),
      TypeStore.define_of_pending hat (shape_of_bodyIn? hshape hlast hbody)]
    rfl
  · simp [TypeStore.names, hslots', hslots]

/-- The slots of the declarations `todo` are done with: they stand between those that come before
and after them, and there may be more slots at the end. -/
structure Populated (wordBits : Nat) (declared : Declared) (known : List String)
    (todo : List (TypeId × TypeDecl × Span)) (before after : List Slot)
    (s s' : Session) : Prop where
  wf : s'.types.WF
  names : s'.types.names = known
  keeps : s.types.Keeps s'.types
  errors : s'.errors = s.errors ++ todo.filterMap fun d => undefinedError? declared known d.2
  slots : ∃ filled more,
    List.Forall₂ (Filled wordBits declared known s'.types) (todo.map fun d => d.2.1) filled ∧
    s'.types.slots.toList = before ++ filled ++ after ++ more ∧
    ∀ slot ∈ more, slot.body.isPending = false

theorem Populated.nil {wordBits : Nat} {declared : Declared} {known : List String} {s : Session}
    {before after : List Slot} (hs : s.types.WF) (hknown : s.types.names = known)
    (hslots : s.types.slots.toList = before ++ after) :
    Populated wordBits declared known [] before after s s where
  wf := hs
  names := hknown
  keeps := .refl _
  errors := by simp
  slots := ⟨[], [], .nil, by simpa using hslots, by simp⟩

/-- The first slot is done with at `s₁`, and the others at `s'`. -/
theorem Populated.cons {wordBits : Nat} {declared : Declared} {known : List String}
    {todo : List (TypeId × TypeDecl × Span)} {before after more : List Slot} {s s₁ s' : Session}
    {id : TypeId} {decl : TypeDecl} {span : Span} {slot : Slot}
    (h : Populated wordBits declared known todo (before ++ [slot]) (after ++ more) s₁ s')
    (hkeeps : s.types.Keeps s₁.types)
    (herrors : s₁.errors = s.errors ++ (undefinedError? declared known (decl, span)).toList)
    (hslot : Filled wordBits declared known s₁.types decl slot)
    (hmore : ∀ slot ∈ more, slot.body.isPending = false) :
    Populated wordBits declared known ((id, decl, span) :: todo) before after s s' := by
  obtain ⟨filled, more', hfilled, hslots, hmore'⟩ := h.slots
  refine ⟨h.wf, h.names, hkeeps.trans h.keeps, ?_, slot :: filled, more ++ more',
    .cons (hslot.keeps h.keeps) hfilled, ?_, fun slot' hslot' => ?_⟩
  · rw [h.errors, herrors]
    cases hfound : undefinedError? declared known (decl, span) <;> simp [hfound]
  · rw [hslots]
    simp
  · rcases List.mem_append.mp hslot' with hin | hin
    · exact hmore slot' hin
    · exact hmore' slot' hin

/-- The slots of the declarations that are still to be filled in follow those that are done with. -/
theorem populateTypes_comes {wordBits : Nat} {declared : Declared} {known : List String}
    (hdeclared : ∀ name ∈ known, (declared.lookup name).isSome) {n : Nat}
    {todo : List (TypeId × TypeDecl × Span)} {slots : List Slot}
    (hscaffold : Scaffold declared n todo slots) {s : Session} {before after : List Slot}
    (hn : before.length = n) (hs : s.types.WF) (hknown : s.types.names = known)
    (hslots : s.types.slots.toList = before ++ slots ++ after) :
    (populateTypes wordBits declared todo).Comes s fun _ s' =>
      Populated wordBits declared known todo before after s s' := by
  induction hscaffold generalizing s before after with
  | nil => exact .pure (.nil hs hknown (by simpa using hslots))
  | @cons n decl span shape rest slots hshape _ ih =>
    subst hn
    have hend : (followAlias declared decl.type).isSome := by
      rw [followAlias_of_shapeOf hshape]
      rfl
    rw [populateTypes]
    refine (recover_bodyOf hs hknown hdeclared hend).bind ?_
    rintro r s₁ - ⟨hle, hw, hnames, herrors, hr⟩
    have hkeeps : s.types.Keeps s₁.types := .of_le hle
    obtain ⟨more, hmore, hpending⟩ := TypeStore.exists_append_of_le hle
    have hslots₁ : s₁.types.slots.toList =
        before ++ ⟨some decl.name, .pending shape⟩ :: (slots ++ (after ++ more)) := by
      rw [hmore, hslots]
      simp
    cases r with
    | none =>
      obtain ⟨u, hu⟩ := Option.isSome_iff_exists.mp hr
      have hslots₂ : s₁.types.slots.toList =
          before ++ [⟨some decl.name, .pending shape⟩] ++ slots ++ (after ++ more) := by
        simpa using hslots₁
      refine (ih (by simp) hw hnames hslots₂).mono fun _ s' h => ?_
      exact h.cons hkeeps herrors (.pending hu hshape) hpending
    | some body =>
      obtain ⟨hundefined, last, hlast, hbody⟩ := hr
      obtain ⟨s₂, hdefine, hw₂, hnames₂, hkeeps₂, herrors₂, hslots₂⟩ :=
        run_define hw hslots₁ hshape hlast hbody
      have hslots₃ : s₂.types.slots.toList =
          before ++ [⟨some decl.name, body⟩] ++ slots ++ (after ++ more) := by
        simpa using hslots₂
      refine .next hdefine ?_
      refine (ih (by simp) hw₂ (hnames₂.trans hnames) hslots₃).mono fun _ s' h => ?_
      exact h.cons (hkeeps.trans hkeeps₂) (herrors₂.trans herrors)
        (.body hundefined hlast (TypeExpr.bodyIn?_keeps hkeeps₂ hbody)) hpending

end Pass

theorem getElem?_of_forall₂ {α β : Type} {R : α → β → Prop} {l₁ : List α} {l₂ : List β}
    (h : List.Forall₂ R l₁ l₂) {i : Nat} {a : α} (ha : l₁[i]? = some a) :
    ∃ b, l₂[i]? = some b ∧ R a b := by
  induction h generalizing i with
  | nil => simp at ha
  | @cons a' b' l₁ l₂ hab _ ih =>
    cases i with
    | zero =>
      obtain rfl : a' = a := by simpa using ha
      exact ⟨b', rfl, hab⟩
    | succ i => exact ih (by simpa using ha)

theorem slottedNames_declared {decls : List (TypeDecl × Span)} {name : String}
    (h : name ∈ slottedNames decls) : ((declaredTypes decls).lookup name).isSome := by
  obtain ⟨d, hd, rfl⟩ := List.mem_map.mp h
  have hadmitted := (List.mem_filter.mp hd).1
  refine List.lookup_isSome_iff.mpr ⟨_, List.mem_map.mpr ⟨d, hadmitted, rfl⟩, by simp⟩

/-- The types of a unit after its declarations have been resolved. -/
structure Resolved (wordBits : Nat) (decls : List (TypeDecl × Span)) (s : Session) : Prop where
  wf : s.types.WF
  names : s.types.names = slottedNames decls
  errors : s.errors = resolveErrors decls
  pending : s.types.pendingTypes = (unpopulated decls).map fun d => .pendingType d.1.name
  filled : ∀ d ∈ slotted decls, ∃ id slot, s.types.lookup? d.1.name = some id ∧
    s.types.slot? id = some slot ∧
    Filled wordBits (declaredTypes decls) (slottedNames decls) s.types d.1 slot

namespace Resolved

variable {wordBits : Nat} {decls : List (TypeDecl × Span)} {s : Session}

theorem reported (h : Resolved wordBits decls s) : ∀ d ∈ slotted decls,
    ∀ u ∈ d.1.undefined? (declaredTypes decls) (slottedNames decls),
      LowerError.undefinedType u.1 u.2 ∈ s.errors := by
  intro d hd u hu
  rw [h.errors, resolveErrors]
  refine List.mem_append_right _ (List.mem_filterMap.mpr ⟨d, hd, ?_⟩)
  rw [undefinedError?, Option.mem_def.mp hu]
  rfl

theorem admitted (h : Resolved wordBits decls s) (herr : s.errors = []) :
    admitted [] decls = decls := by
  rw [h.errors, resolveErrors, List.append_eq_nil_iff, List.append_eq_nil_iff] at herr
  exact admitted_eq_of_admitErrors [] decls herr.1.1

end Resolved

theorem Pass.resolveTypes_comes (wordBits : Nat) (decls : List (TypeDecl × Span)) :
    (Pass.resolveTypes wordBits decls).Comes ⟨.empty, []⟩ fun declared s' =>
      declared = declaredTypes decls ∧ Resolved wordBits decls s' := by
  refine .next (admitTypes_run [] decls _) ?_
  refine (scaffoldTypes_comes (declaredTypes decls) (admitted [] decls) .empty
    (admitted_names [] decls).1 (by simp [TypeStore.names, TypeStore.empty])).bind ?_
  rintro slots s₂ - ⟨hw₂, herrors₂, ⟨new, hscaffold, hslots⟩, hmap⟩
  have hsize : TypeStore.empty.size = 0 := rfl
  have hempty : TypeStore.empty.slots.toList = [] := rfl
  rw [hsize] at hscaffold
  rw [hempty, List.nil_append] at hslots
  have hmap' : slots.map Prod.snd = slotted decls := hmap
  have hknown : s₂.types.names = slottedNames decls := by
    rw [TypeStore.names, hslots, hscaffold.names, slottedNames, ← hmap', List.map_map]
    rfl
  have hslots₂ : s₂.types.slots.toList = [] ++ new ++ [] := by simpa using hslots
  refine (populateTypes_comes (fun name => slottedNames_declared) hscaffold List.length_nil hw₂
    hknown hslots₂).bind ?_
  rintro _ s₃ - ⟨hw₃, hnames₃, _, herrors₃, filled, more, hfilled, hslots₃, hmore⟩
  have hdecls : (slots.map fun d => d.2.1) = (slotted decls).map Prod.fst := by
    rw [← hmap', List.map_map]
    rfl
  rw [hdecls] at hfilled
  refine .pure ⟨rfl, hw₃, hnames₃, ?_, ?_, fun d hd => ?_⟩
  · rw [herrors₃, herrors₂, resolveErrors, ← hmap', List.filterMap_map]
    rfl
  · rw [TypeStore.pendingTypes_eq, hslots₃]
    simp only [List.nil_append, List.append_nil]
    rw [TypeStore.pendingNames_append, pendingNames_filled hfilled,
      TypeStore.pendingNames_eq_nil hmore, List.append_nil, unpopulated, List.filter_map]
    simp [Function.comp_def]
  · obtain ⟨i, hi⟩ := List.mem_iff_getElem?.mp hd
    obtain ⟨slot, hslot, hfill⟩ := getElem?_of_forall₂ hfilled (i := i) (a := d.1) (by simp [hi])
    have hget : s₃.types.slot? ⟨i⟩ = some slot := by
      obtain ⟨hlt, _⟩ := List.getElem?_eq_some_iff.mp hslot
      rw [TypeStore.slot?_eq_toList, hslots₃]
      simp only [List.nil_append, List.append_nil]
      rw [List.getElem?_append_left hlt]
      exact hslot
    refine ⟨⟨i⟩, slot, ?_, hget, hfill⟩
    obtain ⟨name, body⟩ := slot
    obtain rfl : name = some d.1.name := hfill.name
    exact hw₃.looked _ _ _ hget

end Midend
