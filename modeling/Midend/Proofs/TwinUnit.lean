import Midend.Proofs.Reorder
import Midend.Proofs.Signed
import Midend.Proofs.TwinTyping

/-!
# Midend.Proofs.TwinUnit

Units with the same declarations in another order. Their types come to twin stores
(`Resolved.twin`), and each of their functions is registered in both, with the same signature, or
has an error that does not depend on the order either (`signatureErrors_perm`).
-/

namespace Midend

open Ir Ir.TypeStore

section

variable {s t : TypeStore} {wordBits : Nat}

theorem BasicKind.matches_bodyIn? {kind : BasicKind} {a b : Ty}
    (ha : kind.bodyIn? s wordBits = some a) (hb : kind.bodyIn? t wordBits = some b) :
    a.Matches (Alike s t) b := by
  have hcomplex : ∀ k, (s.interned? (.float k)).map (fun part => Ty.struct [part, part]) = some a →
      (t.interned? (.float k)).map (fun part => Ty.struct [part, part]) = some b →
      a.Matches (Alike s t) b := by
    intro k ha hb
    obtain ⟨part, hpart, rfl⟩ := Option.map_eq_some_iff.mp ha
    obtain ⟨part', hpart', rfl⟩ := Option.map_eq_some_iff.mp hb
    have hparts := alike_of_interned? hpart hpart' (.float k)
    exact .struct (.cons hparts (.cons hparts .nil))
  cases kind with
  | complex64 => exact hcomplex _ ha hb
  | complex128 => exact hcomplex _ ha hb
  | string => exact matches_string ha hb
  | bool | int | int8 | int16 | int32 | int64 | uint | uint8 | uint16 | uint32 | uint64 | uintptr
  | unsafePointer =>
    cases ha
    cases hb
    exact .int _
  | float32 | float64 =>
    cases ha
    cases hb
    exact .float _
  | invalid | untypedBool | untypedInt | untypedRune | untypedFloat | untypedComplex
  | untypedString | untypedNil => cases ha

theorem BasicKind.alike_idIn? {kind : BasicKind} {i j : TypeId}
    (hi : kind.idIn? s wordBits = some i) (hj : kind.idIn? t wordBits = some j) :
    Alike s t i j := by
  obtain ⟨a, ha, hi⟩ := Option.bind_eq_some_iff.mp hi
  obtain ⟨b, hb, hj⟩ := Option.bind_eq_some_iff.mp hj
  exact alike_of_interned? hi hj (matches_bodyIn? ha hb)

namespace TypeExpr

mutual

theorem alike_idIn? (e : TypeExpr) {i j : TypeId} (hi : e.idIn? s wordBits = some i)
    (hj : e.idIn? t wordBits = some j) : Alike s t i j := by
  cases e with
  | ident span name =>
    rw [idIn?] at hi hj
    cases hkind : BasicKind.ofName? name with
    | some kind =>
      rw [hkind] at hi hj
      exact BasicKind.alike_idIn? hi hj
    | none =>
      rw [hkind] at hi hj
      exact alike_of_lookup? hi hj
  | qualified span package name =>
    rw [idIn?] at hi hj
    split at hi
    · rename_i hunsafe
      rw [if_pos hunsafe] at hj
      exact alike_of_interned? hi hj (.int wordBits)
    · cases hi
  | pointer span elem =>
    rw [idIn?] at hi hj
    obtain ⟨x, hx, hi⟩ := Option.bind_eq_some_iff.mp hi
    obtain ⟨y, hy, hj⟩ := Option.bind_eq_some_iff.mp hj
    exact alike_of_interned? hi hj (.pointer (alike_idIn? elem hx hy))
  | struct span fields =>
    rw [idIn?] at hi hj
    obtain ⟨xs, hxs, hi⟩ := Option.bind_eq_some_iff.mp hi
    obtain ⟨ys, hys, hj⟩ := Option.bind_eq_some_iff.mp hj
    exact alike_of_interned? hi hj (.struct (alike_idsIn? fields hxs hys))
  | array | map | func | interface =>
    rw [idIn?] at hi
    cases hi

theorem alike_idsIn? (fields : List Field) {is js : List TypeId}
    (hi : idsIn? s wordBits fields = some is) (hj : idsIn? t wordBits fields = some js) :
    List.Forall₂ (Alike s t) is js := by
  cases fields with
  | nil =>
    rw [idsIn?] at hi hj
    cases hi
    cases hj
    exact .nil
  | cons field rest =>
    obtain ⟨names, type, span⟩ := field
    simp only [idsIn?, Option.bind_eq_bind, Option.bind_eq_some_iff] at hi hj
    obtain ⟨i, hi, is, his, hall⟩ := hi
    obtain ⟨j, hj, js, hjs, hall'⟩ := hj
    cases hall
    cases hall'
    exact Typing.forall₂_replicate_append _ (alike_idIn? type hi hj) (alike_idsIn? rest his hjs)

end

theorem matches_bodyIn? {e : TypeExpr} {a b : Ty} (ha : e.bodyIn? s wordBits = some a)
    (hb : e.bodyIn? t wordBits = some b) : a.Matches (Alike s t) b := by
  cases e with
  | ident span name =>
    obtain ⟨kind, hkind, ha⟩ := Option.bind_eq_some_iff.mp ha
    rw [bodyIn?, hkind] at hb
    exact BasicKind.matches_bodyIn? ha hb
  | qualified span package name =>
    rw [bodyIn?] at ha hb
    split at ha
    · rename_i hunsafe
      rw [if_pos hunsafe] at hb
      cases ha
      cases hb
      exact .int _
    · cases ha
  | pointer span elem =>
    obtain ⟨i, hi, rfl⟩ := Option.map_eq_some_iff.mp ha
    obtain ⟨j, hj, rfl⟩ := Option.map_eq_some_iff.mp hb
    exact .pointer (alike_idIn? elem hi hj)
  | struct span fields =>
    obtain ⟨is, his, rfl⟩ := Option.map_eq_some_iff.mp ha
    obtain ⟨js, hjs, rfl⟩ := Option.map_eq_some_iff.mp hb
    exact .struct (alike_idsIn? fields his hjs)
  | array | map | func | interface => cases ha

end TypeExpr

end

/-! ## Declared types and functions -/

namespace Resolved

variable {wordBits : Nat} {decls decls' : List (TypeDecl × Span)} {s s' : Session}

theorem slot_filled (h : Resolved wordBits decls s) {i : TypeId} {name : String} {a : Ty}
    (hi : s.types.slot? i = some ⟨some name, a⟩) : ∃ d ∈ slotted decls, d.1.name = name ∧
      Filled wordBits (declaredTypes decls) (slottedNames decls) s.types d.1 ⟨some name, a⟩ := by
  have hlook := h.wf.looked i name a hi
  have hname : name ∈ slottedNames decls := by
    rw [← h.names, ← lookup?_isSome, hlook]
    rfl
  obtain ⟨d, hd, rfl⟩ := List.mem_map.mp hname
  obtain ⟨j, slot, hlook', hslot, hfilled⟩ := h.filled d hd
  rw [hlook] at hlook'
  cases hlook'
  rw [hi] at hslot
  cases hslot
  exact ⟨d, hd, rfl, hfilled⟩

theorem regular (h : Resolved wordBits decls s) : s.types.Regular where
  wf := h.wf
  untyped i name a hi hname := by
    obtain ⟨d, hd, rfl, _⟩ := h.slot_filled hi
    obtain ⟨hreserved, _⟩ := (mem_admitted_iff [] decls).mp (List.mem_filter.mp hd).1
    exact absurd hname hreserved

theorem twin (h : Resolved wordBits decls s) (h' : Resolved wordBits decls' s')
    (hperm : decls.Perm decls') (hnodup : (decls.map fun d => d.1.name).Nodup) :
    Twin (fun _ => True) s.types s'.types where
  left := h.regular
  right := h'.regular
  covers _ _ := trivial
  known name _ := by
    rw [lookup?_isSome, lookup?_isSome, h.names, h'.names]
    exact (slottedNames_perm hperm hnodup).mem_iff
  bodies i j name a b hi hj := by
    obtain ⟨d, hd, hname, hfilled⟩ := h.slot_filled hi
    obtain ⟨d', hd', hname', hfilled'⟩ := h'.slot_filled hj
    have hmem := (slotted_perm hperm hnodup).mem_iff.mpr hd'
    obtain rfl : d = d' := by
      obtain ⟨_, _, hfind⟩ := (mem_admitted_iff [] decls).mp (List.mem_filter.mp hd).1
      obtain ⟨_, _, hfind'⟩ := (mem_admitted_iff [] decls).mp (List.mem_filter.mp hmem).1
      rw [hname, ← hname', hfind'] at hfind
      exact (Option.some.inj hfind).symm
    have hundefined := undefined?_perm hperm hnodup d.1
    cases hfilled with
    | body hnone hlast ha =>
      cases hfilled' with
      | body _ hlast' hb =>
        rw [followAlias_perm hperm hnodup, hlast'] at hlast
        cases hlast
        exact TypeExpr.matches_bodyIn? ha hb
      | pending hsome =>
        rw [hundefined, hsome] at hnone
        cases hnone
    | pending hsome hshape =>
      cases hfilled' with
      | body hnone =>
        rw [hundefined, hnone] at hsome
        cases hsome
      | pending _ hshape' =>
        rw [shapeOf_congr (lookup_declaredTypes_perm hperm hnodup), hshape'] at hshape
        cases hshape
        exact .pending _

end Resolved

def FuncDecl.undefined? (known : List String) (decl : FuncDecl) : Option (String × Span) :=
  (TypeExpr.undefinedField? known decl.params).or (TypeExpr.undefinedField? known decl.results)

/-- The errors that belong to the signature of a function, if functions have distinct names. -/
def signatureErrors (decls : List (TypeDecl × Span)) (decl : FuncDecl) : List LowerError :=
  ((decl.undefined? (slottedNames decls)).map fun u => LowerError.undefinedType u.1 u.2).toList

theorem signatureErrors_perm {decls decls' : List (TypeDecl × Span)} (hperm : decls.Perm decls')
    (hnodup : (decls.map fun d => d.1.name).Nodup) {decl decl' : FuncDecl}
    (hparams : decl.params = decl'.params) (hresults : decl.results = decl'.results) :
    signatureErrors decls decl = signatureErrors decls' decl' := by
  have hsame : TypeExpr.undefinedField? (slottedNames decls) =
      TypeExpr.undefinedField? (slottedNames decls') :=
    funext (TypeExpr.undefinedField?_congr fun _ => (slottedNames_perm hperm hnodup).mem_iff)
  simp only [signatureErrors, FuncDecl.undefined?, hsame, hparams, hresults]

theorem Typing.signatureOf_finds {known : List String} (wordBits : Nat) (decl : FuncDecl)
    {s : TypeStore} (hknown : s.names = known) :
    (signatureOf wordBits decl).Finds s (decl.undefined? known) := by
  refine (ofFields_finds wordBits decl.params hknown).bind fun params s₁ hnames => ?_
  rw [← Option.or_none (o := TypeExpr.undefinedField? known decl.results)]
  refine (ofFields_finds wordBits decl.results (hnames.trans hknown)).bind fun results s₂ _ => ?_
  rcases results with _ | ⟨result, _ | ⟨second, rest⟩⟩
  · exact (intern_finds .void).bind fun _ _ _ => .pure
  · exact .pure
  · exact (intern_finds _).bind fun _ _ _ => .pure

namespace Pass

variable {wordBits : Nat} {decls : List (TypeDecl × Span)}

theorem recover_signatureOf_finds {decl : FuncDecl} {s : Session} (hs : s.types.Regular)
    (hknown : s.types.names = slottedNames decls) :
    (recover (signatureOf wordBits decl)).Comes s fun r s' =>
      Extends (fun _ => True) s.types s'.types ∧ s'.types.names = slottedNames decls ∧
        s'.errors = s.errors ++ signatureErrors decls decl ∧
        (r.isSome ↔ signatureErrors decls decl = []) := by
  obtain ⟨hnames, houtcome⟩ := Typing.signatureOf_finds wordBits decl hknown
  have htwin : Twin (fun _ => True) s.types s.types := .refl hs fun _ _ => trivial
  obtain ⟨t, _, hext, _, hrun⟩ :=
    Typing.signatureOf_agrees (fun _ => trivial) wordBits decl htwin
  have hnever := (Typing.signatureOf_adds wordBits decl hs.wf).cases
  obtain ⟨sig, _, hsig, _⟩ | ⟨f, hf, _⟩ := hrun
  · rw [hsig] at hnames houtcome
    have hnone : decl.undefined? (slottedNames decls) = none := houtcome
    have hrun : runOn (recover (signatureOf wordBits decl)) s =
        (.ok (some sig), ⟨t, s.errors⟩) := by
      rw [runOn_recover, hsig]
    refine .of_run hrun ⟨hext, hnames.trans hknown, ?_, ?_⟩ <;> simp [signatureErrors, hnone]
  · rw [hf] at hnames houtcome hnever
    cases f with
    | report e =>
      obtain ⟨name, span, hsome, rfl⟩ := houtcome
      have hrun : runOn (recover (signatureOf wordBits decl)) s =
          (.ok none, ⟨t, s.errors ++ [.undefinedType name span]⟩) := by
        rw [runOn_recover, hf]
      refine .of_run hrun ⟨hext, hnames.trans hknown, ?_, ?_⟩ <;> simp [signatureErrors, hsome]
    | abort u => exact .inr ⟨.abort u, ⟨t, s.errors⟩, by rw [runOn_recover, hf], trivial⟩
    | breach b =>
      obtain ⟨_, _, heq, _⟩ | ⟨_, _, heq, _, _, htame⟩ := hnever
      · cases heq
      · cases heq
        exact htame.elim

/-- Functions of distinct names are registered unless their signatures have an error. -/
theorem declareFunctions_keeps (funcs : List (FuncDecl × Span)) {functions : Functions}
    {s : Session} (hs : s.types.Regular) (hknown : s.types.names = slottedNames decls)
    (hnodup : (funcs.map fun d => d.1.name).Nodup)
    (hfree : ∀ d ∈ funcs, functions.lookup d.1.name = none) :
    (declareFunctions wordBits functions funcs).Comes s fun r s' =>
      Extends (fun _ => True) s.types s'.types ∧
        s'.errors = s.errors ++ funcs.flatMap (fun d => signatureErrors decls d.1) ∧
        r.2 = funcs.filter fun d => signatureErrors decls d.1 = [] := by
  induction funcs generalizing functions s with
  | nil => exact .pure ⟨.refl hs, by simp, rfl⟩
  | cons d rest ih =>
    obtain ⟨decl, span⟩ := d
    rw [List.map_cons, List.nodup_cons] at hnodup
    have hnone : functions.lookup decl.name = none := hfree (decl, span) (by simp)
    rw [declareFunctions, if_neg (by simp [hnone])]
    refine (recover_signatureOf_finds hs hknown).bind ?_
    rintro r s₁ - ⟨hext, hnames, herrors, hsome⟩
    cases r with
    | none =>
      have herr : signatureErrors decls decl ≠ [] := by simpa using hsome
      refine (ih hext.regular hnames hnodup.2 fun d hd => hfree d (by simp [hd])).mono ?_
      rintro ⟨all, kept⟩ s' ⟨hext', herrors', hkept⟩
      refine ⟨hext.trans hext', ?_, ?_⟩
      · rw [herrors', herrors, List.flatMap_cons, List.append_assoc]
      · rw [hkept, List.filter_cons_of_neg (by simpa using herr)]
    | some sig =>
      have herr : signatureErrors decls decl = [] := by simpa using hsome
      have hfree' : ∀ d ∈ rest, (functions ++ [(decl.name, sig)]).lookup d.1.name = none := by
        intro d hd
        have hne : d.1.name ≠ decl.name := fun heq => hnodup.1 (List.mem_map.mpr ⟨d, hd, heq⟩)
        rw [List.lookup_append, hfree d (by simp [hd])]
        simp [List.lookup_cons, beq_eq_false_iff_ne.mpr hne]
      refine (ih hext.regular hnames hnodup.2 hfree').bind ?_
      rintro ⟨all, kept⟩ s₂ - ⟨hext', herrors', hkept⟩
      refine .pure ⟨hext.trans hext', ?_, ?_⟩
      · rw [herrors', herrors, List.flatMap_cons, List.append_assoc]
      · rw [List.filter_cons_of_pos (by simpa using herr)]
        exact congrArg _ hkept

/-- A signature is looked for in the store, under names that are all there. -/
theorem recover_signatureOf_extends {decl : FuncDecl} {s s' : Session} {r : Option Signature}
    (hs : s.types.Regular)
    (hrun : runOn (recover (signatureOf wordBits decl)) s = (.ok r, s')) :
    Extends (fun _ => True) s.types s'.types := by
  obtain ⟨t, _, hext, _, hout⟩ := Typing.signatureOf_agrees (fun _ => trivial) wordBits decl
    (Twin.refl hs fun _ _ => trivial)
  rw [runOn_recover] at hrun
  obtain ⟨sig, _, hsig, _⟩ | ⟨f, hf, _⟩ := hout
  · rw [hsig] at hrun
    cases hrun
    exact hext
  · rw [hf] at hrun
    cases f with
    | report e =>
      cases hrun
      exact hext
    | abort u => cases hrun
    | breach b => cases hrun

/-- Registering functions, whatever their names, defines no named types. -/
theorem declareFunctions_extends (funcs : List (FuncDecl × Span)) {functions : Functions}
    {r : Functions × List (FuncDecl × Span)} {s s' : Session} (hs : s.types.Regular)
    (hrun : runOn (declareFunctions wordBits functions funcs) s = (.ok r, s')) :
    Extends (fun _ => True) s.types s'.types := by
  induction funcs generalizing functions r s with
  | nil =>
    cases hrun
    exact .refl hs
  | cons d rest ih =>
    obtain ⟨decl, span⟩ := d
    rw [declareFunctions] at hrun
    split at hrun
    · obtain ⟨_, s₁, hreport, hrun⟩ := runOn_bind_eq_ok hrun
      cases hreport
      exact ih (s := ⟨s.types, s.errors ++ [.duplicateDefinition decl.name span]⟩) hs hrun
    · obtain ⟨sig, s₁, hsig, hrun⟩ := runOn_bind_eq_ok hrun
      have hext := recover_signatureOf_extends hs hsig
      cases sig with
      | none => exact hext.trans (ih hext.regular hrun)
      | some sig =>
        obtain ⟨_, s₂, hrest, hrun⟩ := runOn_bind_eq_ok hrun
        cases hrun
        exact hext.trans (ih hext.regular hrest)

end Pass

end Midend
