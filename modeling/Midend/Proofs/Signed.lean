import Mathlib.Data.List.Forall2
import Midend.Proofs.Resolve

/-!
# Midend.Proofs.Signed

The declared functions of a unit. Each one that is registered has the signature that is found for it
in every later store (`SignedAs`), and a name is looked up to the signature of its own declaration.
-/

namespace Midend

open Ir

/-- The signature is found for the declaration in this store and in later ones. -/
structure SignedAs (wordBits : Nat) (types : TypeStore) (decl : FuncDecl) (sig : Signature) :
    Prop where
  found : ∀ t, types ≤ t → runOn (signatureOf wordBits decl) t = (.ok sig, t)
  params : ∀ param ∈ sig.params, types.Proper param
  ret : types.Has sig.ret
  returns : decl.results ≠ [] → types.Proper sig.ret
  length : sig.params.length = (Field.flatten decl.params).length

theorem SignedAs.mono {wordBits : Nat} {types types' : TypeStore} {decl : FuncDecl}
    {sig : Signature} (h : SignedAs wordBits types decl sig) (hle : types ≤ types') :
    SignedAs wordBits types' decl sig where
  found t ht := h.found t (TypeStore.le_trans hle ht)
  params param hp := (h.params param hp).le hle
  ret := h.ret.le hle
  returns hsome := (h.returns hsome).le hle
  length := h.length

/-- The entry registers the declaration. -/
def Registers (wordBits : Nat) (types : TypeStore) (d : FuncDecl × Span)
    (entry : String × Signature) : Prop :=
  entry.1 = d.1.name ∧ SignedAs wordBits types d.1 entry.2

/-- What registering functions comes to. -/
structure Registered (wordBits : Nat) (functions : Functions) (decls : List (FuncDecl × Span))
    (s s' : Session) (all : Functions) (kept : List (FuncDecl × Span)) : Prop where
  types : s.types ≤ s'.types
  wf : s'.types.WF
  entries : ∃ new, all = functions ++ new ∧ List.Forall₂ (Registers wordBits s'.types) kept new
  nodup : (all.map Prod.fst).Nodup
  sublist : kept.Sublist decls
  reports : ∃ es, Reports s s' es ∧ (es = [] → kept = decls)

theorem exists_left_of_forall₂ {α β : Type} {R : α → β → Prop} {l₁ : List α} {l₂ : List β}
    (h : List.Forall₂ R l₁ l₂) {b : β} (hb : b ∈ l₂) : ∃ a ∈ l₁, R a b := by
  induction h with
  | nil => cases hb
  | @cons a b' l₁ l₂ hab _ ih =>
    rcases List.mem_cons.mp hb with rfl | hb
    · exact ⟨a, by simp, hab⟩
    · obtain ⟨a', ha', hr⟩ := ih hb
      exact ⟨a', List.mem_cons_of_mem _ ha', hr⟩

theorem exists_right_of_forall₂ {α β : Type} {R : α → β → Prop} {l₁ : List α} {l₂ : List β}
    (h : List.Forall₂ R l₁ l₂) {a : α} (ha : a ∈ l₁) : ∃ b ∈ l₂, R a b :=
  exists_left_of_forall₂ h.flip ha

section

variable {wordBits : Nat} {types : TypeStore} {functions : Functions}
  {kept : List (FuncDecl × Span)}

/-- A name that is looked up is that of a declaration, and the signature its own. -/
theorem signed_of_lookup (h : List.Forall₂ (Registers wordBits types) kept functions)
    {name : String} {sig : Signature} (hsig : functions.lookup name = some sig) :
    ∃ d ∈ kept, d.1.name = name ∧ SignedAs wordBits types d.1 sig := by
  obtain ⟨before, after, hsplit, _⟩ := List.lookup_eq_some_iff.mp hsig
  obtain ⟨d, hd, hname, hsigned⟩ :=
    exists_left_of_forall₂ h (b := (name, sig)) (by rw [hsplit]; simp)
  exact ⟨d, hd, hname.symm, hsigned⟩

theorem lookup_of_registered (h : List.Forall₂ (Registers wordBits types) kept functions)
    (hnodup : (functions.map Prod.fst).Nodup) {d : FuncDecl × Span} (hd : d ∈ kept) :
    ∃ sig, functions.lookup d.1.name = some sig ∧ SignedAs wordBits types d.1 sig := by
  obtain ⟨⟨name, sig⟩, hentry, hname, hsigned⟩ := exists_right_of_forall₂ h hd
  obtain rfl : name = d.1.name := hname
  exact ⟨sig, lookup_of_mem hnodup hentry, hsigned⟩

end

namespace Pass

theorem recover_signatureOf {wordBits : Nat} {decl : FuncDecl} {s : Session} (hs : s.types.WF) :
    (recover (signatureOf wordBits decl)).Comes s fun r s' =>
      s.types ≤ s'.types ∧ s'.types.WF ∧
        match r with
        | some sig => SignedAs wordBits s'.types decl sig ∧ s'.errors = s.errors
        | none => ∃ e : LowerError, e.Plain ∧ s'.errors = s.errors ++ [e] := by
  rcases (Typing.signatureOf_adds wordBits decl hs).cases with
    ⟨sig, types, hsig, hle, hw, hp, hagain⟩ | ⟨f, types, hsig, hle, hw, htame⟩
  · exact .inl ⟨some sig, ⟨types, s.errors⟩, by rw [runOn_recover, hsig],
      hle, hw, ⟨hagain, hp.1, hp.2.1, hp.2.2.1, hp.2.2.2⟩, rfl⟩
  · cases f with
    | report e =>
      exact .inl ⟨none, ⟨types, s.errors ++ [e]⟩, by rw [runOn_recover, hsig], hle, hw,
        e, htame, rfl⟩
    | abort u => exact .inr ⟨_, _, by rw [runOn_recover, hsig], htame⟩
    | breach b => exact htame.elim

theorem declareFunctions_comes {wordBits : Nat} (decls : List (FuncDecl × Span))
    {functions : Functions} {s : Session} (hs : s.types.WF)
    (hnodup : (functions.map Prod.fst).Nodup) :
    (declareFunctions wordBits functions decls).Comes s fun r s' =>
      Registered wordBits functions decls s s' r.1 r.2 := by
  induction decls generalizing functions s with
  | nil =>
    exact .pure ⟨TypeStore.le_refl _, hs, ⟨[], by simp, .nil⟩, hnodup, .slnil, [], .nil rfl,
      fun _ => rfl⟩
  | cons d rest ih =>
    obtain ⟨decl, span⟩ := d
    rw [declareFunctions]
    split
    · refine .next (runOn_report _ s) ?_
      refine (ih (s := ⟨s.types, s.errors ++ [.duplicateDefinition decl.name span]⟩) hs
        hnodup).mono ?_
      rintro ⟨all, kept⟩ s' ⟨hle, hw, hentries, hnodup', hsub, es, hreports, _⟩
      exact ⟨hle, hw, hentries, hnodup', hsub.cons _, _,
        (Reports.one rfl (by simp [LowerError.Plain])).trans hreports, fun h => by simp at h⟩
    · rename_i hfree
      refine (recover_signatureOf hs).bind ?_
      rintro r s₁ - ⟨hle₁, hw₁, hr⟩
      cases r with
      | none =>
        obtain ⟨e, he, herrors⟩ := hr
        refine (ih hw₁ hnodup).mono ?_
        rintro ⟨all, kept⟩ s' ⟨hle, hw, hentries, hnodup', hsub, es, hreports, _⟩
        exact ⟨TypeStore.le_trans hle₁ hle, hw, hentries, hnodup', hsub.cons _, _,
          (Reports.one herrors he).trans hreports, fun h => by simp at h⟩
      | some sig =>
        obtain ⟨hsigned, herrors⟩ := hr
        have hnew : ((functions ++ [(decl.name, sig)]).map Prod.fst).Nodup := by
          have hnot : decl.name ∉ functions.map Prod.fst := by
            intro hmem
            obtain ⟨entry, hentry, heq⟩ := List.mem_map.mp hmem
            exact hfree (List.lookup_isSome_iff.mpr ⟨entry, hentry, by simp [heq]⟩)
          rw [List.map_append, List.nodup_append]
          refine ⟨hnodup, by simp, fun a ha b hb => ?_⟩
          obtain rfl : b = decl.name := by simpa using hb
          rintro rfl
          exact hnot ha
        refine (ih hw₁ hnew).bind ?_
        rintro ⟨all, kept⟩ s₂ - ⟨hle, hw, ⟨new, hall, hentries⟩, hnodup', hsub, es, hreports, hkept⟩
        refine .pure ⟨TypeStore.le_trans hle₁ hle, hw, ⟨(decl.name, sig) :: new, ?_, ?_⟩, hnodup',
          hsub.cons_cons _, es, ⟨by rw [hreports.errors, herrors], hreports.plain⟩, fun h => ?_⟩
        · simpa using hall
        · exact .cons ⟨rfl, hsigned.mono hle⟩ hentries
        · exact congrArg _ (hkept h)

theorem declareFunctions_registers {wordBits : Nat} (decls : List (FuncDecl × Span)) {s : Session}
    (hs : s.types.WF) : (declareFunctions wordBits [] decls).Comes s fun r s' =>
      Registered wordBits [] decls s s' r.1 r.2 := declareFunctions_comes decls hs List.nodup_nil

end Pass

end Midend
