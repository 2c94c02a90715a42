import Midend.Proofs.Resolve

/-!
# Midend.Proofs.Reorder

What declarations say does not depend on their order, as long as their names are distinct: what a
name is declared as, where an alias chain ends, which names are undefined, and so which errors
belong to a declaration (`typeErrors_perm`).
-/

namespace Midend

open Ir

section

variable {declared declared' : Declared}
  (hlookup : ∀ name, declared.lookup name = declared'.lookup name)

include hlookup

theorem nextAlias?_congr (t : TypeExpr) : nextAlias? declared t = nextAlias? declared' t := by
  cases t with
  | ident span name => simp only [nextAlias?, hlookup]
  | qualified | pointer | struct | array | map | func | interface => rfl

theorem AliasChain.congr {names : List String} {t last : TypeExpr}
    (h : AliasChain declared names t last) : AliasChain declared' names t last := by
  induction h with
  | last hnone => exact .last (nextAlias?_congr hlookup _ ▸ hnone)
  | step hname hfirst _ ih => exact .step hname (hlookup _ ▸ hfirst) ih

theorem followAlias_congr (t : TypeExpr) : followAlias declared t = followAlias declared' t := by
  ext last
  rw [followAlias_eq_some_iff, followAlias_eq_some_iff]
  exact exists_congr fun names =>
    ⟨fun h => h.congr hlookup, fun h => h.congr fun name => (hlookup name).symm⟩

theorem shapeOf_congr (t : TypeExpr) : shapeOf declared t = shapeOf declared' t := by
  rw [shapeOf, shapeOf, followAlias_congr hlookup]

theorem isUnsigned_congr (c : CheckedType) : isUnsigned declared c = isUnsigned declared' c := by
  have hkind : underlyingBasic? declared c = underlyingBasic? declared' c := by
    cases c with
    | named name =>
      have hfollow : followAlias declared = followAlias declared' :=
        funext (followAlias_congr hlookup)
      simp only [underlyingBasic?, hlookup, hfollow]
    | basic | pointer | slice | struct | tuple | signature => rfl
  rw [isUnsigned, isUnsigned, hkind]

end

mutual

theorem TypeExpr.undefined?_congr {known known' : List String}
    (hknown : ∀ name, name ∈ known ↔ name ∈ known') (t : TypeExpr) :
    t.undefined? known = t.undefined? known' := by
  cases t with
  | ident span name => simp only [undefined?, hknown]
  | pointer span elem =>
    rw [undefined?, undefined?]
    exact undefined?_congr hknown elem
  | struct span fields =>
    rw [undefined?, undefined?]
    exact undefinedField?_congr hknown fields
  | qualified | array | map | func | interface => rw [undefined?, undefined?]

theorem TypeExpr.undefinedField?_congr {known known' : List String}
    (hknown : ∀ name, name ∈ known ↔ name ∈ known') (fields : List Field) :
    undefinedField? known fields = undefinedField? known' fields := by
  cases fields with
  | nil => rw [undefinedField?, undefinedField?]
  | cons field rest =>
    obtain ⟨names, type, span⟩ := field
    rw [undefinedField?, undefinedField?, undefined?_congr hknown type,
      undefinedField?_congr hknown rest]

end

/-- A name that is not to be declared. -/
def reservedError? (d : TypeDecl × Span) : Option LowerError :=
  if d.1.name ∈ reservedTypeNames then some (.reservedTypeName d.1.name d.2) else none

/-- The errors that belong to one of the declarations, if their names are distinct. -/
def typeErrors (decls : List (TypeDecl × Span)) (d : TypeDecl × Span) : List LowerError :=
  if d.1.name ∈ reservedTypeNames then [.reservedTypeName d.1.name d.2]
  else
    (loopError? (declaredTypes decls) d).toList ++
      (undefinedError? (declaredTypes decls) (slottedNames decls) d).toList

section

variable {decls decls' : List (TypeDecl × Span)}

theorem admitted_eq_filter (taken : List String) (hnodup : (decls.map fun d => d.1.name).Nodup)
    (hfree : ∀ d ∈ decls, d.1.name ∉ taken) :
    admitted taken decls = decls.filter fun d => d.1.name ∉ reservedTypeNames := by
  induction decls generalizing taken with
  | nil => rfl
  | cons d rest ih =>
    rw [List.map_cons, List.nodup_cons] at hnodup
    have hnext : ∀ d' ∈ rest, d'.1.name ∉ d.1.name :: taken := by
      intro d' hd' hmem
      rcases List.mem_cons.mp hmem with heq | hmem
      · exact hnodup.1 (List.mem_map.mpr ⟨d', hd', heq⟩)
      · exact hfree d' (by simp [hd']) hmem
    have htaken : d.1.name ∉ taken := hfree d (by simp)
    rw [admitted, List.filter_cons]
    by_cases hreserved : d.1.name ∈ reservedTypeNames
    · rw [if_pos (.inl hreserved), if_neg (by simpa using hreserved)]
      exact ih taken hnodup.2 fun d' hd' => hfree d' (by simp [hd'])
    · rw [if_neg (by simp [hreserved, htaken]), if_pos (by simpa using hreserved),
        ih _ hnodup.2 hnext]

theorem admitErrors_eq_filterMap (taken : List String)
    (hnodup : (decls.map fun d => d.1.name).Nodup) (hfree : ∀ d ∈ decls, d.1.name ∉ taken) :
    admitErrors taken decls = decls.filterMap reservedError? := by
  induction decls generalizing taken with
  | nil => rfl
  | cons d rest ih =>
    rw [List.map_cons, List.nodup_cons] at hnodup
    have hnext : ∀ d' ∈ rest, d'.1.name ∉ d.1.name :: taken := by
      intro d' hd' hmem
      rcases List.mem_cons.mp hmem with heq | hmem
      · exact hnodup.1 (List.mem_map.mpr ⟨d', hd', heq⟩)
      · exact hfree d' (by simp [hd']) hmem
    have htaken : d.1.name ∉ taken := hfree d (by simp)
    rw [admitErrors, List.filterMap_cons, reservedError?]
    by_cases hreserved : d.1.name ∈ reservedTypeNames
    · simp only [if_pos hreserved]
      rw [ih taken hnodup.2 fun d' hd' => hfree d' (by simp [hd'])]
    · simp only [if_neg hreserved, if_neg htaken]
      exact ih _ hnodup.2 hnext

variable (hperm : decls.Perm decls') (hnodup : (decls.map fun d => d.1.name).Nodup)

include hperm hnodup

theorem admitted_perm : (admitted [] decls).Perm (admitted [] decls') := by
  have hnodup' : (decls'.map fun d => d.1.name).Nodup := (hperm.map _).nodup_iff.mp hnodup
  rw [admitted_eq_filter [] hnodup (by simp), admitted_eq_filter [] hnodup' (by simp)]
  exact hperm.filter _

theorem declaredTypes_perm : (declaredTypes decls).Perm (declaredTypes decls') :=
  (admitted_perm hperm hnodup).map _

theorem lookup_declaredTypes_perm (name : String) :
    (declaredTypes decls).lookup name = (declaredTypes decls').lookup name := by
  refine lookup_perm ?_ (declaredTypes_perm hperm hnodup) name
  rw [declaredTypes, List.map_map]
  exact (admitted_names [] decls).1

theorem followAlias_perm (t : TypeExpr) :
    followAlias (declaredTypes decls) t = followAlias (declaredTypes decls') t :=
  followAlias_congr (lookup_declaredTypes_perm hperm hnodup) t

theorem slotted_perm : (slotted decls).Perm (slotted decls') := by
  have hsame : (fun d : TypeDecl × Span => (followAlias (declaredTypes decls) d.1.type).isSome) =
      fun d => (followAlias (declaredTypes decls') d.1.type).isSome :=
    funext fun d => by rw [followAlias_perm hperm hnodup]
  rw [slotted, slotted, hsame]
  exact (admitted_perm hperm hnodup).filter _

theorem slottedNames_perm : (slottedNames decls).Perm (slottedNames decls') :=
  (slotted_perm hperm hnodup).map _

theorem undefined?_perm (decl : TypeDecl) :
    decl.undefined? (declaredTypes decls) (slottedNames decls) =
      decl.undefined? (declaredTypes decls') (slottedNames decls') := by
  have hsame :
      TypeExpr.undefined? (slottedNames decls) = TypeExpr.undefined? (slottedNames decls') :=
    funext (TypeExpr.undefined?_congr fun _ => (slottedNames_perm hperm hnodup).mem_iff)
  rw [TypeDecl.undefined?, TypeDecl.undefined?, followAlias_perm hperm hnodup, hsame]

theorem typeErrors_perm (d : TypeDecl × Span) : typeErrors decls d = typeErrors decls' d := by
  rw [typeErrors, typeErrors, loopError?, loopError?, undefinedError?, undefinedError?,
    followAlias_perm hperm hnodup, undefined?_perm hperm hnodup]

omit hperm

/-- The errors that are reported are those that belong to the declarations. -/
theorem resolveErrors_perm : (resolveErrors decls).Perm (decls.flatMap (typeErrors decls)) := by
  have hslotted : (slotted decls).filterMap
        (undefinedError? (declaredTypes decls) (slottedNames decls)) =
      (admitted [] decls).filterMap
        (undefinedError? (declaredTypes decls) (slottedNames decls)) := by
    rw [slotted, List.filterMap_filter]
    congr 1
    funext d
    split
    · rfl
    · rename_i hnone
      simp only [undefinedError?, TypeDecl.undefined?, Option.not_isSome_iff_eq_none.mp hnone,
        Option.bind_none, Option.map_none]
  rw [resolveErrors, hslotted, admitErrors_eq_filterMap [] hnodup (by simp),
    admitted_eq_filter [] hnodup (by simp), List.filterMap_filter, List.filterMap_filter,
    List.filterMap_eq_flatMap_toList, List.filterMap_eq_flatMap_toList,
    List.filterMap_eq_flatMap_toList]
  refine ((List.flatMap_append_perm ..).append_right _).trans
    ((List.flatMap_append_perm ..).trans (List.Perm.of_eq ?_))
  congr 1
  funext d
  by_cases hreserved : d.1.name ∈ reservedTypeNames <;>
    simp [typeErrors, reservedError?, hreserved]

end

end Midend
