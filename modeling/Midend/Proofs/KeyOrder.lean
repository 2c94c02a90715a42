import Mathlib.Data.List.Nodup
import Midend.Proofs.Encoded
import Midend.Proofs.Lookup
import Midend.Proofs.Numeral

/-!
# Midend.Proofs.KeyOrder

The order of keys means nothing to the decoder. A shape is stable if it has, with a value, every
reordering of it; the shapes of trees are stable, because the fields of a record are found by their
names and a variant has one key only. A type table is made in the order of its keys, so what a
reordering of it gives is the same table up to the order of its entries.
-/

namespace Midend
namespace Json

mutual

/-- The same value, but for the order of keys anywhere in it. The keys of an object are distinct. -/
inductive Reordered : Json → Json → Prop where
  | refl (j : Json) : Reordered j j
  | arr {xs ys : List Json} (elems : ReorderedElems xs ys) : Reordered (.arr xs) (.arr ys)
  | obj {fs gs hs : Fields} (distinct : (fs.map fun f => f.1.text).Nodup)
      (values : ReorderedValues fs gs) (order : gs.Perm hs) : Reordered (.obj fs) (.obj hs)

inductive ReorderedElems : List Json → List Json → Prop where
  | nil : ReorderedElems [] []
  | cons {x y : Json} {xs ys : List Json} (head : Reordered x y) (tail : ReorderedElems xs ys) :
    ReorderedElems (x :: xs) (y :: ys)

/-- The same keys in the same order, with reordered values. -/
inductive ReorderedValues : Fields → Fields → Prop where
  | nil : ReorderedValues [] []
  | cons {v w : Json} {fs gs : Fields} (key : Key) (head : Reordered v w)
    (tail : ReorderedValues fs gs) : ReorderedValues ((key, v) :: fs) ((key, w) :: gs)

end

/-- Fields that are reordered, and so are their values. -/
def ReorderedFields (fs gs : Fields) : Prop := ∃ mid, ReorderedValues fs mid ∧ mid.Perm gs

variable {j k : Json} {fs gs : Fields} {name tag : String} {P : Shape}

theorem ReorderedValues.refl : ∀ fs : Fields, ReorderedValues fs fs
  | [] => .nil
  | (key, v) :: fs => .cons key (.refl v) (ReorderedValues.refl fs)

theorem ReorderedValues.keys (h : ReorderedValues fs gs) : gs.map Prod.fst = fs.map Prod.fst := by
  induction fs generalizing gs with
  | nil => cases h; rfl
  | cons f fs ih =>
    cases h with
    | cons key _ tail => rw [List.map_cons, List.map_cons, ih tail]

theorem ReorderedValues.filter (p : Key → Bool) (h : ReorderedValues fs gs) :
    ReorderedValues (fs.filter fun f => p f.1) (gs.filter fun f => p f.1) := by
  induction fs generalizing gs with
  | nil => cases h; exact .nil
  | cons f fs ih =>
    cases h with
    | cons key head tail =>
      simp only [List.filter_cons]
      split
      · exact .cons key head (ih tail)
      · exact ih tail

theorem ReorderedElems.zip (keys : List Key) {xs ys : List Json} (h : ReorderedElems xs ys) :
    ReorderedValues (keys.zip xs) (keys.zip ys) := by
  induction keys generalizing xs ys with
  | nil => exact .nil
  | cons key keys ih =>
    cases h with
    | nil => exact .nil
    | cons head tail => exact .cons key head (ih tail)

theorem ReorderedElems.length_eq {xs ys : List Json} (h : ReorderedElems xs ys) :
    ys.length = xs.length := by
  induction xs generalizing ys with
  | nil => cases h; rfl
  | cons x xs ih =>
    cases h with
    | cons _ tail => rw [List.length_cons, List.length_cons, ih tail]

theorem record_reordered {names : List String} {spare : Nat} (h : Reordered j k)
    (hr : record names spare j = .ok fs) :
    ∃ gs, record names spare k = .ok gs ∧ ReorderedFields fs gs := by
  cases h with
  | refl => exact ⟨fs, hr, fs, .refl fs, .refl fs⟩
  | arr elems =>
    simp only [record] at hr
    split at hr
    next hlen =>
      cases hr
      exact ⟨_, if_pos (elems.length_eq ▸ hlen), _, elems.zip _, .refl _⟩
    next => cases hr
  | obj _ values order =>
    cases hr
    exact ⟨_, rfl, _, values, order⟩

/-! ## Stable shapes -/

/-- A shape that the order of keys does not matter to. -/
def Stable (P : Shape) : Prop := ∀ {j k}, Reordered j k → P j → P k

theorem ReorderedFields.hasField (h : ReorderedFields fs gs) (hP : Stable P)
    (hf : HasField fs name P) : HasField gs name P := by
  obtain ⟨mid, hvalues, horder⟩ := h
  obtain ⟨⟨key, v⟩, hfs, hv⟩ := hf
  have hmid := hvalues.filter fun key => key.text == name
  rw [hfs] at hmid
  generalize hm : mid.filter _ = filtered at hmid
  cases hmid with
  | cons _ head tail =>
    cases tail
    have horder := horder.filter fun g => g.1.text == name
    rw [hm, List.singleton_perm] at horder
    exact ⟨(key, _), horder.symm, hP head hv⟩

theorem ReorderedFields.noField (h : ReorderedFields fs gs) (hf : NoField fs name) :
    NoField gs name := by
  obtain ⟨mid, hvalues, horder⟩ := h
  intro g hg
  have hkey : g.1 ∈ fs.map Prod.fst :=
    hvalues.keys ▸ List.mem_map_of_mem (horder.mem_iff.2 hg)
  obtain ⟨f, hmem, heq⟩ := List.mem_map.1 hkey
  exact heq ▸ hf f hmem

theorem ReorderedFields.defaultField {isDefault : Prop} (h : ReorderedFields fs gs)
    (hP : Stable P) (hf : DefaultField fs name isDefault P) : DefaultField gs name isDefault P :=
  hf.imp (h.hasField hP) fun hno => ⟨h.noField hno.1, hno.2⟩

theorem Reordered.eq_str {s : String} (h : Reordered (.str s) k) : k = .str s := by
  cases h
  rfl

theorem stable_text (text : String) : Stable (textShape text) := by
  rintro _ _ h rfl
  exact h.eq_str

theorem stable_bool (b : Bool) : Stable (boolShape b) := by
  rintro _ _ h rfl
  cases h
  rfl

theorem stable_int (n : Int) : Stable (Just (.int n)) := by
  rintro _ _ h rfl
  cases h
  rfl

theorem stable_null : Stable (Just .null) := by
  rintro _ _ h rfl
  cases h
  rfl

theorem stable_record {names : List String} {spare : Nat} {P : Fields → Prop}
    (h : ∀ {fs gs}, ReorderedFields fs gs → P fs → P gs) : Stable (Record names spare P) := by
  rintro j k hjk ⟨fs, hr, hP⟩
  obtain ⟨gs, hr', hfg⟩ := record_reordered hjk hr
  exact ⟨gs, hr', h hfg hP⟩

theorem stable_tagged (hP : Stable P) : Stable (Tagged tag P) := by
  rintro _ _ h ⟨key, v, htag, rfl, hv⟩
  cases h with
  | refl => exact ⟨key, v, htag, rfl, hv⟩
  | obj _ values order =>
    cases values with
    | cons _ head tail =>
      cases tail
      rw [List.singleton_perm] at order
      exact ⟨key, _, htag, congrArg _ order.symm, hP head hv⟩

theorem stable_parts {names : List String} {P : Fields → Prop}
    (h : ∀ {fs gs}, ReorderedFields fs gs → P fs → P gs) : Stable (partsShape tag names P) :=
  stable_tagged (stable_record h)

theorem stable_named (tag : String) : Stable (Named tag) := by
  rintro _ k h (rfl | htag)
  · exact .inl h.eq_str
  · exact .inr (stable_tagged stable_null h htag)

theorem stable_nil : Stable (ArrayOf []) := by
  rintro _ _ h ⟨xs, rfl, hxs⟩
  cases hxs
  cases h with
  | refl => exact ⟨[], rfl, .nil⟩
  | arr elems => cases elems; exact ⟨[], rfl, .nil⟩

theorem stable_cons {Ps : List Shape} (hP : Stable P) (hPs : Stable (ArrayOf Ps)) :
    Stable (ArrayOf (P :: Ps)) := by
  rintro _ _ h ⟨xs, rfl, hxs⟩
  cases hxs with
  | cons hx hxs =>
    cases h with
    | refl => exact ⟨_, rfl, .cons hx hxs⟩
    | arr elems =>
      cases elems with
      | cons head tail => exact arrayOf_cons (hP head hx) (hPs (.arr tail) ⟨_, rfl, hxs⟩)

theorem stable_list {α : Type} {shape : α → Shape} (h : ∀ a, Stable (shape a)) :
    ∀ as : List α, Stable (ArrayOf (as.map shape))
  | [] => stable_nil
  | a :: as => stable_cons (h a) (stable_list h as)

theorem Reordered.eq_null (h : Reordered j .null) : j = .null := by
  cases h
  rfl

theorem stable_orNull {o : Option Shape} (h : ∀ P ∈ o, Stable P) : Stable (OrNull o) := by
  cases o with
  | none => exact stable_null
  | some P =>
    rintro j k hjk ⟨hnull, hj⟩
    exact ⟨fun hk => hnull (hk ▸ hjk).eq_null, h P rfl hjk hj⟩

theorem ReorderedFields.optField {α : Type} {shape : α → Shape} {o : Option α}
    (h : ReorderedFields fs gs) (hs : ∀ a, Stable (shape a)) (hf : OptField fs name (o.map shape)) :
    OptField gs name (o.map shape) := by
  refine h.defaultField (stable_orNull fun P hP => ?_) hf
  obtain ⟨a, -, rfl⟩ := Option.map_eq_some_iff.1 hP
  exact hs a

end Json

open Json

theorem Span.stable (s : Span) : Stable s.shape :=
  stable_record fun h ⟨hstart, hstop⟩ =>
    ⟨h.hasField (stable_int _) hstart, h.hasField (stable_int _) hstop⟩

theorem Mark.stable (m : Mark) {K : Shape} (hK : Stable K) : Stable (m.shape K) :=
  stable_record fun h ⟨hid, hkind, hspan⟩ =>
    ⟨h.hasField (stable_int _) hid, h.hasField hK hkind, h.hasField m.span.stable hspan⟩

theorem stable_names (names : List String) : Stable (namesShape names) :=
  stable_list stable_text names

theorem Span.stable_written (span : Span) {K : Shape} (hK : Stable K) : Stable (span.written K) :=
  stable_record fun h ⟨hkind, hspan⟩ => ⟨h.hasField hK hkind, h.hasField span.stable hspan⟩

mutual

theorem TypeExpr.stable : ∀ t : TypeExpr, Stable t.shape
  | .ident span name => span.stable_written (stable_tagged (stable_text name))
  | .qualified span package name => span.stable_written (stable_parts fun h ⟨hp, hn⟩ =>
    ⟨h.hasField (stable_text package) hp, h.hasField (stable_text name) hn⟩)
  | .pointer span elem => span.stable_written (stable_tagged elem.stable)
  | .struct span fields =>
    span.stable_written (stable_tagged (Field.stable_shapes fields))
  | .array span _ elem => span.stable_written (stable_parts fun h ⟨hl, he⟩ =>
    ⟨h.optField (fun n => stable_int n.toNat) hl, h.hasField elem.stable he⟩)
  | .map span key value => span.stable_written (stable_parts fun h ⟨hk, hv⟩ =>
    ⟨h.hasField key.stable hk, h.hasField value.stable hv⟩)
  | .func span params results => span.stable_written (stable_parts fun h ⟨hp, hr⟩ =>
    ⟨h.hasField (Field.stable_shapes params) hp,
      h.hasField (Field.stable_shapes results) hr⟩)
  | .interface span => span.stable_written (stable_named _)

theorem Field.stable : ∀ f : Field, Stable f.shape
  | .mk names type span => stable_record fun h ⟨hn, ht, hs⟩ =>
    ⟨h.defaultField (stable_names names) hn, h.hasField type.stable ht,
      h.defaultField span.stable hs⟩

theorem Field.stable_shapes : ∀ fields : List Field, Stable (ArrayOf (Field.shapes fields))
  | [] => stable_nil
  | f :: rest => stable_cons f.stable (Field.stable_shapes rest)

end

mutual

theorem CheckedType.stable : ∀ t : CheckedType, Stable t.shape
  | .basic kind => stable_tagged (stable_named kind.tag)
  | .named name => stable_tagged (stable_text name)
  | .pointer elem => stable_tagged elem.stable
  | .struct fields => stable_tagged (CheckedType.stable_shapes fields)
  | .slice elem => stable_tagged elem.stable
  | .tuple elems => stable_tagged (CheckedType.stable_shapes elems)
  | .signature => stable_named _

theorem CheckedType.stable_shapes :
    ∀ types : List CheckedType, Stable (ArrayOf (CheckedType.shapes types))
  | [] => stable_nil
  | t :: rest => stable_cons t.stable (CheckedType.stable_shapes rest)

end

mutual

theorem Expr.stable : ∀ e : Expr, Stable e.shape
  | .lit m kind text => m.stable (stable_parts fun h ⟨hk, ht⟩ =>
    ⟨h.hasField (stable_named kind.tag) hk, h.hasField (stable_text text) ht⟩)
  | .ident m name => m.stable (stable_tagged (stable_text name))
  | .paren m inner => m.stable (stable_tagged inner.stable)
  | .unary m op operand => m.stable (stable_parts fun h ⟨ho, he⟩ =>
    ⟨h.hasField (stable_named op.tag) ho, h.hasField operand.stable he⟩)
  | .binary m op left right => m.stable (stable_parts fun h ⟨ho, hl, hr⟩ =>
    ⟨h.hasField (stable_named op.tag) ho, h.hasField left.stable hl, h.hasField right.stable hr⟩)
  | .call m callee args => m.stable (stable_parts fun h ⟨hc, ha⟩ =>
    ⟨h.hasField callee.stable hc, h.hasField (Expr.stable_shapes args) ha⟩)
  | .selector m object field => m.stable (stable_parts fun h ⟨ho, hf⟩ =>
    ⟨h.hasField object.stable ho, h.hasField (stable_text field) hf⟩)
  | .index m object place => m.stable (stable_parts fun h ⟨ho, hp⟩ =>
    ⟨h.hasField object.stable ho, h.hasField place.stable hp⟩)
  | .deref m pointer => m.stable (stable_tagged pointer.stable)
  | .composite m _ elems => m.stable (stable_parts fun h ⟨ht, he⟩ =>
    ⟨h.optField TypeExpr.stable ht, h.hasField (Expr.stable_shapes elems) he⟩)
  | .funcLit m => m.stable (stable_named _)

theorem Expr.stable_shapes : ∀ es : List Expr, Stable (ArrayOf (Expr.shapes es))
  | [] => stable_nil
  | e :: rest => stable_cons e.stable (Expr.stable_shapes rest)

end

theorem Expr.stable_list (es : List Expr) : Stable (ArrayOf (es.map Expr.shape)) :=
  Json.stable_list Expr.stable es

mutual

theorem Stmt.stable : ∀ s : Stmt, Stable s.shape
  | .block m body => m.stable (stable_tagged (Stmt.stable_shapes body))
  | .empty m => m.stable (stable_named _)
  | .expr m e => m.stable (stable_tagged e.stable)
  | .ifElse m init cond thenBranch elseBranch =>
    m.stable (stable_parts fun h ⟨hi, hc, ht, he⟩ =>
      ⟨h.defaultField (Stmt.stable_optShape init) hi, h.hasField cond.stable hc,
        h.hasField thenBranch.stable ht, h.defaultField (Stmt.stable_optShape elseBranch) he⟩)
  | .loop m init _ post body => m.stable (stable_parts fun h ⟨hi, hc, hp, hb⟩ =>
    ⟨h.defaultField (Stmt.stable_optShape init) hi, h.optField Expr.stable hc,
      h.defaultField (Stmt.stable_optShape post) hp, h.hasField body.stable hb⟩)
  | .switch m init _ clauses => m.stable (stable_parts fun h ⟨hi, hs, hc⟩ =>
    ⟨h.defaultField (Stmt.stable_optShape init) hi, h.optField Expr.stable hs,
      h.hasField (Clause.stable_shapes clauses) hc⟩)
  | .ret m results => m.stable (stable_tagged (Expr.stable_list results))
  | .assign m lhs rhs define => m.stable (stable_parts fun h ⟨hl, hr, hd⟩ =>
    ⟨h.hasField (Expr.stable_list lhs) hl, h.hasField (Expr.stable_list rhs) hr,
      h.hasField (stable_bool define) hd⟩)
  | .incDec m target inc => m.stable (stable_parts fun h ⟨ht, hi⟩ =>
    ⟨h.hasField target.stable ht, h.hasField (stable_bool inc) hi⟩)
  | .jump m keyword _ => m.stable (stable_parts fun h ⟨hk, hl⟩ =>
    ⟨h.hasField (stable_text keyword) hk, h.optField stable_text hl⟩)
  | .varDecl m names values => m.stable (stable_parts fun h ⟨hn, hv⟩ =>
    ⟨h.hasField (stable_names names) hn, h.hasField (Expr.stable_list values) hv⟩)
  | .labeled m label body => m.stable (stable_parts fun h ⟨hl, hb⟩ =>
    ⟨h.hasField (stable_text label) hl, h.hasField body.stable hb⟩)
  | .defer m call => m.stable (stable_tagged call.stable)
  | .go m call => m.stable (stable_tagged call.stable)
  | .range m value body => m.stable (stable_parts fun h ⟨hv, hb⟩ =>
    ⟨h.hasField value.stable hv, h.hasField body.stable hb⟩)

theorem Stmt.stable_optShape : ∀ o : Option Stmt, Stable (OrNull (Stmt.optShape o))
  | none => stable_null
  | some s => stable_orNull fun P hP => by
    obtain rfl := Option.some.inj hP
    exact s.stable

theorem Stmt.stable_shapes : ∀ body : List Stmt, Stable (ArrayOf (Stmt.shapes body))
  | [] => stable_nil
  | s :: rest => stable_cons s.stable (Stmt.stable_shapes rest)

theorem Clause.stable : ∀ c : Clause, Stable c.shape
  | .mk values body span => stable_record fun h ⟨hv, hb, hs⟩ =>
    ⟨h.hasField (Expr.stable_list values) hv, h.hasField (Stmt.stable_shapes body) hb,
      h.hasField span.stable hs⟩

theorem Clause.stable_shapes : ∀ clauses : List Clause, Stable (ArrayOf (Clause.shapes clauses))
  | [] => stable_nil
  | c :: rest => stable_cons c.stable (Clause.stable_shapes rest)

end

theorem TypeDecl.stable (d : TypeDecl) : Stable d.shape :=
  stable_record fun h ⟨hn, ht⟩ => ⟨h.hasField (stable_text d.name) hn, h.hasField d.type.stable ht⟩

theorem FuncDecl.stable (d : FuncDecl) : Stable d.shape :=
  stable_record fun h ⟨hn, hp, hr, hb⟩ =>
    ⟨h.hasField (stable_text d.name) hn, h.hasField (stable_list Field.stable d.params) hp,
      h.hasField (stable_list Field.stable d.results) hr, h.optField Stmt.stable hb⟩

theorem Decl.stable : ∀ d : Decl, Stable d.shape
  | .type m d => m.stable (stable_tagged d.stable)
  | .func m d => m.stable (stable_tagged d.stable)
  | .var m names _ values isConst => m.stable (stable_parts fun h ⟨hn, ht, hv, hc⟩ =>
    ⟨h.hasField (stable_names names) hn, h.optField TypeExpr.stable ht,
      h.hasField (Expr.stable_list values) hv, h.hasField (stable_bool isConst) hc⟩)

/-- The same table, but for the order in which its nodes were recorded. -/
def TypeTable.Same (t t' : TypeTable) : Prop := ∀ id, t.get? id = t'.get? id

theorem TypeTable.same_of_perm {t t' : TypeTable} (h : t.entries.Perm t'.entries) : t.Same t' :=
  lookup_perm t.nodup h

namespace TypeTable

variable {entries : List (NodeId × CheckedType)} {fs gs : Fields}

theorem entryShape_values (h : ReorderedValues fs gs) (he : List.Forall₂ EntryShape entries fs) :
    List.Forall₂ EntryShape entries gs := by
  induction he generalizing gs with
  | nil => cases h; exact .nil
  | cons hentry _ ih =>
    cases h with
    | cons key head tail =>
      exact .cons ⟨hentry.1, CheckedType.stable _ head hentry.2⟩ (ih tail)

theorem entries_nodup (hkeys : (fs.map fun f => f.1.text).Nodup)
    (he : List.Forall₂ EntryShape entries fs) : (entries.map Prod.fst).Nodup := by
  refine List.Nodup.of_map (fun id : NodeId => toString id.val.toNat) ?_
  have htexts : (entries.map Prod.fst).map (fun id : NodeId => toString id.val.toNat) =
      fs.map fun f => f.1.text := by
    clear hkeys
    induction he with
    | nil => rfl
    | cons hentry _ ih => rw [List.map_cons, List.map_cons, List.map_cons, ih, hentry.1]
  rwa [htexts]

theorem shape_reordered {t : TypeTable} {j k : Json} (h : Reordered j k) (ht : t.shape j) :
    ∃ t' : TypeTable, t'.shape k ∧ t.entries.Perm t'.entries := by
  obtain ⟨entries, fs, rfl, he, rfl⟩ := ht
  cases h with
  | refl => exact ⟨_, ⟨entries, fs, rfl, he, rfl⟩, .refl _⟩
  | obj distinct values order =>
    have hnodup := entries_nodup distinct he
    obtain ⟨entries', he', hperm⟩ :=
      List.perm_comp_forall₂ order.symm (entryShape_values values he).flip
    refine ⟨_, ⟨entries', _, rfl, he'.flip, rfl⟩, ?_⟩
    rw [entries_ofList hnodup, entries_ofList ((hperm.map Prod.fst).nodup_iff.2 hnodup)]
    exact hperm.symm

theorem toString_injective : Function.Injective fun id : NodeId => toString id.val.toNat :=
  fun _ _ h => Option.some.inj
    ((NodeId.ofText?_eq_some.2 rfl).symm.trans (NodeId.ofText?_eq_some.2 h))

theorem nodup_encode (t : TypeTable) :
    ((t.entries.map fun (id, type) => ((toString id.val.toNat : Key), type.encode)).map
      fun f => f.1.text).Nodup := by
  rw [List.map_map]
  have hkeys := t.nodup.map toString_injective
  rwa [List.map_map] at hkeys

end TypeTable

namespace SourceUnit

/-- The same unit, but for the order of its type table. -/
structure Same (u v : SourceUnit) : Prop where
  name : u.name = v.name
  decls : u.decls = v.decls
  types : u.types.Same v.types

variable {u v : SourceUnit} {j k : Json}

theorem types_reordered {fs gs : Fields} {t : TypeTable} (h : ReorderedFields fs gs)
    (ht : DefaultField fs "types" (t = .empty) t.shape) :
    ∃ t' : TypeTable,
      DefaultField gs "types" (t' = .empty) t'.shape ∧ t.entries.Perm t'.entries := by
  rcases ht with ht | ⟨hno, hempty⟩
  · have hsome : Stable fun v => ∃ t' : TypeTable, t'.shape v ∧ t.entries.Perm t'.entries := by
      rintro j k hjk ⟨t', ht', hperm⟩
      obtain ⟨t'', ht'', hperm'⟩ := TypeTable.shape_reordered hjk ht'
      exact ⟨t'', ht'', hperm.trans hperm'⟩
    obtain ⟨f, hf, t', ht', hperm⟩ :=
      h.hasField hsome (ht.imp fun v hv => ⟨t, hv, .refl _⟩)
    exact ⟨t', .inl ⟨f, hf, ht'⟩, hperm⟩
  · exact ⟨t, .inr ⟨h.noField hno, hempty⟩, .refl _⟩

theorem shape_reordered (h : Reordered j k) (hu : u.shape j) :
    ∃ v : SourceUnit, v.shape k ∧ u.name = v.name ∧ u.decls = v.decls ∧
      u.types.entries.Perm v.types.entries := by
  obtain ⟨fs, hfs, hname, hdecls, htypes⟩ := hu
  obtain ⟨gs, hgs, hfg⟩ := record_reordered h hfs
  obtain ⟨types, htypes, hperm⟩ := types_reordered hfg htypes
  exact ⟨⟨u.name, u.decls, types⟩, ⟨gs, hgs, hfg.hasField (stable_text u.name) hname,
    hfg.hasField (stable_list Decl.stable u.decls) hdecls, htypes⟩, rfl, rfl, hperm⟩

theorem encode_reordered (hname : u.name = v.name) (hdecls : u.decls = v.decls)
    (htypes : u.types.entries.Perm v.types.entries) : Reordered u.encode v.encode := by
  have htable : Reordered u.types.encode v.types.encode :=
    .obj (TypeTable.nodup_encode u.types) (.refl _) (htypes.map _)
  refine .obj (by simp) (.cons _ ?_ (.cons _ ?_ (.cons _ htable .nil))) (.refl _)
  · exact hname ▸ .refl _
  · exact hdecls ▸ .refl _

end SourceUnit

end Midend
