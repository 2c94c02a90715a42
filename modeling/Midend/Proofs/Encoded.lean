import Midend.Proofs.Form

/-!
# Midend.Proofs.Encoded

The encoding of a tree has the tree's shape. Each case names the encodings of the parts; that the
fields of an object hold them once is left to the lemmas on one field more.
-/

namespace Midend

open Json

namespace Json

variable {fs : Fields} {name tag : String} {key : Key} {v : Json} {P : Shape}

@[simp] theorem noField_nil : NoField [] name := fun _ h => absurd h (by simp)

@[simp] theorem noField_cons :
    NoField ((key, v) :: fs) name ↔ key.text ≠ name ∧ NoField fs name := by
  simp [NoField]

@[simp] theorem hasField_cons :
    HasField ((key, v) :: fs) name P ↔
      if key.text = name then P v ∧ NoField fs name else HasField fs name P := by
  by_cases h : key.text = name
  · have hno : NoField fs name ↔ fs.filter (fun g => g.1.text == name) = [] := by
      simp [NoField, List.filter_eq_nil_iff]
    simp [HasField, h, hno, and_comm]
  · simp [HasField, h]

theorem named_tag (tag : String) : Named tag (.str tag) := .inl rfl

theorem tagged_variant (h : P v) : Tagged tag P (variant tag v) := ⟨_, _, rfl, rfl, h⟩

theorem parts_variant {names : List String} {P : Fields → Prop} (h : P fs) :
    partsShape tag names P (variant tag (.obj fs)) :=
  tagged_variant ⟨fs, rfl, h⟩

theorem arrayOf_encode {α : Type} {shape : α → Shape} {encode : α → Json}
    (h : ∀ a, shape a (encode a)) (as : List α) :
    ArrayOf (as.map shape) (.arr (as.map encode)) := by
  refine ⟨_, rfl, ?_⟩
  rw [List.forall₂_map_left_iff, List.forall₂_map_right_iff, List.forall₂_same]
  exact fun a _ => h a

theorem arrayOf_cons {Ps : List Shape} {xs : List Json} (h : P v) (hs : ArrayOf Ps (.arr xs)) :
    ArrayOf (P :: Ps) (.arr (v :: xs)) := by
  obtain ⟨_, heq, hs⟩ := hs
  cases heq
  exact ⟨_, rfl, .cons h hs⟩

theorem Record.ne_null {names : List String} {spare : Nat} {P : Fields → Prop} {j : Json}
    (h : Record names spare P j) : j ≠ .null := by
  rintro rfl
  obtain ⟨_, hfs, -⟩ := h
  cases hfs

theorem orNull_encode {α : Type} {shape : α → Shape} {encode : α → Json}
    (h : ∀ a, shape a (encode a)) (hnull : ∀ a, encode a ≠ .null) (o : Option α) :
    OrNull (o.map shape) (ofOption encode o) := by
  cases o with
  | none => rfl
  | some a => exact ⟨hnull a, h a⟩

end Json

theorem Span.shape_encode (s : Span) : s.shape s.encode :=
  ⟨_, rfl, by simp [Just]⟩

theorem Mark.shape_encode (m : Mark) {K : Shape} {kind : Json} (h : K kind) :
    m.shape K (m.encode kind) :=
  ⟨_, rfl, by simpa [NodeId.shape, NodeId.encode, Just, Span.shape_encode] using h⟩

theorem textShape_encode (text : String) : textShape text (.str text) := rfl

theorem boolShape_encode (b : Bool) : boolShape b (.bool b) := rfl

theorem wordShape_encode (n : UInt64) : wordShape n (.int n.toNat) := rfl

theorem namesShape_encode (names : List String) : namesShape names (encodeStrings names) :=
  arrayOf_encode textShape_encode names

theorem Span.written_encode (span : Span) {K : Shape} {kind : Json} (h : K kind) :
    span.written K (TypeExpr.encode.written span kind) :=
  ⟨_, rfl, by simpa [Span.shape_encode] using h⟩

mutual

theorem TypeExpr.shape_encode : ∀ t : TypeExpr, t.shape t.encode
  | .ident span name => span.written_encode (tagged_variant (textShape_encode name))
  | .qualified span package name =>
    span.written_encode (parts_variant (by simp [textShape_encode]))
  | .pointer span elem => span.written_encode (tagged_variant elem.shape_encode)
  | .struct span fields => span.written_encode (tagged_variant (Field.shapes_encodeAll fields))
  | .array span len elem => by
    have hlen := orNull_encode wordShape_encode (fun _ => Json.noConfusion) len
    have helem := elem.shape_encode
    exact span.written_encode (parts_variant ⟨.inl (by simpa using hlen), by simpa using helem⟩)
  | .map span key value => by
    have hkey := key.shape_encode
    have hvalue := value.shape_encode
    exact span.written_encode (parts_variant ⟨by simpa using hkey, by simpa using hvalue⟩)
  | .func span params results => by
    have hparams := Field.shapes_encodeAll params
    have hresults := Field.shapes_encodeAll results
    exact span.written_encode (parts_variant ⟨by simpa using hparams, by simpa using hresults⟩)
  | .interface span => span.written_encode (named_tag _)

theorem Field.shape_encode : ∀ f : Field, f.shape f.encode
  | .mk names type span => by
    have htype := type.shape_encode
    exact ⟨_, rfl, .inl (by simpa using namesShape_encode names), by simpa using htype,
      .inl (by simpa using span.shape_encode)⟩

theorem Field.shapes_encodeAll : ∀ fields : List Field,
    ArrayOf (Field.shapes fields) (.arr (Field.encodeAll fields))
  | [] => ⟨_, rfl, .nil⟩
  | f :: rest => arrayOf_cons f.shape_encode (Field.shapes_encodeAll rest)

end

theorem TypeExpr.encode_ne_null (t : TypeExpr) : t.encode ≠ .null := t.shape_encode.ne_null

mutual

theorem CheckedType.shape_encode : ∀ t : CheckedType, t.shape t.encode
  | .basic kind => tagged_variant (named_tag kind.tag)
  | .named name => tagged_variant (textShape_encode name)
  | .pointer elem => tagged_variant elem.shape_encode
  | .struct fields => tagged_variant (CheckedType.shapes_encodeAll fields)
  | .slice elem => tagged_variant elem.shape_encode
  | .tuple elems => tagged_variant (CheckedType.shapes_encodeAll elems)
  | .signature => named_tag _

theorem CheckedType.shapes_encodeAll : ∀ types : List CheckedType,
    ArrayOf (CheckedType.shapes types) (.arr (CheckedType.encodeAll types))
  | [] => ⟨_, rfl, .nil⟩
  | t :: rest => arrayOf_cons t.shape_encode (CheckedType.shapes_encodeAll rest)

end

mutual

theorem Expr.shape_encode : ∀ e : Expr, e.shape e.encode
  | .lit m kind text =>
    m.shape_encode (parts_variant (by simp [named_tag, textShape_encode]))
  | .ident m name => m.shape_encode (tagged_variant (textShape_encode name))
  | .paren m inner => m.shape_encode (tagged_variant inner.shape_encode)
  | .unary m op operand => by
    have hoperand := operand.shape_encode
    exact m.shape_encode (parts_variant ⟨by simp [named_tag], by simpa using hoperand⟩)
  | .binary m op left right => by
    have hleft := left.shape_encode
    have hright := right.shape_encode
    exact m.shape_encode (parts_variant
      ⟨by simp [named_tag], by simpa using hleft, by simpa using hright⟩)
  | .call m callee args => by
    have hcallee := callee.shape_encode
    have hargs := Expr.shapes_encodeAll args
    exact m.shape_encode (parts_variant ⟨by simpa using hcallee, by simpa using hargs⟩)
  | .selector m object field => by
    have hobject := object.shape_encode
    exact m.shape_encode (parts_variant ⟨by simpa using hobject, by simp [textShape_encode]⟩)
  | .index m object place => by
    have hobject := object.shape_encode
    have hplace := place.shape_encode
    exact m.shape_encode (parts_variant ⟨by simpa using hobject, by simpa using hplace⟩)
  | .deref m pointer => m.shape_encode (tagged_variant pointer.shape_encode)
  | .composite m type elems => by
    have htype := orNull_encode TypeExpr.shape_encode TypeExpr.encode_ne_null type
    have helems := Expr.shapes_encodeAll elems
    exact m.shape_encode (parts_variant ⟨.inl (by simpa using htype), by simpa using helems⟩)
  | .funcLit m => m.shape_encode (named_tag _)

theorem Expr.shapes_encodeAll : ∀ es : List Expr,
    ArrayOf (Expr.shapes es) (.arr (Expr.encodeAll es))
  | [] => ⟨_, rfl, .nil⟩
  | e :: rest => arrayOf_cons e.shape_encode (Expr.shapes_encodeAll rest)

end

theorem Expr.encode_ne_null (e : Expr) : e.encode ≠ .null := e.shape_encode.ne_null

theorem Expr.list_encode (es : List Expr) :
    ArrayOf (es.map Expr.shape) (.arr (Expr.encodeAll es)) :=
  Expr.shapes_eq es ▸ Expr.shapes_encodeAll es

mutual

theorem Stmt.shape_encode : ∀ s : Stmt, s.shape s.encode
  | .block m body => m.shape_encode (tagged_variant (Stmt.shapes_encodeAll body))
  | .empty m => m.shape_encode (named_tag _)
  | .expr m e => m.shape_encode (tagged_variant e.shape_encode)
  | .ifElse m init cond thenBranch elseBranch => by
    have hinit := Stmt.orNull_encodeOption init
    have hthen := thenBranch.shape_encode
    have helse := Stmt.orNull_encodeOption elseBranch
    exact m.shape_encode (parts_variant ⟨.inl (by simpa using hinit),
      by simpa using cond.shape_encode, by simpa using hthen, .inl (by simpa using helse)⟩)
  | .loop m init cond post body => by
    have hinit := Stmt.orNull_encodeOption init
    have hcond := orNull_encode Expr.shape_encode Expr.encode_ne_null cond
    have hpost := Stmt.orNull_encodeOption post
    have hbody := body.shape_encode
    exact m.shape_encode (parts_variant ⟨.inl (by simpa using hinit), .inl (by simpa using hcond),
      .inl (by simpa using hpost), by simpa using hbody⟩)
  | .switch m init subject clauses => by
    have hinit := Stmt.orNull_encodeOption init
    have hsubject := orNull_encode Expr.shape_encode Expr.encode_ne_null subject
    have hclauses := Clause.shapes_encodeAll clauses
    exact m.shape_encode (parts_variant ⟨.inl (by simpa using hinit),
      .inl (by simpa using hsubject), by simpa using hclauses⟩)
  | .ret m results => m.shape_encode (tagged_variant (Expr.list_encode results))
  | .assign m lhs rhs define =>
    m.shape_encode (parts_variant
      ⟨by simpa using Expr.list_encode lhs, by simpa using Expr.list_encode rhs,
        by simp [boolShape_encode]⟩)
  | .incDec m target inc =>
    m.shape_encode (parts_variant
      ⟨by simpa using target.shape_encode, by simp [boolShape_encode]⟩)
  | .jump m keyword label => by
    have hlabel := orNull_encode textShape_encode (fun _ => Json.noConfusion) label
    exact m.shape_encode (parts_variant
      ⟨by simp [textShape_encode], .inl (by simpa using hlabel)⟩)
  | .varDecl m names values =>
    m.shape_encode (parts_variant
      ⟨by simpa using namesShape_encode names, by simpa using Expr.list_encode values⟩)
  | .labeled m label body => by
    have hbody := body.shape_encode
    exact m.shape_encode (parts_variant ⟨by simp [textShape_encode], by simpa using hbody⟩)
  | .defer m call => m.shape_encode (tagged_variant call.shape_encode)
  | .go m call => m.shape_encode (tagged_variant call.shape_encode)
  | .range m value body => by
    have hbody := body.shape_encode
    exact m.shape_encode (parts_variant
      ⟨by simpa using value.shape_encode, by simpa using hbody⟩)

theorem Stmt.orNull_encodeOption : ∀ o : Option Stmt,
    OrNull (Stmt.optShape o) (Stmt.encodeOption o)
  | none => rfl
  | some s => ⟨s.shape_encode.ne_null, s.shape_encode⟩

theorem Stmt.shapes_encodeAll : ∀ body : List Stmt,
    ArrayOf (Stmt.shapes body) (.arr (Stmt.encodeAll body))
  | [] => ⟨_, rfl, .nil⟩
  | s :: rest => arrayOf_cons s.shape_encode (Stmt.shapes_encodeAll rest)

theorem Clause.shape_encode : ∀ c : Clause, c.shape c.encode
  | .mk values body span => by
    have hbody := Stmt.shapes_encodeAll body
    exact ⟨_, rfl, by simpa using Expr.list_encode values, by simpa using hbody,
      by simpa using span.shape_encode⟩

theorem Clause.shapes_encodeAll : ∀ clauses : List Clause,
    ArrayOf (Clause.shapes clauses) (.arr (Clause.encodeAll clauses))
  | [] => ⟨_, rfl, .nil⟩
  | c :: rest => arrayOf_cons c.shape_encode (Clause.shapes_encodeAll rest)

end

theorem TypeDecl.shape_encode (d : TypeDecl) : d.shape d.encode :=
  ⟨_, rfl, by simp [textShape_encode], by simpa using d.type.shape_encode⟩

theorem Field.list_encode (fields : List Field) :
    ArrayOf (fields.map Field.shape) (.arr (Field.encodeAll fields)) :=
  Field.shapes_eq fields ▸ Field.shapes_encodeAll fields

theorem FuncDecl.shape_encode (d : FuncDecl) : d.shape d.encode := by
  have hbody := Stmt.orNull_encodeOption d.body
  exact ⟨_, rfl, by simp [textShape_encode], by simpa using Field.list_encode d.params,
    by simpa using Field.list_encode d.results, .inl (by simpa using hbody)⟩

theorem Decl.shape_encode : ∀ d : Decl, d.shape d.encode
  | .type m d => m.shape_encode (tagged_variant d.shape_encode)
  | .func m d => m.shape_encode (tagged_variant d.shape_encode)
  | .var m names ty values isConst => by
    have hty := orNull_encode TypeExpr.shape_encode TypeExpr.encode_ne_null ty
    exact m.shape_encode (parts_variant ⟨by simpa using namesShape_encode names,
      .inl (by simpa using hty), by simpa using Expr.list_encode values,
      by simp [boolShape_encode]⟩)

namespace TypeTable

variable {entries : List (NodeId × CheckedType)}

theorem put_of_notMem {id : NodeId} (type : CheckedType) (h : id ∉ entries.map Prod.fst) :
    put id type entries = entries ++ [(id, type)] := by
  induction entries with
  | nil => rfl
  | cons entry rest ih =>
    obtain ⟨k, v⟩ := entry
    simp only [List.map_cons, List.mem_cons, not_or] at h
    rw [put, if_neg (Ne.symm h.1), ih h.2, List.cons_append]

theorem entries_foldl_insert (t : TypeTable)
    (h : ((t.entries ++ entries).map Prod.fst).Nodup) :
    (entries.foldl (fun t e => t.insert e.1 e.2) t).entries = t.entries ++ entries := by
  induction entries generalizing t with
  | nil => simp
  | cons entry rest ih =>
    have hnew : entry.1 ∉ t.entries.map Prod.fst := by
      rw [List.map_append, List.nodup_append] at h
      exact fun hmem => h.2.2 _ hmem _ (by simp) rfl
    have hput : (t.insert entry.1 entry.2).entries = t.entries ++ [entry] :=
      put_of_notMem entry.2 hnew
    rw [List.foldl_cons, ih _ (by rw [hput, List.append_assoc]; exact h), hput, List.append_assoc,
      List.singleton_append]

/-- A table of distinct nodes has the entries it was made of. -/
theorem entries_ofList (h : (entries.map Prod.fst).Nodup) :
    (TypeTable.ofList entries).entries = entries :=
  entries_foldl_insert .empty h

theorem eq_of_entries {t t' : TypeTable} (h : t.entries = t'.entries) : t = t' := by
  cases t
  cases t'
  cases h
  rfl

theorem ofList_entries (t : TypeTable) : TypeTable.ofList t.entries = t :=
  eq_of_entries (entries_ofList t.nodup)

theorem shape_encode (t : TypeTable) : t.shape t.encode := by
  refine ⟨t.entries, _, rfl, ?_, t.ofList_entries⟩
  rw [List.forall₂_map_right_iff, List.forall₂_same]
  exact fun entry _ => ⟨rfl, entry.2.shape_encode⟩

end TypeTable

theorem SourceUnit.shape_encode (u : SourceUnit) : u.shape u.encode :=
  ⟨_, rfl, by simp [textShape_encode], by simpa using arrayOf_encode Decl.shape_encode u.decls,
    .inl (by simpa using u.types.shape_encode)⟩

end Midend
