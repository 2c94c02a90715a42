import Midend.Proofs.Numeral
import Midend.Proofs.ReadCode

/-!
# Midend.Proofs.ReadUnit

The decoders of declarations, of the type table and of the unit read their shapes. With as much
limit as a value is deep, the decoder of units accepts just the shapes of units.
-/

namespace Midend

open Json

variable {n : Nat} {j : Json} {m : Mark}

theorem TypeDecl.reads (n : Nat) : Reads n (TypeDecl.decode n) TypeDecl.shape := by
  refine Reads.record (fun _ => rfl) (fun _ _ => rfl) fun n _ => ⟨?_, ?_⟩
  · intro fs d h
    simp only [bind_eq_ok, Except.ok.injEq] at h
    obtain ⟨name, hname, type, htype, rfl⟩ := h
    exact ⟨(reads_string n).hasField hname, (TypeExpr.reads n).hasField htype⟩
  · rintro fs d hd ⟨hname, htype⟩
    simp only [bind_eq_ok, Except.ok.injEq]
    exact ⟨d.name, (reads_string n).required hd hname, d.type,
      (TypeExpr.reads n).required hd htype, rfl⟩

theorem Field.reads_list (n : Nat) :
    Reads n (Field.decodeAll n) fun fields => ArrayOf (fields.map Field.shape) := by
  simpa using Field.reads_all fun k (_ : k < n) => Field.reads k

theorem FuncDecl.reads (n : Nat) : Reads n (FuncDecl.decode n) FuncDecl.shape := by
  refine Reads.record (fun _ => rfl) (fun _ _ => rfl) fun n _ => ⟨?_, ?_⟩
  · intro fs d h
    simp only [bind_eq_ok, Except.ok.injEq] at h
    obtain ⟨name, hname, params, hp, results, hr, body, hb, rfl⟩ := h
    exact ⟨(reads_string n).hasField hname, (Field.reads_list n).hasField hp,
      (Field.reads_list n).hasField hr, (Stmt.reads n).optField hb⟩
  · rintro fs d hd ⟨hname, hp, hr, hb⟩
    simp only [bind_eq_ok, Except.ok.injEq]
    exact ⟨d.name, (reads_string n).required hd hname, d.params,
      (Field.reads_list n).required hd hp, d.results, (Field.reads_list n).required hd hr, d.body,
      (Stmt.reads n).optional hd hb, rfl⟩

namespace Decl

theorem kind_sound {d : Decl} (h : decodeKind n m j = .ok d) : d.mark = m ∧ d.kindShape j := by
  unfold decodeKind at h
  split at h
  next => cases h
  next n tag escaped data =>
    split at h
    next =>
      obtain ⟨d, hd, rfl⟩ := map_eq_ok.1 h
      exact ⟨rfl, _, _, rfl, rfl, (TypeDecl.reads n).sound hd⟩
    next =>
      obtain ⟨d, hd, rfl⟩ := map_eq_ok.1 h
      exact ⟨rfl, _, _, rfl, rfl, (FuncDecl.reads n).sound hd⟩
    next =>
      cases n with
      | zero => cases h
      | succ n =>
        simp only [decodeVar, bind_eq_ok, Except.ok.injEq] at h
        obtain ⟨fs, hfs, names, hnames, ty, ht, values, hv, isConst, hc, rfl⟩ := h
        exact ⟨rfl, _, _, rfl, rfl, fs, hfs, (reads_names n).hasField hnames,
          (TypeExpr.reads n).optField ht, (Expr.reads_list n).hasField hv,
          (reads_bool n).hasField hc⟩
    next => cases h
  next => cases h

theorem kind_complete {d : Decl} (hn : j.depth ≤ n) (h : d.kindShape j) :
    decodeKind n d.mark j = .ok d := by
  cases d with
  | type m d =>
    obtain ⟨n, escaped, v, rfl, rfl, hd, hv⟩ := Tagged.opened h hn
    exact map_eq_ok.2 ⟨d, (TypeDecl.reads n).complete hd hv, rfl⟩
  | func m d =>
    obtain ⟨n, escaped, v, rfl, rfl, hd, hv⟩ := Tagged.opened h hn
    exact map_eq_ok.2 ⟨d, (FuncDecl.reads n).complete hd hv, rfl⟩
  | var m names ty values isConst =>
    obtain ⟨n, escaped, v, fs, rfl, rfl, hd, hfs, hnames, ht, hv, hc⟩ := partsShape_opened h hn
    show decodeVar m (n + 1) v = _
    simp only [decodeVar, bind_eq_ok, Except.ok.injEq]
    exact ⟨fs, hfs, names, (reads_names n).required hd hnames, ty,
      (TypeExpr.reads n).optional hd ht, values, (Expr.reads_list n).required hd hv, isConst,
      (reads_bool n).required hd hc, rfl⟩

theorem reads_kind (n : Nat) (m : Mark) :
    Reads n (decodeKind n m) fun d j => d.mark = m ∧ d.kindShape j where
  sound h := kind_sound h
  complete hn h := by
    obtain ⟨rfl, h⟩ := h
    exact kind_complete hn h

theorem reads (n : Nat) : Reads n (Decl.decode n) shape :=
  Mark.reads_node (fun _ => rfl) (fun _ _ => rfl) fun k _ m => reads_kind k m

end Decl

namespace TypeTable

theorem decodeEntry_sound {f : Key × Json} {entry : NodeId × CheckedType}
    (h : decodeEntry n f = .ok entry) : EntryShape entry f := by
  unfold decodeEntry at h
  split at h
  next id hid =>
    obtain ⟨type, htype, rfl⟩ := map_eq_ok.1 h
    exact ⟨NodeId.ofKey?_eq_some.1 hid, (CheckedType.reads n).sound htype⟩
  next => cases h

theorem decodeEntry_complete {f : Key × Json} {entry : NodeId × CheckedType}
    (hn : f.2.depth ≤ n) (h : EntryShape entry f) : decodeEntry n f = .ok entry := by
  simp only [decodeEntry, NodeId.ofKey?_eq_some.2 h.1, (CheckedType.reads n).complete hn h.2]
  rfl

theorem reads (n : Nat) : Reads n (TypeTable.decode n) shape where
  sound {j t} h := by
    cases n with
    | zero => cases h
    | succ n =>
      simp only [TypeTable.decode, bind_eq_ok, Except.ok.injEq] at h
      obtain ⟨fs, hfs, entries, he, rfl⟩ := h
      cases j <;> cases hfs
      exact ⟨entries, _, rfl, (mapM_eq_ok.1 he).flip.imp fun _ _ => decodeEntry_sound, rfl⟩
  complete {j t} hn h := by
    obtain ⟨entries, fs, rfl, he, rfl⟩ := h
    cases n with
    | zero => cases hn
    | succ n =>
      have hdepth : ∀ f ∈ fs, f.2.depth ≤ n := fun f hf =>
        Nat.le_trans (depth_le_fieldsDepth hf) (Nat.le_of_succ_le_succ hn)
      simp only [TypeTable.decode, bind_eq_ok, Except.ok.injEq]
      refine ⟨fs, rfl, entries, mapM_eq_ok.2 ?_, rfl⟩
      refine ((List.forall₂_and_left _ _).2 ⟨hdepth, he.flip⟩).imp ?_
      rintro f entry ⟨hf, he⟩
      exact decodeEntry_complete hf he

end TypeTable

namespace SourceUnit

theorem reads (n : Nat) : Reads n (SourceUnit.decode n) shape := by
  refine Reads.record (fun _ => rfl) (fun _ _ => rfl) fun n _ => ⟨?_, ?_⟩
  all_goals have hdecls := Reads.elements fun k (_ : k < n) => Decl.reads k
  · intro fs u h
    simp only [bind_eq_ok, Except.ok.injEq] at h
    obtain ⟨name, hname, decls, hd, types, ht, rfl⟩ := h
    exact ⟨(reads_string n).hasField hname, hdecls.hasField hd, (TypeTable.reads n).defaultField ht⟩
  · rintro fs u hn ⟨hname, hd, ht⟩
    simp only [bind_eq_ok, Except.ok.injEq]
    exact ⟨u.name, (reads_string n).required hn hname, u.decls, hdecls.required hn hd, u.types,
      (TypeTable.reads n).defaulted hn ht, rfl⟩

theorem ofJson_eq_ok {u : SourceUnit} : ofJson j = .ok u ↔ u.shape j :=
  ⟨fun h => (reads _).sound h, fun h => (reads _).complete (Nat.le_refl _) h⟩

end SourceUnit

end Midend
