import Midend.Proofs.Form
import Midend.Tree.Decode

/-!
# Midend.Proofs.ReadType

The decoders of marks and types read the shapes of what they decode. The decoders of a family call
each other with smaller limits, so the proofs run by strong induction on the limit. Within a step,
one lemma follows the decoder through its cases and finds the shape of what comes out; another goes
through the variants of the tree and finds the decoder's case for a value of that shape.
-/

namespace Midend

open Json

variable {n : Nat} {j : Json} {fs : Fields} {tag : String} {m : Mark} {span : Span}

theorem NodeId.reads (n : Nat) : Reads n NodeId.decode NodeId.shape where
  sound h := by
    obtain ⟨k, hk, rfl⟩ := map_eq_ok.1 h
    exact (reads_uint32 n).sound hk
  complete {_ id} hn h := map_eq_ok.2 ⟨id.val, (reads_uint32 n).complete hn h, rfl⟩

theorem Span.reads (n : Nat) : Reads n (Span.decode n) Span.shape := by
  refine Reads.record (fun _ => rfl) (fun _ _ => rfl) fun n _ => ⟨?_, ?_⟩
  · intro fs s h
    simp only [bind_eq_ok, Except.ok.injEq] at h
    obtain ⟨start, hstart, stop, hstop, rfl⟩ := h
    exact ⟨(reads_uint64 n).hasField hstart, (reads_uint64 n).hasField hstop⟩
  · rintro fs s hd ⟨hstart, hstop⟩
    simp only [bind_eq_ok, Except.ok.injEq]
    exact ⟨s.start, (reads_uint64 n).required hd hstart, s.stop,
      (reads_uint64 n).required hd hstop, rfl⟩

theorem Mark.decode_eq_ok :
    Mark.decode n fs = .ok m ↔
      required fs "id" NodeId.decode = .ok m.id ∧
        required fs "span" (Span.decode n) = .ok m.span := by
  simp only [Mark.decode, bind_eq_ok, Except.ok.injEq]
  constructor
  · rintro ⟨id, hid, span, hspan, rfl⟩
    exact ⟨hid, hspan⟩
  · rintro ⟨hid, hspan⟩
    exact ⟨m.id, hid, m.span, hspan, rfl⟩

theorem reads_names (n : Nat) : Reads n (decodeStrings n) namesShape :=
  Reads.elements fun k _ => reads_string k

theorem BasicKind.reads (n : Nat) : Reads n (BasicKind.decode n) fun kind => Named kind.tag :=
  reads_member n fun kind => by cases kind <;> rfl

theorem LiteralKind.reads (n : Nat) : Reads n (LiteralKind.decode n) fun kind => Named kind.tag :=
  reads_member n fun kind => by cases kind <;> rfl

theorem BinaryOp.reads (n : Nat) : Reads n (BinaryOp.decode n) fun op => Named op.tag :=
  reads_member n fun op => by cases op <;> rfl

theorem UnaryOp.reads (n : Nat) : Reads n (UnaryOp.decode n) fun op => Named op.tag :=
  reads_member n fun op => by cases op <;> rfl

theorem Field.reads_all (h : ∀ k < n, Reads k (Field.decode k) Field.shape) :
    Reads n (Field.decodeAll n) fun fields => ArrayOf (Field.shapes fields) := by
  have heq : Field.decodeAll n = elements Field.decode n := by
    funext j
    cases n <;> cases j <;> simp [Field.decodeAll, elements]
  simpa [heq] using Reads.elements h

namespace TypeExpr

section

variable (ht : ∀ k < n, Reads k (TypeExpr.decode k) shape)
  (hf : ∀ k < n, Reads k (Field.decode k) Field.shape)

include ht hf

theorem parts_sound {t : TypeExpr} (h : decodeParts n span tag j = .ok t) :
    t.span = span ∧ ∀ escaped, t.kindShape (.obj [(⟨tag, escaped⟩, j)]) := by
  cases n with
  | zero => simp [decodeParts] at h
  | succ n =>
    have ht := ht n (by omega)
    have hfields := Field.reads_all fun k (hk : k < n) => hf k (by omega)
    unfold decodeParts at h
    split at h
    next =>
      simp only [bind_eq_ok, Except.ok.injEq] at h
      obtain ⟨fs, hfs, package, hp, name, hn, rfl⟩ := h
      exact ⟨rfl, fun _ => ⟨_, _, rfl, rfl, fs, hfs, (reads_string n).hasField hp,
        (reads_string n).hasField hn⟩⟩
    next =>
      simp only [bind_eq_ok, Except.ok.injEq] at h
      obtain ⟨fs, hfs, len, hl, elem, he, rfl⟩ := h
      exact ⟨rfl, fun _ => ⟨_, _, rfl, rfl, fs, hfs, (reads_uint64 n).optField hl,
        ht.hasField he⟩⟩
    next =>
      simp only [bind_eq_ok, Except.ok.injEq] at h
      obtain ⟨fs, hfs, key, hk, value, hv, rfl⟩ := h
      exact ⟨rfl, fun _ => ⟨_, _, rfl, rfl, fs, hfs, ht.hasField hk, ht.hasField hv⟩⟩
    next =>
      simp only [bind_eq_ok, Except.ok.injEq] at h
      obtain ⟨fs, hfs, params, hp, results, hr, rfl⟩ := h
      exact ⟨rfl, fun _ => ⟨_, _, rfl, rfl, fs, hfs, hfields.hasField hp, hfields.hasField hr⟩⟩
    next => cases h

theorem kind_sound {t : TypeExpr} (h : decodeKind n span j = .ok t) :
    t.span = span ∧ t.kindShape j := by
  unfold decodeKind at h
  split at h
  next =>
    split at h
    next htag => cases h; exact ⟨rfl, .inl (congrArg _ htag)⟩
    next => cases h
  next => cases h
  next n tag escaped data =>
    split at h
    next =>
      obtain ⟨name, hn, rfl⟩ := map_eq_ok.1 h
      exact ⟨rfl, _, _, rfl, rfl, (reads_string n).sound hn⟩
    next =>
      obtain ⟨elem, he, rfl⟩ := map_eq_ok.1 h
      exact ⟨rfl, _, _, rfl, rfl, (ht n (by omega)).sound he⟩
    next =>
      obtain ⟨fields, hs, rfl⟩ := map_eq_ok.1 h
      exact ⟨rfl, _, _, rfl, rfl, (Field.reads_all fun k hk => hf k (by omega)).sound hs⟩
    next => cases h; exact ⟨rfl, .inr ⟨_, _, rfl, rfl, rfl⟩⟩
    next =>
      obtain ⟨hspan, hshape⟩ :=
        parts_sound (fun k hk => ht k (by omega)) (fun k hk => hf k (by omega)) h
      exact ⟨hspan, hshape escaped⟩
  next => cases h

theorem kind_complete {t : TypeExpr} (hn : j.depth ≤ n) (h : t.kindShape j) :
    decodeKind n t.span j = .ok t := by
  cases t with
  | ident span name =>
    obtain ⟨n, escaped, v, rfl, rfl, hd, hv⟩ := Tagged.opened h hn
    exact map_eq_ok.2 ⟨name, (reads_string n).complete hd hv, rfl⟩
  | qualified span package name =>
    obtain ⟨n, escaped, v, fs, rfl, rfl, hd, hfs, hp, hn⟩ := partsShape_opened h hn
    show decodeParts (n + 1) span "Qualified" v = _
    simp only [decodeParts, bind_eq_ok, Except.ok.injEq]
    exact ⟨fs, hfs, package, (reads_string n).required hd hp, name,
      (reads_string n).required hd hn, rfl⟩
  | pointer span elem =>
    obtain ⟨n, escaped, v, rfl, rfl, hd, hv⟩ := Tagged.opened h hn
    exact map_eq_ok.2 ⟨elem, (ht n (by omega)).complete hd hv, rfl⟩
  | struct span fields =>
    obtain ⟨n, escaped, v, rfl, rfl, hd, hv⟩ := Tagged.opened h hn
    exact map_eq_ok.2 ⟨fields, (Field.reads_all fun k hk => hf k (by omega)).complete hd hv, rfl⟩
  | array span len elem =>
    obtain ⟨n, escaped, v, fs, rfl, rfl, hd, hfs, hl, he⟩ := partsShape_opened h hn
    show decodeParts (n + 1) span "Array" v = _
    simp only [decodeParts, bind_eq_ok, Except.ok.injEq]
    exact ⟨fs, hfs, len, (reads_uint64 n).optional hd hl, elem,
      (ht n (by omega)).required hd he, rfl⟩
  | map span key value =>
    obtain ⟨n, escaped, v, fs, rfl, rfl, hd, hfs, hk, hv⟩ := partsShape_opened h hn
    have ht := ht n (by omega)
    show decodeParts (n + 1) span "Map" v = _
    simp only [decodeParts, bind_eq_ok, Except.ok.injEq]
    exact ⟨fs, hfs, key, ht.required hd hk, value, ht.required hd hv, rfl⟩
  | func span params results =>
    obtain ⟨n, escaped, v, fs, rfl, rfl, hd, hfs, hp, hr⟩ := partsShape_opened h hn
    have hfields := Field.reads_all fun k (hk : k < n) => hf k (by omega)
    show decodeParts (n + 1) span "Func" v = _
    simp only [decodeParts, bind_eq_ok, Except.ok.injEq]
    exact ⟨fs, hfs, params, hfields.required hd hp, results, hfields.required hd hr, rfl⟩
  | interface span =>
    rcases h with rfl | h
    · simp [decodeKind, TypeExpr.span]
    · obtain ⟨n, escaped, v, rfl, rfl, -, rfl⟩ := Tagged.opened h hn
      simp [decodeKind, TypeExpr.span]

end

end TypeExpr

theorem TypeExpr.reads_step (ht : ∀ k < n, Reads k (TypeExpr.decode k) TypeExpr.shape)
    (hf : ∀ k < n, Reads k (Field.decode k) Field.shape) :
    Reads n (TypeExpr.decode n) TypeExpr.shape := by
  refine Reads.record (fun _ => by rw [decode]) (fun _ _ => by rw [decode]) fun n hn => ⟨?_, ?_⟩
  · intro fs t h
    simp only [bind_eq_ok] at h
    obtain ⟨span, hspan, kind, hkind, h⟩ := h
    obtain ⟨rfl, hshape⟩ :=
      kind_sound (fun k hk => ht k (by omega)) (fun k hk => hf k (by omega)) h
    exact ⟨((reads_ok n).hasField hkind).imp fun v hv => hv ▸ hshape,
      (Span.reads n).hasField hspan⟩
  · rintro fs t hd ⟨hkind, hspan⟩
    obtain ⟨kind, hkind, hdk, hshape⟩ := hkind.value hd
    simp only [bind_eq_ok]
    exact ⟨t.span, (Span.reads n).required hd hspan, kind, hkind,
      kind_complete (fun k hk => ht k (by omega)) (fun k hk => hf k (by omega)) hdk hshape⟩

theorem Field.reads_step (ht : ∀ k < n, Reads k (TypeExpr.decode k) TypeExpr.shape) :
    Reads n (Field.decode n) Field.shape := by
  rw [funext Field.shape_eq]
  refine Reads.record (fun _ => by rw [decode]) (fun _ _ => by rw [decode]) fun n hn => ⟨?_, ?_⟩
  · intro fs f h
    simp only [bind_eq_ok, Except.ok.injEq] at h
    obtain ⟨names, hnames, type, htype, span, hspan, rfl⟩ := h
    exact ⟨(reads_names n).defaultField hnames, (ht n hn).hasField htype,
      (Span.reads n).defaultField hspan⟩
  · rintro fs ⟨names, type, span⟩ hd ⟨hnames, htype, hspan⟩
    simp only [bind_eq_ok, Except.ok.injEq]
    exact ⟨names, (reads_names n).defaulted hd hnames, type, (ht n hn).required hd htype,
      span, (Span.reads n).defaulted hd hspan, rfl⟩

theorem TypeExpr.reads_both (n : Nat) :
    Reads n (TypeExpr.decode n) TypeExpr.shape ∧ Reads n (Field.decode n) Field.shape := by
  induction n using Nat.strongRecOn with
  | ind n ih =>
    exact ⟨reads_step (fun k hk => (ih k hk).1) fun k hk => (ih k hk).2,
      Field.reads_step fun k hk => (ih k hk).1⟩

theorem TypeExpr.reads (n : Nat) : Reads n (TypeExpr.decode n) TypeExpr.shape := (reads_both n).1

theorem Field.reads (n : Nat) : Reads n (Field.decode n) Field.shape := (TypeExpr.reads_both n).2

theorem CheckedType.reads_all (h : ∀ k < n, Reads k (CheckedType.decode k) CheckedType.shape) :
    Reads n (CheckedType.decodeAll n) fun types => ArrayOf (CheckedType.shapes types) := by
  have heq : CheckedType.decodeAll n = elements CheckedType.decode n := by
    funext j
    cases n <;> cases j <;> simp [CheckedType.decodeAll, elements]
  simpa [heq] using Reads.elements h

namespace CheckedType

theorem sound_step (ih : ∀ k < n, Reads k (CheckedType.decode k) shape) {t : CheckedType}
    (h : decode n j = .ok t) : t.shape j := by
  unfold decode at h
  split at h
  next =>
    split at h
    next htag => cases h; exact .inl (congrArg _ htag)
    next => cases h
  next => cases h
  next n tag escaped data =>
    have ih₀ := ih n (by omega)
    have hall := reads_all fun k (hk : k < n) => ih k (by omega)
    split at h
    next =>
      obtain ⟨kind, hk, rfl⟩ := map_eq_ok.1 h
      exact ⟨_, _, rfl, rfl, (BasicKind.reads n).sound hk⟩
    next =>
      obtain ⟨name, hn, rfl⟩ := map_eq_ok.1 h
      exact ⟨_, _, rfl, rfl, (reads_string n).sound hn⟩
    next =>
      obtain ⟨elem, he, rfl⟩ := map_eq_ok.1 h
      exact ⟨_, _, rfl, rfl, ih₀.sound he⟩
    next =>
      obtain ⟨fields, hf, rfl⟩ := map_eq_ok.1 h
      exact ⟨_, _, rfl, rfl, hall.sound hf⟩
    next =>
      obtain ⟨elem, he, rfl⟩ := map_eq_ok.1 h
      exact ⟨_, _, rfl, rfl, ih₀.sound he⟩
    next =>
      obtain ⟨elems, he, rfl⟩ := map_eq_ok.1 h
      exact ⟨_, _, rfl, rfl, hall.sound he⟩
    next => cases h; exact .inr ⟨_, _, rfl, rfl, rfl⟩
    next => cases h
  next => cases h

theorem complete_step (ih : ∀ k < n, Reads k (CheckedType.decode k) shape) {t : CheckedType}
    (hn : j.depth ≤ n) (h : t.shape j) : decode n j = .ok t := by
  cases t with
  | basic kind =>
    obtain ⟨n, escaped, v, rfl, rfl, hd, hv⟩ := Tagged.opened h hn
    exact map_eq_ok.2 ⟨kind, (BasicKind.reads n).complete hd hv, rfl⟩
  | named name =>
    obtain ⟨n, escaped, v, rfl, rfl, hd, hv⟩ := Tagged.opened h hn
    exact map_eq_ok.2 ⟨name, (reads_string n).complete hd hv, rfl⟩
  | pointer elem =>
    obtain ⟨n, escaped, v, rfl, rfl, hd, hv⟩ := Tagged.opened h hn
    exact map_eq_ok.2 ⟨elem, (ih n (by omega)).complete hd hv, rfl⟩
  | struct fields =>
    obtain ⟨n, escaped, v, rfl, rfl, hd, hv⟩ := Tagged.opened h hn
    exact map_eq_ok.2 ⟨fields, (reads_all fun k hk => ih k (by omega)).complete hd hv, rfl⟩
  | slice elem =>
    obtain ⟨n, escaped, v, rfl, rfl, hd, hv⟩ := Tagged.opened h hn
    exact map_eq_ok.2 ⟨elem, (ih n (by omega)).complete hd hv, rfl⟩
  | tuple elems =>
    obtain ⟨n, escaped, v, rfl, rfl, hd, hv⟩ := Tagged.opened h hn
    exact map_eq_ok.2 ⟨elems, (reads_all fun k hk => ih k (by omega)).complete hd hv, rfl⟩
  | signature =>
    rcases h with rfl | h
    · simp [decode]
    · obtain ⟨n, escaped, v, rfl, rfl, -, rfl⟩ := Tagged.opened h hn
      simp [decode]

theorem reads (n : Nat) : Reads n (CheckedType.decode n) shape := by
  induction n using Nat.strongRecOn with
  | ind n ih => exact ⟨sound_step ih, complete_step ih⟩

end CheckedType

/-- A node is read if its kind is, given the mark that was read before it. -/
theorem Mark.reads_node {α : Type} {mark : α → Mark} {kindShape : α → Shape}
    {decode : Nat → Json → Decoded α} {decodeKind : Nat → Mark → Json → Decoded α}
    (hzero : ∀ j, decode 0 j = .error .tooDeep)
    (hsucc : ∀ n j, decode (n + 1) j = do
      let fs ← record ["id", "kind", "span"] 0 j
      let m ← Mark.decode n fs
      let kind ← required fs "kind" .ok
      decodeKind n m kind)
    (h : ∀ k < n, ∀ m, Reads k (decodeKind k m) fun a j => mark a = m ∧ kindShape a j) :
    Reads n (decode n) fun a => (mark a).shape (kindShape a) := by
  refine Reads.record hzero hsucc fun n hn => ⟨?_, ?_⟩
  · intro fs a hd
    simp only [bind_eq_ok, Mark.decode_eq_ok] at hd
    obtain ⟨m, ⟨hid, hspan⟩, kind, hkind, hd⟩ := hd
    obtain ⟨rfl, hshape⟩ := (h n hn m).sound hd
    exact ⟨(NodeId.reads n).hasField hid,
      ((reads_ok n).hasField hkind).imp fun v hv => hv ▸ hshape, (Span.reads n).hasField hspan⟩
  · rintro fs a hd ⟨hid, hkind, hspan⟩
    obtain ⟨kind, hkind, hdk, hshape⟩ := hkind.value hd
    simp only [bind_eq_ok, Mark.decode_eq_ok]
    exact ⟨mark a, ⟨(NodeId.reads n).required hd hid, (Span.reads n).required hd hspan⟩,
      kind, hkind, (h n hn _).complete hdk ⟨rfl, hshape⟩⟩

end Midend
