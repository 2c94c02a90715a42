import Midend.Proofs.Twin

/-!
# Midend.Proofs.TwinTyping

The same typing on two stores in which the same types are defined (`Typing.Agrees`): it finds a type
that is the same in both, or fails in the same way. What it adds may differ, as one of the stores
may already have the type.
-/

namespace Midend

open Ir Ir.TypeStore

namespace Typing

variable {α β γ δ : Type} {N : String → Prop} {s t : TypeStore}

/-- The steps end in the same way, with related results if they have any. -/
def Agrees (N : String → Prop) (m : Typing α) (m' : Typing β) (s t : TypeStore)
    (Q : TypeStore → TypeStore → α → β → Prop) : Prop :=
  ∃ s' t', Extends N s s' ∧ Extends N t t' ∧
    ((∃ a b, runOn m s = (.ok a, s') ∧ runOn m' t = (.ok b, t') ∧ Q s' t' a b) ∨
      ∃ f, runOn m s = (.error f, s') ∧ runOn m' t = (.error f, t'))

namespace Agrees

variable {m : Typing α} {m' : Typing β} {P Q : TypeStore → TypeStore → α → β → Prop}

theorem pure {a : α} {b : β} (h : Twin N s t) (hq : Q s t a b) :
    Agrees N (Pure.pure a) (Pure.pure b) s t Q :=
  ⟨s, t, .refl h.left, .refl h.right, .inl ⟨a, b, rfl, rfl, hq⟩⟩

theorem throw (h : Twin N s t) {f : Fault} :
    Agrees N (MonadExcept.throw f) (MonadExcept.throw f) s t Q :=
  ⟨s, t, .refl h.left, .refl h.right, .inr ⟨f, rfl, rfl⟩⟩

theorem mono (h : Agrees N m m' s t P)
    (hpq : ∀ a b s' t', Extends N s s' → Extends N t t' → P s' t' a b → Q s' t' a b) :
    Agrees N m m' s t Q := by
  obtain ⟨s', t', hs, ht, ⟨a, b, ha, hb, hp⟩ | hfail⟩ := h
  · exact ⟨s', t', hs, ht, .inl ⟨a, b, ha, hb, hpq a b s' t' hs ht hp⟩⟩
  · exact ⟨s', t', hs, ht, .inr hfail⟩

theorem bind {f : α → Typing γ} {f' : β → Typing δ} {R : TypeStore → TypeStore → γ → δ → Prop}
    (h : Twin N s t) (hm : Agrees N m m' s t P)
    (hf : ∀ a b s' t', Twin N s' t' → Extends N s s' → Extends N t t' → P s' t' a b →
      Agrees N (f a) (f' b) s' t' R) : Agrees N (m >>= f) (m' >>= f') s t R := by
  obtain ⟨s₁, t₁, hs, ht, ⟨a, b, ha, hb, hp⟩ | ⟨e, he, he'⟩⟩ := hm
  · obtain ⟨s₂, t₂, hs₂, ht₂, hout⟩ := hf a b s₁ t₁ (h.extend hs ht) hs ht hp
    refine ⟨s₂, t₂, hs.trans hs₂, ht.trans ht₂, ?_⟩
    rw [runOn_bind_ok ha, runOn_bind_ok hb]
    exact hout
  · exact ⟨s₁, t₁, hs, ht, .inr ⟨e, runOn_bind_error he, runOn_bind_error he'⟩⟩

end Agrees

theorem intern_agrees_found (h : Twin N s t) {a b : Ty} (hp : a.isPending = false)
    (hm : a.Matches (Alike s t) b) :
    Agrees N (ofStore (TypeStore.intern a)) (ofStore (TypeStore.intern b)) s t fun s' t' i j =>
      Alike s' t' i j ∧ s'.interned? a = some i ∧ t'.interned? b = some j := by
  have hs : Extends N s (TypeStore.intern a s).2 :=
    .intern h.left hp (hm.refs_left fun _ _ hij => hij.has_left)
  have ht : Extends N t (TypeStore.intern b t).2 :=
    .intern h.right (hm.isPending ▸ hp) (hm.flip.refs_left fun _ _ hij => hij.has_right)
  have hi := interned?_intern s a
  have hj := interned?_intern t b
  refine ⟨_, _, hs, ht, .inl ⟨_, _, runOn_ofStore _ s, runOn_ofStore _ t, ?_, hi, hj⟩⟩
  exact alike_of_interned? hi hj (hm.mono fun _ _ _ _ hij => h.alike hs ht hij)

theorem intern_agrees (h : Twin N s t) {a b : Ty} (hp : a.isPending = false)
    (hm : a.Matches (Alike s t) b) :
    Agrees N (ofStore (TypeStore.intern a)) (ofStore (TypeStore.intern b)) s t Alike :=
  (intern_agrees_found h hp hm).mono fun _ _ _ _ _ _ hij => hij.1

theorem int_agrees (h : Twin N s t) (bits : Nat) : Agrees N (int bits) (int bits) s t Alike :=
  intern_agrees h rfl (.int bits)

theorem bool_agrees (h : Twin N s t) : Agrees N bool bool s t Alike := int_agrees h 1

theorem float_agrees (h : Twin N s t) (kind : FloatKind) :
    Agrees N (float kind) (float kind) s t Alike := intern_agrees h rfl (.float kind)

theorem void_agrees (h : Twin N s t) :
    Agrees N (ofStore TypeStore.void) (ofStore TypeStore.void) s t Alike :=
  intern_agrees h rfl .void

theorem pointerTo_agrees (h : Twin N s t) {i j : TypeId} (hij : Alike s t i j) :
    Agrees N (pointerTo i) (pointerTo j) s t Alike := intern_agrees h rfl (.pointer hij)

theorem struct_agrees (h : Twin N s t) {is js : List TypeId}
    (hall : List.Forall₂ (Alike s t) is js) : Agrees N (struct is) (struct js) s t Alike :=
  intern_agrees h rfl (.struct hall)

theorem memoized_agrees (h : Twin N s t) {name : String} {a b : Ty} (hname : ¬ N name)
    (ha : s.untypedBody? name = some a) (hb : t.untypedBody? name = some b) (hvoid : a ≠ .void)
    (hp : a.isPending = false) :
    Agrees N (memoized name a) (memoized name b) s t fun s' t' i j =>
      s'.lookup? name = some i ∧ t'.lookup? name = some j := by
  have hm := matches_untyped ha hb
  have hvoid' : b ≠ .void := by
    rintro rfl
    cases hm
    exact hvoid rfl
  have hs : Extends N s (TypeStore.memoized name a s).2 :=
    .memoized h.left hvoid hp (hm.refs_left fun _ _ hij => hij.has_left) ha hname
  have ht : Extends N t (TypeStore.memoized name b t).2 :=
    .memoized h.right hvoid' (hm.isPending ▸ hp) (hm.flip.refs_left fun _ _ hij => hij.has_right)
      hb hname
  exact ⟨_, _, hs, ht, .inl ⟨_, _, runOn_ofStore _ s, runOn_ofStore _ t, lookup?_memoized s name a,
    lookup?_memoized t name b⟩⟩

theorem named_agrees (h : Twin N s t) {name : String} (hname : N name) (span : Span) :
    Agrees N (named name span) (named name span) s t Alike := by
  have hknown := h.known name hname
  refine ⟨s, t, .refl h.left, .refl h.right, ?_⟩
  rw [runOn_named, runOn_named]
  cases hi : s.lookup? name with
  | some i =>
    obtain ⟨j, hj⟩ := Option.isSome_iff_exists.mp (hknown.mp (by rw [hi]; rfl))
    rw [hj]
    exact .inl ⟨i, j, rfl, rfl, alike_of_lookup? hi hj⟩
  | none =>
    have hj : t.lookup? name = none := by
      rw [← Option.not_isSome_iff_eq_none, ← hknown, hi]
      simp
    rw [hj]
    exact .inr ⟨_, rfl, rfl⟩

theorem body_agrees (h : Twin N s t) {i j : TypeId} (hij : Alike s t i j) :
    Agrees N (body i) (body j) s t fun s' t' a b => a.Matches (Alike s' t') b := by
  obtain ⟨a, b, ha, hb, hm⟩ := h.matches_body hij
  exact ⟨s, t, .refl h.left, .refl h.right, .inl ⟨a, b, runOn_body ha, runOn_body hb, hm⟩⟩

theorem ref_agrees (h : Twin N s t) {i j : TypeId} (hij : Alike s t i j) :
    Agrees N (ref i) (ref j) s t fun _ _ text text' => text = text' := by
  obtain ⟨body, hbody⟩ := hij.has_left
  obtain ⟨text, htext⟩ := ref?_isSome h.left.wf hbody
  have htext' : t.ref? j = some text := (hij.ref?_eq h.left.wf h.right.wf).symm.trans htext
  exact ⟨s, t, .refl h.left, .refl h.right,
    .inl ⟨text, text, runOn_ref htext, runOn_ref htext', rfl⟩⟩

theorem attempt_agrees {m : Typing α} {m' : Typing β} {Q : TypeStore → TypeStore → α → β → Prop}
    (hm : Agrees N m m' s t Q) :
    Agrees N (attempt m) (attempt m') s t fun s' t' a b =>
      (∃ x y, a = some x ∧ b = some y ∧ Q s' t' x y) ∨ (a = none ∧ b = none) := by
  obtain ⟨s', t', hs, ht, ⟨a, b, ha, hb, hq⟩ | ⟨f, hf, hf'⟩⟩ := hm
  · refine ⟨s', t', hs, ht, .inl ⟨some a, some b, ?_, ?_, .inl ⟨a, b, rfl, rfl, hq⟩⟩⟩
    · rw [runOn_attempt, ha]
    · rw [runOn_attempt, hb]
  · refine ⟨s', t', hs, ht, ?_⟩
    rw [runOn_attempt, runOn_attempt, hf, hf']
    cases f with
    | breach b => exact .inr ⟨.breach b, rfl, rfl⟩
    | report e => exact .inl ⟨none, none, rfl, rfl, .inr ⟨rfl, rfl⟩⟩
    | abort u => exact .inl ⟨none, none, rfl, rfl, .inr ⟨rfl, rfl⟩⟩

theorem complex_agrees (h : Twin N s t) (kind : FloatKind) :
    Agrees N (complex kind) (complex kind) s t Alike :=
  (float_agrees h kind).bind h fun _ _ _ _ h₁ _ _ hparts =>
    struct_agrees h₁ (.cons hparts (.cons hparts .nil))

theorem stringFields_agrees (h : Twin N s t) :
    Agrees N stringFields stringFields s t fun s' t' is js =>
      List.Forall₂ (Alike s' t') is js ∧ BasicKind.string.bodyIn? s' 64 = some (.struct is) ∧
        BasicKind.string.bodyIn? t' 64 = some (.struct js) := by
  refine (intern_agrees_found h rfl (.int 8)).bind h fun byte byte' s₁ t₁ h₁ _ _ hbyte => ?_
  obtain ⟨hbytes, hbyte, hbyte'⟩ := hbyte
  refine (intern_agrees_found h₁ rfl (.pointer hbytes)).bind h₁
    fun data data' s₂ t₂ h₂ hs₂ ht₂ hdata => ?_
  obtain ⟨hdatas, hdata, hdata'⟩ := hdata
  refine (intern_agrees_found h₂ rfl (.int 64)).bind h₂
    fun length length' s₃ t₃ h₃ hs₃ ht₃ hlength => ?_
  obtain ⟨hlengths, hlength, hlength'⟩ := hlength
  refine .pure h₃ ⟨.cons (h₂.alike hs₃ ht₃ hdatas) (.cons hlengths .nil), ?_, ?_⟩
  · simp only [BasicKind.bodyIn?, Option.bind_eq_bind,
      interned?_le (hs₂.trans hs₃).le hbyte, interned?_le hs₃.le hdata, hlength, Option.bind_some]
    rfl
  · simp only [BasicKind.bodyIn?, Option.bind_eq_bind,
      interned?_le (ht₂.trans ht₃).le hbyte', interned?_le ht₃.le hdata', hlength',
      Option.bind_some]
    rfl

/-- The kinds of untyped constants have definitions of their own. -/
theorem basic_agrees (h : Twin N s t) (wordBits : Nat) {kind : BasicKind} (span : Span)
    (hkind : kind.isPlain = true ∨ ∀ name ∈ reservedTypeNames, ¬ N name) :
    Agrees N (basic wordBits kind span) (basic wordBits kind span) s t Alike := by
  have hfree : kind.isPlain = false → ∀ name ∈ reservedTypeNames, ¬ N name := by
    rintro hplain
    rcases hkind with hkind | hkind
    · rw [hplain] at hkind
      cases hkind
    · exact hkind
  have hconst : ∀ name a, name ∈ reservedTypeNames → kind.isPlain = false →
      (∀ u : TypeStore, u.untypedBody? name = some a) → a ≠ .void → a.isPending = false →
      Agrees N (memoized name a) (memoized name a) s t Alike := by
    intro name a hname hplain ha hvoid hp
    exact (memoized_agrees h (hfree hplain name hname) (ha s) (ha t) hvoid hp).mono
      fun _ _ _ _ _ _ hij => alike_of_lookup? hij.1 hij.2
  cases kind with
  | bool | int | int8 | int16 | int32 | int64 | uint | uint8 | uint16 | uint32 | uint64 | uintptr
  | unsafePointer => exact int_agrees h _
  | float32 | float64 => exact float_agrees h _
  | complex64 | complex128 => exact complex_agrees h _
  | string =>
    exact (stringFields_agrees h).bind h fun _ _ _ _ h₁ _ _ hfields => struct_agrees h₁ hfields.1
  | invalid => exact .throw h
  | untypedBool =>
    exact hconst _ _ (by simp [reservedTypeNames]) rfl
      (fun _ => by simp [untypedBody?]) (by simp) rfl
  | untypedInt =>
    exact hconst _ _ (by simp [reservedTypeNames]) rfl
      (fun _ => by simp [untypedBody?]) (by simp) rfl
  | untypedRune =>
    exact hconst _ _ (by simp [reservedTypeNames]) rfl
      (fun _ => by simp [untypedBody?]) (by simp) rfl
  | untypedFloat =>
    exact hconst _ _ (by simp [reservedTypeNames]) rfl
      (fun _ => by simp [untypedBody?]) (by simp) rfl
  | untypedComplex =>
    refine (memoized_agrees h (hfree rfl _ (by simp [reservedTypeNames])) (by simp [untypedBody?])
      (by simp [untypedBody?]) (by simp) rfl).bind h fun part part' s₁ t₁ h₁ _ _ hpart => ?_
    exact (memoized_agrees h₁ (hfree rfl _ (by simp [reservedTypeNames]))
      (by simp [untypedBody?, hpart.1]) (by simp [untypedBody?, hpart.2]) (by simp) rfl).mono
        fun _ _ _ _ _ _ hij => alike_of_lookup? hij.1 hij.2
  | untypedString =>
    refine (stringFields_agrees h).bind h fun is js s₁ t₁ h₁ _ _ hfields => ?_
    exact (memoized_agrees h₁ (hfree rfl _ (by simp [reservedTypeNames]))
      (by simp [untypedBody?, hfields.2.1]) (by simp [untypedBody?, hfields.2.2])
      (by simp) rfl).mono fun _ _ _ _ _ _ hij => alike_of_lookup? hij.1 hij.2
  | untypedNil =>
    refine (intern_agrees_found h rfl (.int 8)).bind h fun byte byte' s₁ t₁ h₁ _ _ hbyte => ?_
    exact (memoized_agrees h₁ (hfree rfl _ (by simp [reservedTypeNames]))
      (by simp [untypedBody?, hbyte.2.1]) (by simp [untypedBody?, hbyte.2.2]) (by simp) rfl).mono
        fun _ _ _ _ _ _ hij => alike_of_lookup? hij.1 hij.2

/-! ## Types as written, and types as checked -/

theorem forall₂_replicate_append {R : TypeId → TypeId → Prop} (n : Nat) {i j : TypeId} (hij : R i j)
    {is js : List TypeId} (hrest : List.Forall₂ R is js) :
    List.Forall₂ R (List.replicate n i ++ is) (List.replicate n j ++ js) := by
  induction n with
  | zero => exact hrest
  | succ n ih => exact .cons hij ih

mutual

theorem ofExpr_agrees (hN : ∀ name, N name) (wordBits : Nat) (e : TypeExpr) {s t : TypeStore}
    (h : Twin N s t) : Agrees N (ofExpr wordBits e) (ofExpr wordBits e) s t Alike := by
  cases e with
  | ident span name =>
    rw [ofExpr]
    cases hkind : BasicKind.ofName? name with
    | some kind => exact basic_agrees h wordBits span (.inl (BasicKind.isPlain_of_ofName? hkind))
    | none => exact named_agrees h (hN name) span
  | qualified span package name =>
    rw [ofExpr]
    split
    · exact int_agrees h wordBits
    · exact .throw h
  | pointer span elem =>
    rw [ofExpr]
    exact (ofExpr_agrees hN wordBits elem h).bind h fun _ _ _ _ h₁ _ _ helem =>
      pointerTo_agrees h₁ helem
  | struct span fields =>
    rw [ofExpr]
    exact (ofFields_agrees hN wordBits fields h).bind h fun _ _ _ _ h₁ _ _ hfields =>
      struct_agrees h₁ hfields
  | array | map | func | interface =>
    rw [ofExpr]
    exact .throw h

theorem ofFields_agrees (hN : ∀ name, N name) (wordBits : Nat) (fields : List Field)
    {s t : TypeStore} (h : Twin N s t) :
    Agrees N (ofFields wordBits fields) (ofFields wordBits fields) s t fun s' t' is js =>
      List.Forall₂ (Alike s' t') is js := by
  cases fields with
  | nil =>
    rw [ofFields]
    exact .pure h .nil
  | cons field rest =>
    obtain ⟨names, type, span⟩ := field
    rw [ofFields]
    refine (ofExpr_agrees hN wordBits type h).bind h fun i j s₁ t₁ h₁ _ _ hij => ?_
    refine (ofFields_agrees hN wordBits rest h₁).bind h₁ fun is js s₂ t₂ h₂ hs₂ ht₂ hrest => ?_
    exact .pure h₂ (forall₂_replicate_append _ (h₁.alike hs₂ ht₂ hij) hrest)

end

structure SameSignature (s t : TypeStore) (sig sig' : Signature) : Prop where
  params : List.Forall₂ (Alike s t) sig.params sig'.params
  ret : Alike s t sig.ret sig'.ret

theorem signatureOf_agrees (hN : ∀ name, N name) (wordBits : Nat) (decl : FuncDecl)
    (h : Twin N s t) :
    Agrees N (signatureOf wordBits decl) (signatureOf wordBits decl) s t SameSignature := by
  refine (ofFields_agrees hN wordBits decl.params h).bind h fun ps qs s₁ t₁ h₁ _ _ hparams => ?_
  refine (ofFields_agrees hN wordBits decl.results h₁).bind h₁ fun is js s₂ t₂ h₂ hs₂ ht₂ hall => ?_
  have hparams₂ := hparams.imp fun _ _ hij => h₁.alike hs₂ ht₂ hij
  cases hall with
  | nil =>
    refine (void_agrees h₂).bind h₂ fun i j s₃ t₃ h₃ hs₃ ht₃ hret => ?_
    exact .pure h₃ ⟨hparams₂.imp fun _ _ hij => h₂.alike hs₃ ht₃ hij, hret⟩
  | cons hij hrest =>
    cases hrest with
    | nil => exact .pure h₂ ⟨hparams₂, hij⟩
    | cons hij' hrest =>
      refine (struct_agrees h₂ (.cons hij (.cons hij' hrest))).bind h₂
        fun i j s₃ t₃ h₃ hs₃ ht₃ hret => ?_
      exact .pure h₃ ⟨hparams₂.imp fun _ _ hij => h₂.alike hs₃ ht₃ hij, hret⟩

end Typing

namespace CheckedType

mutual

/-- The names of declared types in the type. -/
def names : CheckedType → List String
  | .basic _ | .signature => []
  | .named name => [name]
  | .pointer elem | .slice elem => names elem
  | .struct fields => namesAll fields
  | .tuple elems => namesAll elems

def namesAll : List CheckedType → List String
  | [] => []
  | t :: rest => names t ++ namesAll rest

end

end CheckedType

namespace Typing

theorem ofChecked_agrees (hfree : ∀ name ∈ reservedTypeNames, ¬ N name) (wordBits : Nat)
    (span : Span) (c : CheckedType) (hnames : ∀ name ∈ c.names, N name) {s t : TypeStore}
    (h : Twin N s t) :
    Agrees N (ofChecked wordBits span c) (ofChecked wordBits span c) s t Alike := by
  cases c with
  | basic kind =>
    rw [ofChecked]
    exact basic_agrees h wordBits span (.inr hfree)
  | named name =>
    rw [ofChecked]
    exact named_agrees h (hnames name (by simp [CheckedType.names])) span
  | pointer elem =>
    rw [ofChecked]
    exact (ofChecked_agrees hfree wordBits span elem
      (fun name hname => hnames name (by rwa [CheckedType.names])) h).bind h
        fun _ _ _ _ h₁ _ _ helem => pointerTo_agrees h₁ helem
  | struct | slice | tuple | signature =>
    rw [ofChecked]
    · exact .throw h
    all_goals simp

end Typing

end Midend
