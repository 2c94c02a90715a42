import Midend.Proofs.Steps

/-!
# Midend.Proofs.Typing

What finding the type of something does to the store of types: it only adds, it keeps the store
well-formed, and it fails without breaking a contract (`Typing.Adds`). What was found once is found
again in every later store, which then stays as it is.
-/

namespace Midend

open Ir

/-- The kinds that a type as written may have: they have no definition of their own. -/
def BasicKind.isPlain : BasicKind → Bool
  | .invalid | .untypedBool | .untypedInt | .untypedRune | .untypedFloat | .untypedComplex
  | .untypedString | .untypedNil => false
  | _ => true

theorem BasicKind.isPlain_of_ofName? {name : String} {kind : BasicKind}
    (h : BasicKind.ofName? name = some kind) : kind.isPlain = true := by
  unfold BasicKind.ofName? at h
  split at h <;> cases h <;> rfl

namespace Typing

/-- From `s`, the step adds to the store at most. Its result has the property `P`, and every later
store already has it. -/
def Adds {α : Type} (m : Typing α) (s : TypeStore) (P : α → TypeStore → Prop) : Prop :=
  s ≤ (runOn m s).2 ∧ (runOn m s).2.WF ∧
    match (runOn m s).1 with
    | .ok a => P a (runOn m s).2 ∧ ∀ t, (runOn m s).2 ≤ t → runOn m t = (.ok a, t)
    | .error f => f.Tame

variable {α β : Type}

theorem Adds.of_ok {m : Typing α} {s s' : TypeStore} {a : α} {P : α → TypeStore → Prop}
    (h : runOn m s = (.ok a, s')) (hle : s ≤ s') (hw : s'.WF) (hp : P a s')
    (hagain : ∀ t, s' ≤ t → runOn m t = (.ok a, t)) : m.Adds s P := by
  unfold Adds
  rw [h]
  exact ⟨hle, hw, hp, hagain⟩

theorem Adds.of_error {m : Typing α} {s s' : TypeStore} {f : Fault} {P : α → TypeStore → Prop}
    (h : runOn m s = (.error f, s')) (hle : s ≤ s') (hw : s'.WF) (hf : f.Tame) : m.Adds s P := by
  unfold Adds
  rw [h]
  exact ⟨hle, hw, hf⟩

theorem Adds.cases {m : Typing α} {s : TypeStore} {P : α → TypeStore → Prop} (h : m.Adds s P) :
    (∃ a s', runOn m s = (.ok a, s') ∧ s ≤ s' ∧ s'.WF ∧ P a s' ∧
        ∀ t, s' ≤ t → runOn m t = (.ok a, t)) ∨
      ∃ f s', runOn m s = (.error f, s') ∧ s ≤ s' ∧ s'.WF ∧ f.Tame := by
  obtain ⟨hle, hw, hr⟩ := h
  obtain ⟨r, s', hrun⟩ : ∃ r s', runOn m s = (r, s') := ⟨_, _, rfl⟩
  rw [hrun] at hle hw hr
  cases r with
  | ok a => exact .inl ⟨a, s', hrun, hle, hw, hr.1, hr.2⟩
  | error f => exact .inr ⟨f, s', hrun, hle, hw, hr⟩

theorem Adds.mono {m : Typing α} {s : TypeStore} {P Q : α → TypeStore → Prop} (h : m.Adds s P)
    (hpq : ∀ a s', s ≤ s' → P a s' → Q a s') : m.Adds s Q := by
  rcases h.cases with ⟨a, s', hrun, hle, hw, hp, hagain⟩ | ⟨f, s', hrun, hle, hw, hf⟩
  · exact .of_ok hrun hle hw (hpq a s' hle hp) hagain
  · exact .of_error hrun hle hw hf

theorem Adds.pure {s : TypeStore} (hs : s.WF) {a : α} {P : α → TypeStore → Prop} (hp : P a s) :
    Adds (Pure.pure a) s P :=
  .of_ok (runOn_pure a s) (TypeStore.le_refl s) hs hp fun t _ => runOn_pure a t

theorem Adds.throw {s : TypeStore} (hs : s.WF) {f : Fault} (hf : f.Tame)
    {P : α → TypeStore → Prop} : Adds (throw f : Typing α) s P :=
  .of_error (runOn_throw f s) (TypeStore.le_refl s) hs hf

theorem Adds.abort {s : TypeStore} (hs : s.WF) {u : Unsupported} {P : α → TypeStore → Prop} :
    Adds (MonadExcept.throw (Fault.abort u) : Typing α) s P :=
  .throw hs (f := .abort u) trivial

theorem Adds.bind {x : Typing α} {f : α → Typing β} {s : TypeStore} {P : α → TypeStore → Prop}
    {Q : β → TypeStore → Prop} (hx : x.Adds s P)
    (hf : ∀ a s', s ≤ s' → s'.WF → P a s' → (f a).Adds s' Q) : (x >>= f).Adds s Q := by
  rcases hx.cases with ⟨a, s₁, hrun, hle, hw, hp, hagain⟩ | ⟨e, s₁, hrun, hle, hw, he⟩
  · rcases (hf a s₁ hle hw hp).cases with ⟨b, s₂, hrun₂, hle₂, hw₂, hq, hagain₂⟩ |
      ⟨e, s₂, hrun₂, hle₂, hw₂, he⟩
    · refine .of_ok (by rw [runOn_bind_ok hrun, hrun₂]) (TypeStore.le_trans hle hle₂) hw₂ hq
        fun t ht => ?_
      rw [runOn_bind_ok (hagain t (TypeStore.le_trans hle₂ ht))]
      exact hagain₂ t ht
    · exact .of_error (by rw [runOn_bind_ok hrun, hrun₂]) (TypeStore.le_trans hle hle₂) hw₂ he
  · exact .of_error (runOn_bind_error hrun) hle hw he

theorem intern_adds {s : TypeStore} (hs : s.WF) {body : Ty} (hp : body.isPending = false)
    (hrefs : ∀ ref ∈ body.refs, s.Has ref) :
    (ofStore (TypeStore.intern body)).Adds s fun id s' => s'.body? id = some body := by
  have hfound := TypeStore.interned?_intern s body
  refine .of_ok (runOn_ofStore _ s) (TypeStore.le_intern s hp)
    (hs.intern hp fun ref hr => (hrefs ref hr).index_lt)
    (TypeStore.body?_of_slot? (TypeStore.slot?_of_interned? hfound)) fun t ht => ?_
  rw [runOn_ofStore, TypeStore.intern_of_some (TypeStore.interned?_le ht hfound)]

theorem int_adds {s : TypeStore} (hs : s.WF) (bits : Nat) :
    (int bits).Adds s fun id s' => s'.body? id = some (.int bits) :=
  intern_adds hs rfl (by simp [Ty.refs])

theorem bool_adds {s : TypeStore} (hs : s.WF) :
    bool.Adds s fun id s' => s'.body? id = some (.int 1) := int_adds hs 1

theorem float_adds {s : TypeStore} (hs : s.WF) (kind : FloatKind) :
    (float kind).Adds s fun id s' => s'.body? id = some (.float kind) :=
  intern_adds hs rfl (by simp [Ty.refs])

theorem void_adds {s : TypeStore} (hs : s.WF) :
    (ofStore TypeStore.void).Adds s fun id s' => s'.body? id = some .void :=
  intern_adds hs rfl (by simp [Ty.refs])

theorem pointerTo_adds {s : TypeStore} (hs : s.WF) {elem : TypeId} (he : s.Has elem) :
    (pointerTo elem).Adds s fun id s' => s'.body? id = some (.pointer elem) :=
  intern_adds hs rfl (by simpa [Ty.refs] using he)

theorem struct_adds {s : TypeStore} (hs : s.WF) {fields : List TypeId}
    (hf : ∀ field ∈ fields, s.Has field) :
    (struct fields).Adds s fun id s' => s'.body? id = some (.struct fields) :=
  intern_adds hs rfl (by simpa [Ty.refs] using hf)

theorem memoized_adds {s : TypeStore} (hs : s.WF) (name : String) {body : Ty} (hb : body ≠ .void)
    (hp : body.isPending = false) (hrefs : ∀ ref ∈ body.refs, s.Has ref) :
    (memoized name body).Adds s fun id s' => s'.Proper id := by
  have hfound := TypeStore.lookup?_memoized s name body
  have hw : (TypeStore.memoized name body s).2.WF :=
    hs.memoized hb fun ref hr => (hrefs ref hr).index_lt
  obtain ⟨b, hslot⟩ := TypeStore.slot?_of_lookup? hfound
  refine .of_ok (runOn_ofStore _ s) (TypeStore.le_memoized s name hp) hw
    ⟨b, TypeStore.body?_of_slot? hslot, hw.named _ _ _ hslot⟩ fun t ht => ?_
  rw [memoized, runOn_ofStore, TypeStore.memoized_of_some (TypeStore.lookup?_le ht hfound)]

theorem runOn_named (name : String) (span : Span) (s : TypeStore) :
    runOn (named name span) s =
      match s.lookup? name with
      | some id => (.ok id, s)
      | none => (.error (.report (.undefinedType name span)), s) := by
  rw [named, runOn_bind_ok (runOn_get s)]
  cases s.lookup? name <;> rfl

theorem named_adds {s : TypeStore} (hs : s.WF) (name : String) (span : Span) :
    (named name span).Adds s fun id s' => s'.Proper id := by
  cases h : s.lookup? name with
  | some id =>
    obtain ⟨b, hslot⟩ := TypeStore.slot?_of_lookup? h
    refine .of_ok (by rw [runOn_named, h]) (TypeStore.le_refl s) hs
      ⟨b, TypeStore.body?_of_slot? hslot, hs.named _ _ _ hslot⟩ fun t ht => ?_
    rw [runOn_named, TypeStore.lookup?_le ht h]
  | none =>
    have hplain : (Fault.report (.undefinedType name span)).Tame := trivial
    exact .of_error (by rw [runOn_named, h]) (TypeStore.le_refl s) hs hplain

theorem proper_of_body? {s : TypeStore} {id : TypeId} {body : Ty} (h : s.body? id = some body)
    (hb : body ≠ .void) : s.Proper id := ⟨body, h, hb⟩

theorem stringFields_adds {s : TypeStore} (hs : s.WF) :
    stringFields.Adds s fun fields s' => ∀ field ∈ fields, s'.Has field := by
  refine (int_adds hs 8).bind fun byte s₁ _ hw₁ hbyte => ?_
  refine (pointerTo_adds hw₁ ⟨_, hbyte⟩).bind fun data s₂ _ hw₂ hdata => ?_
  refine (int_adds hw₂ 64).bind fun length s₃ hle₃ hw₃ hlength => ?_
  refine .pure hw₃ fun field hfield => ?_
  simp only [List.mem_cons, List.not_mem_nil, or_false] at hfield
  rcases hfield with rfl | rfl
  · exact ⟨_, TypeStore.body?_le hle₃ hdata⟩
  · exact ⟨_, hlength⟩

theorem solid_of_body? {s : TypeStore} {id : TypeId} {body : Ty} (h : s.body? id = some body)
    (hv : body ≠ .void) (hp : body.isPending = false) : s.Solid id := ⟨body, h, hv, hp⟩

theorem complex_adds {s : TypeStore} (hs : s.WF) (kind : FloatKind) :
    (complex kind).Adds s fun id s' => s'.Solid id := by
  refine (float_adds hs kind).bind fun part s₁ _ hw₁ hpart => ?_
  refine (struct_adds hw₁ ?_).mono fun id s' _ hid => solid_of_body? hid (by simp) rfl
  intro field hfield
  obtain rfl : field = part := by simpa using hfield
  exact ⟨_, hpart⟩

theorem plain_adds {s : TypeStore} (hs : s.WF) (wordBits : Nat) {kind : BasicKind}
    (hkind : kind.isPlain = true) (span : Span) :
    (basic wordBits kind span).Adds s fun id s' => s'.Solid id := by
  have hint : ∀ bits, (int bits).Adds s fun id s' => s'.Solid id := fun bits =>
    (int_adds hs bits).mono fun id s' _ hid => solid_of_body? hid (by simp) rfl
  have hfloat : ∀ kind, (float kind).Adds s fun id s' => s'.Solid id := fun kind =>
    (float_adds hs kind).mono fun id s' _ hid => solid_of_body? hid (by simp) rfl
  cases kind with
  | bool | int | int8 | int16 | int32 | int64 | uint | uint8 | uint16 | uint32 | uint64 | uintptr
  | unsafePointer => exact hint _
  | float32 | float64 => exact hfloat _
  | complex64 | complex128 => exact complex_adds hs _
  | string =>
    refine (stringFields_adds hs).bind fun fields s₁ _ hw₁ hfields => ?_
    exact (struct_adds hw₁ hfields).mono fun id s' _ hid => solid_of_body? hid (by simp) rfl
  | invalid | untypedBool | untypedInt | untypedRune | untypedFloat | untypedComplex
  | untypedString | untypedNil => cases hkind

/-- Every basic kind has an encoding, apart from the invalid one. -/
theorem basic_adds {s : TypeStore} (hs : s.WF) (wordBits : Nat) (kind : BasicKind) (span : Span) :
    (basic wordBits kind span).Adds s fun id s' => s'.Proper id := by
  by_cases hkind : kind.isPlain = true
  · exact (plain_adds hs wordBits hkind span).mono fun _ _ _ hid => hid.proper
  cases kind with
  | invalid => exact .abort hs
  | untypedBool | untypedInt | untypedRune | untypedFloat =>
    exact memoized_adds hs _ (by simp) rfl (by simp [Ty.refs])
  | untypedComplex =>
    refine (memoized_adds hs _ (by simp) rfl (by simp [Ty.refs])).bind fun part s₁ _ hw₁ hpart => ?_
    exact memoized_adds hw₁ _ (by simp) rfl (by simpa [Ty.refs] using hpart.has)
  | untypedString =>
    refine (stringFields_adds hs).bind fun fields s₁ _ hw₁ hfields => ?_
    exact memoized_adds hw₁ _ (by simp) rfl hfields
  | untypedNil =>
    refine (int_adds hs 8).bind fun byte s₁ _ hw₁ hbyte => ?_
    exact memoized_adds hw₁ _ (by simp) rfl (by simpa [Ty.refs] using ⟨_, hbyte⟩)
  | _ => exact absurd rfl hkind

/-! ## Types as written, and types as checked -/

mutual

theorem ofExpr_adds (wordBits : Nat) (t : TypeExpr) {s : TypeStore} (hs : s.WF) :
    (ofExpr wordBits t).Adds s fun id s' => s'.Proper id := by
  cases t with
  | ident span name =>
    rw [ofExpr]
    cases BasicKind.ofName? name with
    | some kind => exact basic_adds hs wordBits kind span
    | none => exact named_adds hs name span
  | qualified span package name =>
    rw [ofExpr]
    split
    · exact (int_adds hs wordBits).mono fun id s' _ hid => proper_of_body? hid (by simp)
    · exact .abort hs
  | pointer span elem =>
    rw [ofExpr]
    refine (ofExpr_adds wordBits elem hs).bind fun elem s₁ _ hw₁ helem => ?_
    exact (pointerTo_adds hw₁ helem.has).mono fun id s' _ hid => proper_of_body? hid (by simp)
  | struct span fields =>
    rw [ofExpr]
    refine (ofFields_adds wordBits fields hs).bind fun ids s₁ _ hw₁ hids => ?_
    exact (struct_adds hw₁ fun id hid => (hids.1 id hid).has).mono
      fun id s' _ hid => proper_of_body? hid (by simp)
  | array span len elem => rw [ofExpr]; exact .abort hs
  | map span key value => rw [ofExpr]; exact .abort hs
  | func span params results => rw [ofExpr]; exact .abort hs
  | interface span => rw [ofExpr]; exact .abort hs

theorem ofFields_adds (wordBits : Nat) (fields : List Field) {s : TypeStore} (hs : s.WF) :
    (ofFields wordBits fields).Adds s fun ids s' =>
      (∀ id ∈ ids, s'.Proper id) ∧ ids.length = (Field.flatten fields).length := by
  cases fields with
  | nil => rw [ofFields]; exact .pure hs ⟨by simp, rfl⟩
  | cons field rest =>
    obtain ⟨names, type, span⟩ := field
    rw [ofFields]
    refine (ofExpr_adds wordBits type hs).bind fun id s₁ _ hw₁ hid => ?_
    refine (ofFields_adds wordBits rest hw₁).bind fun ids s₂ hle₂ hw₂ hids => ?_
    refine .pure hw₂ ⟨fun id' hid' => ?_, ?_⟩
    · rcases List.mem_append.mp hid' with h | h
      · obtain rfl := List.eq_of_mem_replicate h
        exact hid.le hle₂
      · exact hids.1 id' h
    · have hentries : (Field.mk names type span).entries.length = max names.length 1 := by
        cases names with
        | nil => rfl
        | cons name names => simp [Field.entries, Field.names]
      simp [Field.flatten, hids.2, hentries]

end

theorem ofChecked_adds (wordBits : Nat) (span : Span) (t : CheckedType) {s : TypeStore}
    (hs : s.WF) : (ofChecked wordBits span t).Adds s fun id s' => s'.Proper id := by
  cases t with
  | basic kind => rw [ofChecked]; exact basic_adds hs wordBits kind span
  | named name => rw [ofChecked]; exact named_adds hs name span
  | pointer elem =>
    rw [ofChecked]
    refine (ofChecked_adds wordBits span elem hs).bind fun elem s₁ _ hw₁ helem => ?_
    exact (pointerTo_adds hw₁ helem.has).mono fun id s' _ hid => proper_of_body? hid (by simp)
  | struct | slice | tuple | signature => exact .abort hs

theorem eq_nil_of_flatten {fields : List Field} (h : Field.flatten fields = []) : fields = [] := by
  cases fields with
  | nil => rfl
  | cons field rest =>
    obtain ⟨names, type, span⟩ := field
    cases names <;> cases h

theorem signatureOf_adds (wordBits : Nat) (decl : FuncDecl) {s : TypeStore} (hs : s.WF) :
    (signatureOf wordBits decl).Adds s fun sig s' =>
      (∀ param ∈ sig.params, s'.Proper param) ∧ s'.Has sig.ret ∧
        (decl.results ≠ [] → s'.Proper sig.ret) ∧
          sig.params.length = (Field.flatten decl.params).length := by
  refine (ofFields_adds wordBits decl.params hs).bind fun params s₁ _ hw₁ hparams => ?_
  refine (ofFields_adds wordBits decl.results hw₁).bind fun results s₂ hle₂ hw₂ hresults => ?_
  have hparams₂ : ∀ param ∈ params, s₂.Proper param := fun param hp => (hparams.1 param hp).le hle₂
  cases results with
  | nil =>
    refine (void_adds hw₂).bind fun ret s₃ hle₃ hw₃ hret => ?_
    have hnone : decl.results = [] :=
      eq_nil_of_flatten (List.length_eq_zero_iff.mp hresults.2.symm)
    exact .pure hw₃ ⟨fun param hp => (hparams₂ param hp).le hle₃, ⟨_, hret⟩,
      fun hsome => absurd hnone hsome, hparams.2⟩
  | cons result rest =>
    cases rest with
    | nil =>
      have hresult := hresults.1 result (by simp)
      exact .pure hw₂ ⟨hparams₂, hresult.has, fun _ => hresult, hparams.2⟩
    | cons second rest =>
      refine (struct_adds hw₂ fun id hid => (hresults.1 id hid).has).bind
        fun ret s₃ hle₃ hw₃ hret => ?_
      exact .pure hw₃ ⟨fun param hp => (hparams₂ param hp).le hle₃, ⟨_, hret⟩,
        fun _ => proper_of_body? hret (by simp), hparams.2⟩

end Typing

end Midend
