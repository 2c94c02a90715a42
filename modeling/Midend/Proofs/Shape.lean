import Mathlib.Data.List.Basic
import Mathlib.Data.List.Forall2
import Midend.Json.Decode

/-!
# Midend.Proofs.Shape

A shape is a set of JSON values: the ways to write one thing. Shapes of records only speak of the
fields they name, each of which stands at most once among any others and in any place. A decoder
reads a family of shapes if what it makes of a value is what the value has the shape of; a value of
the shape is decoded whenever it is not nested beyond the limit.
-/

namespace Midend

/-- The values that write one thing. -/
abbrev Json.Shape := Json → Prop

namespace Json

variable {α β γ : Type} {fs : Fields} {name tag : String} {n : Nat} {j : Json}

/-- Just one value. -/
def Just (v : Json) : Shape := fun j => j = v

/-- The fields hold a name once, with a value of a shape. -/
def HasField (fs : Fields) (name : String) (P : Shape) : Prop :=
  ∃ f, fs.filter (fun g => g.1.text == name) = [f] ∧ P f.2

/-- The fields do not hold a name. -/
def NoField (fs : Fields) (name : String) : Prop := ∀ f ∈ fs, f.1.text ≠ name

/-- A default need not be written. -/
def DefaultField (fs : Fields) (name : String) (isDefault : Prop) (P : Shape) : Prop :=
  HasField fs name P ∨ NoField fs name ∧ isDefault

/-- What is there as it is written, what is not as `null`. -/
def OrNull : Option Shape → Shape
  | some P => fun v => v ≠ .null ∧ P v
  | none => Just .null

/-- An option that is not there may also be written by no field at all. -/
def OptField (fs : Fields) (name : String) (P : Option Shape) : Prop :=
  DefaultField fs name (P = none) (OrNull P)

/-- A record: an object, or an array of its fields. -/
def Record (names : List String) (spare : Nat) (P : Fields → Prop) : Shape := fun j =>
  ∃ fs, record names spare j = .ok fs ∧ P fs

/-- A variant with data. -/
def Tagged (tag : String) (P : Shape) : Shape := fun j =>
  ∃ key v, key.text = tag ∧ j = .obj [(key, v)] ∧ P v

/-- A variant without data. -/
def Named (tag : String) : Shape := fun j => j = .str tag ∨ Tagged tag (Just .null) j

/-- An array with elements of the given shapes in order. -/
def ArrayOf (Ps : List Shape) : Shape := fun j =>
  ∃ xs, j = .arr xs ∧ List.Forall₂ (fun P x => P x) Ps xs

theorem field?_eq_some {v : Json} :
    field? fs name = .ok (some v) ↔ ∃ key, fs.filter (fun g => g.1.text == name) = [(key, v)] := by
  unfold field?
  split
  next h => rw [h]; simp
  next key w h => rw [h]; simp
  next h => simpa using fun key => h key v

theorem field?_eq_none : field? fs name = .ok none ↔ NoField fs name := by
  have hnil : NoField fs name ↔ fs.filter (fun g => g.1.text == name) = [] := by
    simp [NoField, List.filter_eq_nil_iff]
  rw [hnil]
  unfold field?
  split
  next h => rw [h]; simp
  next key w h => rw [h]; simp
  next h _ => simpa using h

theorem hasField_iff {P : Shape} :
    HasField fs name P ↔ ∃ v, field? fs name = .ok (some v) ∧ P v := by
  simp only [HasField, field?_eq_some]
  constructor
  · rintro ⟨⟨key, v⟩, hf, hv⟩
    exact ⟨v, ⟨key, hf⟩, hv⟩
  · rintro ⟨v, ⟨key, hf⟩, hv⟩
    exact ⟨(key, v), hf, hv⟩

theorem HasField.imp {P Q : Shape} (h : HasField fs name P) (hpq : ∀ v, P v → Q v) :
    HasField fs name Q := by
  obtain ⟨f, hf, hv⟩ := h
  exact ⟨f, hf, hpq _ hv⟩

theorem depth_le_elemsDepth {xs : List Json} {x : Json} (h : x ∈ xs) :
    x.depth ≤ elemsDepth xs := by
  induction xs with
  | nil => cases h
  | cons y rest ih =>
    rw [elemsDepth]
    rcases List.mem_cons.1 h with rfl | h
    · exact Nat.le_max_left _ _
    · exact Nat.le_trans (ih h) (Nat.le_max_right _ _)

theorem depth_le_fieldsDepth {f : Key × Json} (h : f ∈ fs) : f.2.depth ≤ fieldsDepth fs := by
  induction fs with
  | nil => cases h
  | cons g rest ih =>
    obtain ⟨key, v⟩ := g
    rw [fieldsDepth]
    rcases List.mem_cons.1 h with rfl | h
    · exact Nat.le_max_left _ _
    · exact Nat.le_trans (ih h) (Nat.le_max_right _ _)

theorem fieldsDepth_zip (keys : List Key) (xs : List Json) :
    fieldsDepth (keys.zip xs) ≤ elemsDepth xs := by
  induction keys generalizing xs with
  | nil => simp [fieldsDepth]
  | cons key keys ih =>
    cases xs with
    | nil => simp [fieldsDepth]
    | cons x xs =>
      rw [List.zip_cons_cons, fieldsDepth, elemsDepth]
      have := ih xs
      omega

/-- A field is nested less deeply than the record it stands in. -/
theorem record_depth {names : List String} {spare : Nat} (h : record names spare j = .ok fs) :
    fieldsDepth fs + 1 ≤ j.depth := by
  unfold record at h
  split at h
  next => cases h; exact Nat.le_refl _
  next xs =>
    split at h
    · cases h
      rw [depth]
      have := fieldsDepth_zip (names.map fun name => ⟨name, false⟩) xs
      omega
    · cases h
  next => cases h

theorem HasField.depth {P : Shape} (h : HasField fs name P) :
    HasField fs name fun v => v.depth ≤ fieldsDepth fs ∧ P v := by
  obtain ⟨f, hf, hv⟩ := h
  have hmem : f ∈ fs.filter fun g => g.1.text == name := by simp [hf]
  exact ⟨f, hf, depth_le_fieldsDepth (List.mem_filter.1 hmem).1, hv⟩

/-- Within a limit, a record leaves its fields a limit that is smaller by one. -/
theorem Record.opened {names : List String} {spare : Nat} {P : Fields → Prop}
    (h : Record names spare P j) (hn : j.depth ≤ n) :
    ∃ m fs, n = m + 1 ∧ fieldsDepth fs ≤ m ∧ record names spare j = .ok fs ∧ P fs := by
  obtain ⟨fs, hfs, hp⟩ := h
  have := record_depth hfs
  exact ⟨n - 1, fs, by omega, by omega, hfs, hp⟩

/-- Within a limit, a variant leaves its data a limit that is smaller by one. -/
theorem Tagged.opened {P : Shape} (h : Tagged tag P j) (hn : j.depth ≤ n) :
    ∃ m escaped v, n = m + 1 ∧ j = .obj [(⟨tag, escaped⟩, v)] ∧ v.depth ≤ m ∧ P v := by
  obtain ⟨⟨_, escaped⟩, v, rfl, rfl, hv⟩ := h
  simp only [Json.depth, fieldsDepth] at hn
  exact ⟨n - 1, escaped, v, by omega, rfl, by omega, hv⟩

theorem bind_eq_ok {x : Decoded α} {f : α → Decoded β} {b : β} :
    (x >>= f) = .ok b ↔ ∃ a, x = .ok a ∧ f a = .ok b := by
  cases x with
  | ok a => simp [bind, Except.bind]
  | error e => simp [bind, Except.bind]

theorem map_eq_ok {x : Decoded α} {f : α → β} {b : β} :
    x.map f = .ok b ↔ ∃ a, x = .ok a ∧ f a = b := by
  cases x with
  | ok a => simp [Except.map]
  | error e => simp [Except.map]

theorem mapM_eq_ok {f : α → Decoded β} {xs : List α} {ys : List β} :
    xs.mapM f = .ok ys ↔ List.Forall₂ (fun x y => f x = .ok y) xs ys := by
  induction xs generalizing ys with
  | nil =>
    rw [List.mapM_nil, List.forall₂_nil_left_iff]
    exact ⟨fun h => (Except.ok.inj h).symm, fun h => h ▸ rfl⟩
  | cons x xs ih =>
    simp only [List.mapM_cons, bind_eq_ok, ih, List.forall₂_cons_left_iff]
    constructor
    · rintro ⟨y, hy, ys', hys, h⟩
      exact ⟨y, ys', hy, hys, (Except.ok.inj h).symm⟩
    · rintro ⟨y, ys', hy, hys, rfl⟩
      exact ⟨y, hy, ys', hys, rfl⟩

/-! ## Reading -/

/-- A decoder that reads each value of a shape within the limit, and nothing but these shapes. -/
structure Reads (limit : Nat) (decode : Json → Decoded α) (shape : α → Shape) : Prop where
  sound : ∀ {j a}, decode j = .ok a → shape a j
  complete : ∀ {j a}, j.depth ≤ limit → shape a j → decode j = .ok a

/-- The same for what is decoded from the fields of a record. -/
structure ReadsFields (limit : Nat) (decode : Fields → Decoded α) (P : α → Fields → Prop) :
    Prop where
  sound : ∀ {fs a}, decode fs = .ok a → P a fs
  complete : ∀ {fs a}, fieldsDepth fs ≤ limit → P a fs → decode fs = .ok a

variable {decode : Json → Decoded α} {shape : α → Shape} {a default : α} {o : Option α}

theorem reads_ok (n : Nat) : Reads n .ok Just where
  sound h := Except.ok.inj h
  complete _ h := congrArg _ h

theorem reads_string (n : Nat) : Reads n asString fun s => Just (.str s) where
  sound {j a} h := by cases j <;> cases h; rfl
  complete _ h := by rw [h]; rfl

theorem reads_bool (n : Nat) : Reads n asBool fun b => Just (.bool b) where
  sound {j a} h := by cases j <;> cases h; rfl
  complete _ h := by rw [h]; rfl

theorem asNat_eq_ok {bound k : Nat} : j.asNat bound = .ok k ↔ j = .int k ∧ k < bound := by
  unfold asNat
  split
  next m =>
    split
    · simp only [Except.ok.injEq, int.injEq, Int.ofNat_eq_natCast]
      omega
    · simp only [reduceCtorEq, int.injEq, Int.ofNat_eq_natCast, false_iff]
      omega
  next hj =>
    simp only [reduceCtorEq, false_iff, not_and]
    rintro rfl
    exact absurd rfl (hj k)

theorem reads_uint32 (n : Nat) : Reads n asUInt32 fun k => Just (.int k.toNat) where
  sound h := by
    obtain ⟨k, hk, rfl⟩ := map_eq_ok.1 h
    obtain ⟨rfl, hlt⟩ := asNat_eq_ok.1 hk
    rw [UInt32.toNat_ofNat_of_lt' hlt]
    rfl
  complete {j k} _ h := map_eq_ok.2 ⟨k.toNat, asNat_eq_ok.2 ⟨h, k.toNat_lt⟩, UInt32.ofNat_toNat⟩

theorem reads_uint64 (n : Nat) : Reads n asUInt64 fun k => Just (.int k.toNat) where
  sound h := by
    obtain ⟨k, hk, rfl⟩ := map_eq_ok.1 h
    obtain ⟨rfl, hlt⟩ := asNat_eq_ok.1 hk
    rw [UInt64.toNat_ofNat_of_lt' hlt]
    rfl
  complete {j k} _ h := map_eq_ok.2 ⟨k.toNat, asNat_eq_ok.2 ⟨h, k.toNat_lt⟩, UInt64.ofNat_toNat⟩

/-- A field that is decoded later, under the limit that its record leaves. -/
theorem HasField.value {P : Shape} (h : HasField fs name P) (hn : fieldsDepth fs ≤ n) :
    ∃ v, Json.required fs name .ok = .ok v ∧ v.depth ≤ n ∧ P v := by
  obtain ⟨v, hv, hdepth, hp⟩ := hasField_iff.1 h.depth
  exact ⟨v, by simp only [Json.required, hv], Nat.le_trans hdepth hn, hp⟩

namespace Reads

theorem hasField (h : Reads n decode shape) (hd : required fs name decode = .ok a) :
    HasField fs name (shape a) := by
  unfold required at hd
  split at hd
  next => cases hd
  next => cases hd
  next v hv => exact hasField_iff.2 ⟨v, hv, h.sound hd⟩

theorem required (h : Reads n decode shape) (hn : fieldsDepth fs ≤ n)
    (hf : HasField fs name (shape a)) : required fs name decode = .ok a := by
  obtain ⟨v, hv, hdepth, hs⟩ := hasField_iff.1 hf.depth
  simp only [Json.required, hv]
  exact h.complete (Nat.le_trans hdepth hn) hs

theorem optField (h : Reads n decode shape) (hd : optional fs name decode = .ok o) :
    OptField fs name (o.map shape) := by
  unfold optional at hd
  split at hd
  next => cases hd
  next hnone => cases hd; exact .inr ⟨field?_eq_none.1 hnone, rfl⟩
  next hnull => cases hd; exact .inl (hasField_iff.2 ⟨.null, hnull, rfl⟩)
  next v hnull hv =>
    obtain ⟨a, ha, rfl⟩ := map_eq_ok.1 hd
    exact .inl (hasField_iff.2 ⟨v, hv, hnull, h.sound ha⟩)

theorem optional (h : Reads n decode shape) (hn : fieldsDepth fs ≤ n)
    (hf : OptField fs name (o.map shape)) : optional fs name decode = .ok o := by
  rcases hf with hf | ⟨hnone, ho⟩
  · obtain ⟨v, hv, hdepth, hs⟩ := hasField_iff.1 hf.depth
    cases o with
    | none =>
      obtain rfl : v = .null := hs
      simp only [Json.optional, hv]
    | some a =>
      obtain ⟨hnull, hs⟩ := hs
      simp only [Json.optional, hv, h.complete (Nat.le_trans hdepth hn) hs]
      rfl
  · obtain rfl := Option.map_eq_none_iff.1 ho
    simp only [Json.optional, field?_eq_none.2 hnone]

theorem defaultField (h : Reads n decode shape)
    (hd : defaulted fs name default decode = .ok a) :
    DefaultField fs name (a = default) (shape a) := by
  unfold defaulted at hd
  split at hd
  next => cases hd
  next hnone => cases hd; exact .inr ⟨field?_eq_none.1 hnone, rfl⟩
  next v hv => exact .inl (hasField_iff.2 ⟨v, hv, h.sound hd⟩)

theorem defaulted (h : Reads n decode shape) (hn : fieldsDepth fs ≤ n)
    (hf : DefaultField fs name (a = default) (shape a)) :
    defaulted fs name default decode = .ok a := by
  rcases hf with hf | ⟨hnone, rfl⟩
  · obtain ⟨v, hv, hdepth, hs⟩ := hasField_iff.1 hf.depth
    simp only [Json.defaulted, hv]
    exact h.complete (Nat.le_trans hdepth hn) hs
  · simp only [Json.defaulted, field?_eq_none.2 hnone]

/-- A record is read if its fields are, each within the limit that the record leaves. -/
theorem record {names : List String} {spare : Nat} {decode : Nat → Json → Decoded α}
    {decodeFields : Nat → Fields → Decoded α} {P : α → Fields → Prop}
    (hzero : ∀ j, decode 0 j = .error .tooDeep)
    (hsucc : ∀ n j, decode (n + 1) j = Json.record names spare j >>= decodeFields n)
    (h : ∀ k < n, ReadsFields k (decodeFields k) P) :
    Reads n (decode n) fun a => Record names spare (P a) where
  sound {j a} hd := by
    cases n with
    | zero => rw [hzero] at hd; cases hd
    | succ n =>
      rw [hsucc] at hd
      obtain ⟨fs, hfs, hd⟩ := bind_eq_ok.1 hd
      exact ⟨fs, hfs, (h n (by omega)).sound hd⟩
  complete hn hs := by
    obtain ⟨n, fs, rfl, hd, hfs, hP⟩ := Record.opened hs hn
    rw [hsucc]
    exact bind_eq_ok.2 ⟨fs, hfs, (h n (by omega)).complete hd hP⟩

theorem elements {decode : Nat → Json → Decoded α} (h : ∀ m < n, Reads m (decode m) shape) :
    Reads n (elements decode n) fun as => ArrayOf (as.map shape) where
  sound {j as} hd := by
    unfold Json.elements at hd
    split at hd
    next => cases hd
    next m xs =>
      refine ⟨xs, rfl, ?_⟩
      rw [List.forall₂_map_left_iff]
      exact (mapM_eq_ok.1 hd).flip.imp fun _ _ he => (h m (by omega)).sound he
    next => cases hd
  complete {j as} hn hs := by
    obtain ⟨xs, rfl, hs⟩ := hs
    rw [Json.depth] at hn
    obtain ⟨m, rfl⟩ : ∃ m, n = m + 1 := ⟨n - 1, by omega⟩
    rw [List.forall₂_map_left_iff] at hs
    have hxs : ∀ x ∈ xs, x.depth ≤ m := fun x hx =>
      Nat.le_trans (depth_le_elemsDepth hx) (by omega)
    refine mapM_eq_ok.2 (((List.forall₂_and_left _ _).2 ⟨hxs, hs.flip⟩).imp ?_)
    rintro x a ⟨hx, hs⟩
    exact (h m (by omega)).complete hx hs

end Reads

/-- A member of an enumeration is read from its name, if the names tell the members apart. -/
theorem reads_member {all : List α} {tag : α → String} (n : Nat)
    (hall : ∀ a, all.find? (fun b => tag b == tag a) = some a) :
    Reads n (member all tag n) fun a => Named (tag a) where
  sound {j a} h := by
    unfold member at h
    split at h
    next => cases h
    next name hname =>
      split at h
      next b hb =>
        cases h
        obtain rfl : tag a = name := by simpa using List.find?_some hb
        unfold variantName at hname
        split at hname
        next => cases hname; exact .inl rfl
        next => cases hname; exact .inr ⟨_, _, rfl, rfl, rfl⟩
        next => cases hname
        next => cases hname
      next => cases h
  complete {j a} hn h := by
    rcases h with rfl | h
    · simp only [member, variantName, hall]
    · obtain ⟨m, escaped, v, rfl, rfl, -, rfl⟩ := h.opened hn
      simp only [member, variantName, hall]

end Json
end Midend
