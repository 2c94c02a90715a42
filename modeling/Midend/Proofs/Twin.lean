import Midend.Proofs.Alike
import Midend.Proofs.Undefined

/-!
# Midend.Proofs.Twin

Two stores in which the same types are defined (`TypeStore.Twin`), each under its own number and
among types of its own, and the same step run on both of them (`Typing.Agrees`): it finds the same
type in both, or fails in the same way. The definitions of untyped constants are made when they are
first needed, so a store may have them or not; where it has one, its body is always the same
(`TypeStore.Regular`).
-/

namespace Midend

open Ir

namespace Ir.TypeStore

variable {N : String → Prop} {s s' t t' u : TypeStore} {i j : TypeId} {a b : Ty} {name : String}

/-- The body of the definition of that reserved name, if the types in it are there. -/
def untypedBody? (s : TypeStore) (name : String) : Option Ty :=
  match name with
  | "untyped_bool" => some (.int 1)
  | "untyped_int" => some (.int 64)
  | "untyped_rune" => some (.int 32)
  | "untyped_float" => some (.float .double)
  | "untyped_complex" => (s.lookup? "untyped_float").map fun part => .struct [part, part]
  | "untyped_string" => BasicKind.string.bodyIn? s 64
  | "untyped_nil" => (s.interned? (.int 8)).map .pointer
  | _ => none

theorem untypedBody?_le (h : s ≤ t) (ha : s.untypedBody? name = some a) :
    t.untypedBody? name = some a := by
  unfold untypedBody? at ha ⊢
  split at ha
  · exact ha
  · exact ha
  · exact ha
  · exact ha
  · obtain ⟨part, hpart, hstruct⟩ := Option.map_eq_some_iff.mp ha
    exact Option.map_eq_some_iff.mpr ⟨part, lookup?_le h hpart, hstruct⟩
  · exact BasicKind.bodyIn?_keeps (.of_le h) ha
  · obtain ⟨byte, hbyte, hpointer⟩ := Option.map_eq_some_iff.mp ha
    exact Option.map_eq_some_iff.mpr ⟨byte, interned?_le h hbyte, hpointer⟩
  · cases ha

/-- A well-formed store in which reserved names have their own definitions only. -/
structure Regular (s : TypeStore) : Prop where
  wf : s.WF
  untyped : ∀ i name a, s.slot? i = some ⟨some name, a⟩ → name ∈ reservedTypeNames →
    s.untypedBody? name = some a

theorem Regular.intern (h : s.Regular) (hp : a.isPending = false)
    (hrefs : ∀ ref ∈ a.refs, s.Has ref) : (intern a s).2.Regular := by
  refine ⟨h.wf.intern hp fun ref href => (hrefs ref href).index_lt, fun i name b hi hname => ?_⟩
  refine untypedBody?_le (le_intern s hp) (h.untyped i name b ?_ hname)
  rcases intern_cases s a with ⟨_, _, hsame⟩ | ⟨_, hpush⟩
  · rw [hsame] at hi
    exact hi
  · rw [hpush] at hi
    rcases slot?_push_cases hi with ⟨_, heq⟩ | hold
    · cases heq
    · exact hold

theorem Regular.memoized (h : s.Regular) (ha : a ≠ .void) (hp : a.isPending = false)
    (hrefs : ∀ ref ∈ a.refs, s.Has ref) (hbody : s.untypedBody? name = some a) :
    (memoized name a s).2.Regular := by
  refine ⟨h.wf.memoized ha fun ref href => (hrefs ref href).index_lt, fun i name' b hi hname => ?_⟩
  refine untypedBody?_le (le_memoized s name hp) ?_
  rcases memoized_cases s name a with ⟨_, _, hsame⟩ | ⟨_, hpush⟩
  · rw [hsame] at hi
    exact h.untyped i name' b hi hname
  · rw [hpush] at hi
    rcases slot?_push_cases hi with ⟨_, heq⟩ | hold
    · cases heq
      exact hbody
    · exact h.untyped i name' b hold hname

/-- The store got more types, but none with a name of the given ones. -/
structure Extends (N : String → Prop) (s t : TypeStore) : Prop where
  le : s ≤ t
  regular : t.Regular
  names : ∀ name, N name → t.lookup? name = s.lookup? name

namespace Extends

theorem refl (h : s.Regular) : Extends N s s := ⟨le_refl s, h, fun _ _ => rfl⟩

theorem trans (h₁ : Extends N s t) (h₂ : Extends N t u) : Extends N s u :=
  ⟨le_trans h₁.le h₂.le, h₂.regular, fun name hn => (h₂.names name hn).trans (h₁.names name hn)⟩

theorem slot? (h : Extends N s t) (hname : N name) (hi : t.slot? i = some ⟨some name, a⟩) :
    s.slot? i = some ⟨some name, a⟩ := by
  have hlook := h.regular.wf.looked i name a hi
  rw [h.names name hname] at hlook
  obtain ⟨a', hslot⟩ := slot?_of_lookup? hlook
  rw [hslot, ← hi, slot?_le h.le hslot]

theorem intern (h : s.Regular) (hp : a.isPending = false) (hrefs : ∀ ref ∈ a.refs, s.Has ref) :
    Extends N s (intern a s).2 := by
  refine ⟨le_intern s hp, h.intern hp hrefs, fun name _ => ?_⟩
  rcases intern_cases s a with ⟨_, _, hsame⟩ | ⟨_, hpush⟩
  · rw [hsame]
  · rw [hpush]
    cases hlook : s.lookup? name with
    | some i => exact find?_push_of_some hlook
    | none =>
      refine find?_eq_none.mpr fun i slot hi => ?_
      rcases slot?_push_cases hi with ⟨_, rfl⟩ | hold
      · rfl
      · exact find?_eq_none.mp hlook i slot hold

theorem memoized (h : s.Regular) (ha : a ≠ .void) (hp : a.isPending = false)
    (hrefs : ∀ ref ∈ a.refs, s.Has ref) (hbody : s.untypedBody? name = some a) (hname : ¬ N name) :
    Extends N s (memoized name a s).2 := by
  refine ⟨le_memoized s name hp, h.memoized ha hp hrefs hbody, fun name' hname' => ?_⟩
  rcases memoized_cases s name a with ⟨_, _, hsame⟩ | ⟨_, hpush⟩
  · rw [hsame]
  · rw [hpush]
    cases hlook : s.lookup? name' with
    | some i => exact find?_push_of_some hlook
    | none =>
      refine find?_eq_none.mpr fun i slot hi => ?_
      rcases slot?_push_cases hi with ⟨_, rfl⟩ | hold
      · have hne : name ≠ name' := fun heq => hname (heq ▸ hname')
        simpa using hne
      · exact find?_eq_none.mp hlook i slot hold

end Extends

theorem alike_of_lookup? (hi : s.lookup? name = some i) (hj : t.lookup? name = some j) :
    Alike s t i j := by
  obtain ⟨a, ha⟩ := slot?_of_lookup? hi
  obtain ⟨b, hb⟩ := slot?_of_lookup? hj
  exact .named ha hb

theorem alike_of_interned? (hi : s.interned? a = some i) (hj : t.interned? b = some j)
    (hm : a.Matches (Alike s t) b) : Alike s t i j :=
  .anonymous (slot?_of_interned? hi) (slot?_of_interned? hj) hm

theorem matches_string {wordBits wordBits' : Nat}
    (ha : BasicKind.string.bodyIn? s wordBits = some a)
    (hb : BasicKind.string.bodyIn? t wordBits' = some b) : a.Matches (Alike s t) b := by
  simp only [BasicKind.bodyIn?, Option.bind_eq_bind, Option.bind_eq_some_iff] at ha hb
  obtain ⟨byte, hbyte, data, hdata, length, hlength, hstruct⟩ := ha
  obtain ⟨byte', hbyte', data', hdata', length', hlength', hstruct'⟩ := hb
  cases hstruct
  cases hstruct'
  have hbytes := alike_of_interned? hbyte hbyte' (.int 8)
  exact .struct (.cons (alike_of_interned? hdata hdata' (.pointer hbytes))
    (.cons (alike_of_interned? hlength hlength' (.int 64)) .nil))

theorem matches_untyped (ha : s.untypedBody? name = some a) (hb : t.untypedBody? name = some b) :
    a.Matches (Alike s t) b := by
  unfold untypedBody? at ha
  split at ha
  · cases ha
    simp only [untypedBody?] at hb
    cases hb
    exact .int _
  · cases ha
    simp only [untypedBody?] at hb
    cases hb
    exact .int _
  · cases ha
    simp only [untypedBody?] at hb
    cases hb
    exact .int _
  · cases ha
    simp only [untypedBody?] at hb
    cases hb
    exact .float _
  · simp only [untypedBody?] at hb
    obtain ⟨part, hpart, rfl⟩ := Option.map_eq_some_iff.mp ha
    obtain ⟨part', hpart', rfl⟩ := Option.map_eq_some_iff.mp hb
    have hparts := alike_of_lookup? hpart hpart'
    exact .struct (.cons hparts (.cons hparts .nil))
  · simp only [untypedBody?] at hb
    exact matches_string ha hb
  · simp only [untypedBody?] at hb
    obtain ⟨byte, hbyte, rfl⟩ := Option.map_eq_some_iff.mp ha
    obtain ⟨byte', hbyte', rfl⟩ := Option.map_eq_some_iff.mp hb
    exact .pointer (alike_of_interned? hbyte hbyte' (.int 8))
  · cases ha

/-- Of the given names, among them all that are not reserved, the same are defined, and what has the
same name has the same body. -/
structure Twin (N : String → Prop) (s t : TypeStore) : Prop where
  left : s.Regular
  right : t.Regular
  covers : ∀ name, name ∉ reservedTypeNames → N name
  known : ∀ name, N name → ((s.lookup? name).isSome ↔ (t.lookup? name).isSome)
  bodies : ∀ i j name a b, s.slot? i = some ⟨some name, a⟩ → t.slot? j = some ⟨some name, b⟩ →
    a.Matches (Alike s t) b

namespace Twin

theorem alike (h : Twin N s t) (hs : Extends N s s') (ht : Extends N t t') (hij : Alike s t i j) :
    Alike s' t' i j := hij.mono h.left.wf hs.le ht.le

theorem extend (h : Twin N s t) (hs : Extends N s s') (ht : Extends N t t') : Twin N s' t' where
  left := hs.regular
  right := ht.regular
  covers := h.covers
  known name hn := by
    rw [hs.names name hn, ht.names name hn]
    exact h.known name hn
  bodies i j name a b hi hj := by
    by_cases hname : name ∈ reservedTypeNames
    · exact matches_untyped (hs.regular.untyped i name a hi hname)
        (ht.regular.untyped j name b hj hname)
    · have hn := h.covers name hname
      refine (h.bodies i j name a b (hs.slot? hn hi) (ht.slot? hn hj)).mono ?_
      exact fun _ _ _ _ hij => h.alike hs ht hij

theorem mono {N' : String → Prop} (h : Twin N s t) (hn : ∀ name, N' name → N name)
    (hcovers : ∀ name, name ∉ reservedTypeNames → N' name) : Twin N' s t :=
  { h with covers := hcovers, known := fun name h' => h.known name (hn name h') }

theorem matches_body (h : Twin N s t) (hij : Alike s t i j) :
    ∃ a b, s.body? i = some a ∧ t.body? j = some b ∧ a.Matches (Alike s t) b := by
  cases hij with
  | named hi hj => exact ⟨_, _, body?_of_slot? hi, body?_of_slot? hj, h.bodies _ _ _ _ _ hi hj⟩
  | anonymous hi hj hm => exact ⟨_, _, body?_of_slot? hi, body?_of_slot? hj, hm⟩

theorem eq_iff (h : Twin N s t) {i' j' : TypeId} (hij : Alike s t i j) (hij' : Alike s t i' j') :
    i = i' ↔ j = j' := hij.eq_iff h.left.wf h.right.wf hij'

theorem refl (h : s.Regular) (hcovers : ∀ name, name ∉ reservedTypeNames → N name) :
    Twin N s s where
  left := h
  right := h
  covers := hcovers
  known _ _ := Iff.rfl
  bodies i j name a b hi hj := by
    obtain rfl : i = j :=
      Option.some.inj ((h.wf.looked i name a hi).symm.trans (h.wf.looked j name b hj))
    obtain rfl : a = b := by
      rw [hi] at hj
      cases hj
      rfl
    refine .refl fun ref href => Alike.refl h.wf ?_
    have hsize : ref.index < s.slots.size := h.wf.closed i _ hi ref href
    have hget : s.slot? ref = some s.slots[ref.index] := Array.getElem?_eq_getElem hsize
    exact ⟨_, body?_of_slot? hget⟩

end Twin

end Ir.TypeStore

end Midend
