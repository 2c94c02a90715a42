import Midend.Proofs.Contains
import Midend.Proofs.Undefined

/-!
# Midend.Proofs.Legible

The texts of types can be read back: in a store in which names are words and anonymous types refer
to earlier ones, two types with the same text are the same type (`Ordered.ref?_eq_iff`).

`HasText` is the grammar of the texts. At the beginning of a longer text, before a comma or a blank,
a text of the grammar is read in one way only, and where it ends as well (`Reads`). The star of a
pointer stands behind the text of what it points to, so that a text is first read up to its stars
(`HasText.root_reads`), which are counted then (`RootReads.reads`).
-/

namespace Midend.Ir.TypeStore

/-- The characters that end a name in the text of a type. -/
def stops : List Char := [',', ' ', '*']

/-- A name that can be told from what follows it in the text of a type. -/
def Word (name : String) : Prop := ∀ c ∈ name.toList, c ∉ stops

theorem word_of_identifier {name : String}
    (h : ∀ c ∈ name.toList, c.isAlphanum = true ∨ c = '_') : Word name := by
  intro c hc hstop
  simp only [stops, List.mem_cons, List.not_mem_nil, or_false] at hstop
  rcases hstop with rfl | rfl | rfl <;> exact absurd (h _ hc) (by decide)

/-- The text of a struct behind the first of its fields. -/
def moreFields : List (List Char) → List Char
  | [] => [' ', '}']
  | text :: texts => ',' :: ' ' :: text ++ moreFields texts

/-- The text of a body that refers to no other type. -/
def plainText? : Ty → Option (List Char)
  | .void => some ['v', 'o', 'i', 'd']
  | .int bits => some ('i' :: (toString bits).toList)
  | .float .single => some ['f', 'l', 'o', 'a', 't']
  | .float .double => some ['d', 'o', 'u', 'b', 'l', 'e']
  | .struct [] => some ['{', '}']
  | _ => none

/-- The type has the text. -/
inductive HasText (s : TypeStore) : TypeId → List Char → Prop where
  | named {id : TypeId} {name : String} {body : Ty} :
      s.slot? id = some ⟨some name, body⟩ → HasText s id ('%' :: name.toList)
  | plain {id : TypeId} {body : Ty} {text : List Char} :
      s.slot? id = some ⟨none, body⟩ → plainText? body = some text → HasText s id text
  | pointer {id elem : TypeId} {text : List Char} : s.slot? id = some ⟨none, .pointer elem⟩ →
      HasText s elem text → HasText s id (text ++ ['*'])
  | struct {id field : TypeId} {fields : List TypeId} {text : TypeId → List Char} :
      s.slot? id = some ⟨none, .struct (field :: fields)⟩ →
      (∀ f ∈ field :: fields, HasText s f (text f)) →
      HasText s id ('{' :: ' ' :: text field ++ moreFields (fields.map text))

theorem mapM_eq_some {f : TypeId → Option String} {ids : List TypeId} {texts : List String}
    (h : ids.mapM f = some texts) :
    (∀ id ∈ ids, f id = some ((f id).getD "")) ∧ texts = ids.map fun id => (f id).getD "" := by
  induction ids generalizing texts with
  | nil =>
    cases h
    exact ⟨by simp, rfl⟩
  | cons id ids ih =>
    simp only [List.mapM_cons, Option.bind_eq_bind, Option.bind_eq_some_iff] at h
    obtain ⟨text, htext, rest, hrest, heq⟩ := h
    cases heq
    obtain ⟨hall, rfl⟩ := ih hrest
    have hid : f id = some ((f id).getD "") := by rw [htext]; rfl
    exact ⟨List.forall_mem_cons.mpr ⟨hid, hall⟩, by rw [List.map_cons, htext]; rfl⟩

theorem intercalate_eq_moreFields (text : List Char) (texts : List (List Char)) :
    [',', ' '].intercalate (text :: texts) ++ [' ', '}'] = text ++ moreFields texts := by
  induction texts generalizing text with
  | nil => simp [List.intercalate, moreFields]
  | cons next rest ih =>
    rw [List.intercalate_cons_cons, List.append_assoc, ih next, moreFields]
    simp

variable {s : TypeStore}

theorem hasText_of_refVia? {inner : TypeId → Option String} {id : TypeId} {text : String}
    (hinner : ∀ body, s.slot? id = some ⟨none, body⟩ → inner id = some text →
      s.HasText id text.toList)
    (h : s.refVia? inner id = some text) : s.HasText id text.toList := by
  rw [refVia?] at h
  cases hslot : s.slot? id with
  | none =>
    rw [hslot] at h
    cases h
  | some slot =>
    obtain ⟨name, body⟩ := slot
    rw [hslot] at h
    cases name with
    | none => exact hinner body hslot h
    | some name =>
      cases h
      rw [String.toList_append]
      exact .named hslot

theorem hasText_of_bodyText?
    (hbodies : ∀ id body, s.slot? id = some ⟨none, body⟩ → body.isPending = false) {fuel : Nat}
    {id : TypeId} {body : Ty} {text : String} (hslot : s.slot? id = some ⟨none, body⟩)
    (h : s.bodyText? fuel id = some text) : s.HasText id text.toList := by
  induction fuel generalizing id body text with
  | zero => cases h
  | succ fuel ih =>
    have href {ref : TypeId} {text : String} :
        s.refVia? (s.bodyText? fuel) ref = some text → s.HasText ref text.toList :=
      hasText_of_refVia? fun _ => ih
    rw [bodyText?, body?_of_slot? hslot] at h
    cases body with
    | void =>
      cases h
      exact .plain hslot rfl
    | int bits =>
      cases h
      refine .plain hslot ?_
      rw [String.toList_append]
      rfl
    | float kind => cases kind <;> cases h <;> exact .plain hslot rfl
    | pointer elem =>
      obtain ⟨inner, hinner, rfl⟩ := Option.map_eq_some_iff.mp h
      rw [String.toList_append]
      exact .pointer hslot (href hinner)
    | pending shape => cases hbodies id _ hslot
    | struct fields =>
      cases fields with
      | nil =>
        cases h
        exact .plain hslot rfl
      | cons field fields =>
        obtain ⟨texts, htexts, rfl⟩ := Option.map_eq_some_iff.mp h
        obtain ⟨hall, rfl⟩ := mapM_eq_some htexts
        have hstruct := HasText.struct hslot fun f hf => href (hall f hf)
        rw [List.cons_append, List.cons_append, ← intercalate_eq_moreFields] at hstruct
        simpa [String.toList_append, String.toList_intercalate, Function.comp_def] using hstruct

/-! ## Reading it -/

/-- A text begins with one of the characters at which names end, or it is empty. -/
def Ends (rest : List Char) : Prop := ∀ c ∈ rest.head?, c ∈ stops

/-- A text begins with a comma or a blank, or it is empty. -/
def Closes (rest : List Char) : Prop := ∀ c ∈ rest.head?, c = ',' ∨ c = ' '

theorem Closes.ends {rest : List Char} (h : Closes rest) : Ends rest := fun c hc => by
  rcases h c hc with rfl | rfl <;> decide

theorem closes_moreFields (texts : List (List Char)) (rest : List Char) :
    Closes (moreFields texts ++ rest) := by
  intro c hc
  cases texts <;> cases hc <;> decide

theorem ends_stars {rest : List Char} (h : Closes rest) (n : Nat) :
    Ends (List.replicate n '*' ++ rest) := by
  cases n with
  | zero => exact h.ends
  | succ n =>
    intro c hc
    cases hc
    decide

theorem word_cut {a b r r' : List Char} (ha : ∀ c ∈ a, c ∉ stops) (hb : ∀ c ∈ b, c ∉ stops)
    (hr : Ends r) (hr' : Ends r') (h : a ++ r = b ++ r') : a = b ∧ r = r' := by
  induction a generalizing b with
  | nil =>
    cases b with
    | nil => exact ⟨rfl, h⟩
    | cons c b =>
      obtain rfl : r = c :: (b ++ r') := h
      exact absurd (hr c rfl) (hb c List.mem_cons_self)
  | cons c a ih =>
    cases b with
    | nil =>
      obtain rfl : c :: (a ++ r) = r' := h
      exact absurd (hr' c rfl) (ha c List.mem_cons_self)
    | cons d b =>
      obtain ⟨rfl, hrest⟩ := List.cons.inj h
      obtain ⟨rfl, hsame⟩ := ih (fun c hc => ha c (List.mem_cons_of_mem _ hc))
        (fun c hc => hb c (List.mem_cons_of_mem _ hc)) hrest
      exact ⟨rfl, hsame⟩

theorem star_cut {n k : Nat} {r r' : List Char} (hr : Closes r) (hr' : Closes r')
    (h : List.replicate n '*' ++ r = List.replicate k '*' ++ r') : n = k ∧ r = r' := by
  induction n generalizing k with
  | zero =>
    cases k with
    | zero => exact ⟨rfl, h⟩
    | succ k =>
      obtain rfl : r = '*' :: (List.replicate k '*' ++ r') := h
      exact absurd (hr _ rfl) (by decide)
  | succ n ih =>
    cases k with
    | zero =>
      obtain rfl : '*' :: (List.replicate n '*' ++ r) = r' := h
      exact absurd (hr' _ rfl) (by decide)
    | succ k =>
      obtain ⟨rfl, hsame⟩ := ih (List.cons.inj h).2
      exact ⟨rfl, hsame⟩

theorem toDigits_inj {a b : Nat} (h : Nat.toDigits 10 a = Nat.toDigits 10 b) : a = b := by
  rw [← Nat.ofDigitChars_ten_toDigits (n := a), h, Nat.ofDigitChars_ten_toDigits]

theorem not_mem_stops_of_toString (n : Nat) : ∀ c ∈ (toString n).toList, c ∉ stops := by
  intro c hc hstop
  simp only [Nat.toString_eq_repr, Nat.repr_eq_ofList_toDigits, String.toList_ofList] at hc
  have hdigit := Nat.isDigit_of_mem_toDigits (by decide) (by decide) hc
  simp only [stops, List.mem_cons, List.not_mem_nil, or_false] at hstop
  rcases hstop with rfl | rfl | rfl <;> cases hdigit

section

variable {a b : Ty} {text : List Char}

theorem not_mem_stops_of_plainText? (h : plainText? a = some text) : ∀ c ∈ text, c ∉ stops := by
  cases a with
  | int bits =>
    cases h
    exact List.forall_mem_cons.mpr ⟨by decide, not_mem_stops_of_toString bits⟩
  | float kind => cases kind <;> cases h <;> simp [stops]
  | struct fields =>
    cases fields <;> cases h
    simp [stops]
  | void =>
    cases h
    simp [stops]
  | pointer | pending => cases h

theorem plainText?_inj (ha : plainText? a = some text) (hb : plainText? b = some text) : a = b := by
  unfold plainText? at ha hb
  split at ha <;> cases ha <;> split at hb <;> simp at hb ⊢
  exact (toDigits_inj hb).symm

theorem plainText?_head (h : plainText? a = some text) (r r' : List Char) :
    text ++ r ≠ '%' :: r' ∧ text ++ r ≠ '{' :: ' ' :: r' := by
  unfold plainText? at h
  split at h <;> cases h <;> simp

end

/-- The first type is a pointer to the second over the number of steps. -/
inductive PointsTo (s : TypeStore) : Nat → TypeId → TypeId → Prop where
  | here {id : TypeId} : PointsTo s 0 id id
  | there {n : Nat} {id elem root : TypeId} : s.slot? id = some ⟨none, .pointer elem⟩ →
      PointsTo s n elem root → PointsTo s (n + 1) id root

/-- The type is not an anonymous pointer. -/
def Root (s : TypeStore) (id : TypeId) : Prop :=
  ∀ elem, s.slot? id ≠ some ⟨none, .pointer elem⟩

theorem PointsTo.unique (hs : s.Linked) {n : Nat} {a b root : TypeId} (ha : s.PointsTo n a root)
    (hb : s.PointsTo n b root) : a = b := by
  induction ha generalizing b with
  | here => cases hb; rfl
  | there ha _ ih =>
    cases hb with
    | there hb hpath =>
      obtain rfl := ih hpath
      exact Option.some.inj ((hs.interned _ _ ha).symm.trans (hs.interned _ _ hb))

theorem HasText.exists_root {id : TypeId} {text : List Char} (h : s.HasText id text) :
    ∃ n root before, s.PointsTo n id root ∧ s.Root root ∧ s.HasText root before ∧
      text = before ++ List.replicate n '*' := by
  have hroot {body : Ty} {name : Option String} {id : TypeId} {text : List Char}
      (hslot : s.slot? id = some ⟨name, body⟩)
      (hne : ∀ elem, (⟨name, body⟩ : Slot) ≠ ⟨none, .pointer elem⟩) (h : s.HasText id text) :
      ∃ n root before, s.PointsTo n id root ∧ s.Root root ∧ s.HasText root before ∧
        text = before ++ List.replicate n '*' := by
    refine ⟨0, id, text, .here, fun elem hptr => hne elem ?_, h, by simp⟩
    exact Option.some.inj (hslot.symm.trans hptr)
  induction h with
  | named hslot => exact hroot hslot (by simp) (.named hslot)
  | plain hslot htext =>
    refine hroot hslot (fun elem heq => ?_) (.plain hslot htext)
    cases heq
    cases htext
  | struct hslot hfields _ => exact hroot hslot (by simp) (.struct hslot hfields)
  | pointer hslot _ ih =>
    obtain ⟨n, root, before, hpath, hroot, hbefore, rfl⟩ := ih
    refine ⟨n + 1, root, before, .there hslot hpath, hroot, hbefore, ?_⟩
    rw [List.replicate_succ', List.append_assoc]

/-- The text is that of this type only, also where it stands before something else. -/
def Reads (s : TypeStore) (id : TypeId) (text : List Char) : Prop :=
  ∀ other text' r r', s.HasText other text' → Closes r → Closes r' → text ++ r = text' ++ r' →
    id = other ∧ r = r'

/-- The text is that of a pointer to this root, if its beginning is the text of the root. -/
def RootReads (s : TypeStore) (id : TypeId) (text : List Char) : Prop :=
  ∀ root before r r', s.HasText root before → s.Root root → Ends r → Ends r' →
    text ++ r = before ++ r' → ∃ n, s.PointsTo n id root ∧ r' = List.replicate n '*' ++ r

theorem RootReads.reads (hs : s.Linked) {id : TypeId} {text : List Char} (h : s.RootReads id text) :
    s.Reads id text := by
  intro other text' r r' hother hr hr' heq
  obtain ⟨k, root, before, hpath, hroot, hbefore, rfl⟩ := hother.exists_root
  rw [List.append_assoc] at heq
  obtain ⟨n, hpath', hstars⟩ := h root before _ _ hbefore hroot hr.ends (ends_stars hr' k) heq
  obtain ⟨rfl, rfl⟩ := star_cut hr' hr hstars
  exact ⟨hpath'.unique hs hpath, rfl⟩

theorem reads_moreFields {fields fields' : List TypeId} {text text' : TypeId → List Char}
    {r r' : List Char} (h : ∀ f ∈ fields, s.Reads f (text f))
    (h' : ∀ f ∈ fields', s.HasText f (text' f))
    (heq : moreFields (fields.map text) ++ r = moreFields (fields'.map text') ++ r') :
    fields = fields' ∧ r = r' := by
  induction fields generalizing fields' with
  | nil =>
    cases fields' with
    | nil => exact ⟨rfl, by simpa [moreFields] using heq⟩
    | cons => simp [moreFields] at heq
  | cons f fields ih =>
    cases fields' with
    | nil => simp [moreFields] at heq
    | cons f' fields' =>
      obtain ⟨hf, hrest⟩ := List.forall_mem_cons.mp h
      obtain ⟨hf', hrest'⟩ := List.forall_mem_cons.mp h'
      simp only [List.map_cons, moreFields, List.cons_append, List.append_assoc, List.cons.injEq,
        true_and] at heq
      obtain ⟨rfl, hmore⟩ := hf f' _ _ _ hf' (closes_moreFields _ _) (closes_moreFields _ _) heq
      obtain ⟨rfl, rfl⟩ := ih hrest hrest' hmore
      exact ⟨rfl, rfl⟩

theorem pointsTo_of_interned (hs : s.Linked) {id root : TypeId} {body : Ty}
    (hid : s.slot? id = some ⟨none, body⟩) (hroot : s.slot? root = some ⟨none, body⟩)
    (r : List Char) : ∃ n, s.PointsTo n id root ∧ r = List.replicate n '*' ++ r := by
  obtain rfl : id = root :=
    Option.some.inj ((hs.interned _ _ hid).symm.trans (hs.interned _ _ hroot))
  exact ⟨0, .here, by simp⟩

theorem rootReads_named (hs : s.Linked) (hnames : ∀ name ∈ s.names, Word name) {id : TypeId}
    {name : String} {body : Ty} (hslot : s.slot? id = some ⟨some name, body⟩) :
    s.RootReads id ('%' :: name.toList) := by
  intro root before r r' hbefore hroot hr hr' heq
  cases hbefore with
  | named hslot' =>
    obtain ⟨hname, rfl⟩ := word_cut (hnames _ (mem_names_of_slot? hslot))
      (hnames _ (mem_names_of_slot? hslot')) hr hr' (List.cons.inj heq).2
    rw [String.toList_inj] at hname
    subst hname
    obtain rfl := Option.some.inj ((hs.looked _ _ _ hslot).symm.trans (hs.looked _ _ _ hslot'))
    exact ⟨0, .here, by simp⟩
  | plain _ htext => exact absurd heq.symm (plainText?_head htext _ _).1
  | pointer hslot' => exact absurd hslot' (hroot _)
  | struct => simp at heq

theorem rootReads_plain (hs : s.Linked) {id : TypeId} {body : Ty} {text : List Char}
    (hslot : s.slot? id = some ⟨none, body⟩) (htext : plainText? body = some text) :
    s.RootReads id text := by
  intro root before r r' hbefore hroot hr hr' heq
  cases hbefore with
  | named => exact absurd heq (plainText?_head htext _ _).1
  | plain hslot' htext' =>
    obtain ⟨rfl, rfl⟩ := word_cut (not_mem_stops_of_plainText? htext)
      (not_mem_stops_of_plainText? htext') hr hr' heq
    obtain rfl := plainText?_inj htext htext'
    exact pointsTo_of_interned hs hslot hslot' r
  | pointer hslot' => exact absurd hslot' (hroot _)
  | struct => exact absurd heq (plainText?_head htext _ _).2

theorem rootReads_struct (hs : s.Linked) {id field : TypeId} {fields : List TypeId}
    {text : TypeId → List Char} (hslot : s.slot? id = some ⟨none, .struct (field :: fields)⟩)
    (hfields : ∀ f ∈ field :: fields, s.Reads f (text f)) :
    s.RootReads id ('{' :: ' ' :: text field ++ moreFields (fields.map text)) := by
  intro root before r r' hbefore hroot hr hr' heq
  cases hbefore with
  | named => simp at heq
  | plain _ htext => exact absurd heq.symm (plainText?_head htext _ _).2
  | pointer hslot' => exact absurd hslot' (hroot _)
  | struct hslot' hfields' =>
    obtain ⟨hfirst, hrest⟩ := List.forall_mem_cons.mp hfields
    obtain ⟨hfirst', hrest'⟩ := List.forall_mem_cons.mp hfields'
    simp only [List.cons_append, List.append_assoc, List.cons.injEq, true_and] at heq
    obtain ⟨rfl, hmore⟩ := hfirst _ _ _ _ hfirst' (closes_moreFields _ _)
      (closes_moreFields _ _) heq
    obtain ⟨rfl, rfl⟩ := reads_moreFields hrest hrest' hmore
    exact pointsTo_of_interned hs hslot hslot' r

theorem RootReads.pointer {id elem : TypeId} {text : List Char}
    (hslot : s.slot? id = some ⟨none, .pointer elem⟩) (h : s.RootReads elem text) :
    s.RootReads id (text ++ ['*']) := by
  intro root before r r' hbefore hroot hr hr' heq
  rw [List.append_assoc] at heq
  have hstar : Ends ('*' :: r) := by simp [Ends, stops]
  obtain ⟨n, hpath, rfl⟩ := h root before ('*' :: r) r' hbefore hroot hstar hr' heq
  refine ⟨n + 1, .there hslot hpath, ?_⟩
  rw [List.replicate_succ', List.append_assoc]
  rfl

theorem HasText.root_reads (hs : s.Linked) (hnames : ∀ name ∈ s.names, Word name) {id : TypeId}
    {text : List Char} (h : s.HasText id text) : s.RootReads id text := by
  induction h with
  | named hslot => exact rootReads_named hs hnames hslot
  | plain hslot htext => exact rootReads_plain hs hslot htext
  | pointer hslot _ ih => exact ih.pointer hslot
  | struct hslot _ ih => exact rootReads_struct hs hslot fun f hf => (ih f hf).reads hs

theorem HasText.unique (hs : s.Linked) (hnames : ∀ name ∈ s.names, Word name) {a b : TypeId}
    {text : List Char} (ha : s.HasText a text) (hb : s.HasText b text) : a = b :=
  ((ha.root_reads hs hnames).reads hs b text [] [] hb (by simp [Closes]) (by simp [Closes]) rfl).1

/-- Names and anonymous bodies have one slot each, and an anonymous body is there and refers to
earlier slots. All stores on the way to a well-formed one are such (`Ordered.of_le`). -/
structure Ordered (s : TypeStore) : Prop where
  anonymous : ∀ id body, s.slot? id = some ⟨none, body⟩ →
    body.isPending = false ∧ ∀ ref ∈ body.refs, ref.index < id.index
  linked : s.Linked

theorem WF.ordered (h : s.WF) : s.Ordered := ⟨h.anonymous, h.linked⟩

theorem find?_of_le {t : TypeStore} {p : Slot → Bool} {id : TypeId} {slot : Slot} (hle : s ≤ t)
    (hslot : s.slot? id = some slot) (h : t.find? p = some id) : s.find? p = some id := by
  obtain ⟨⟨later, hlater, hp⟩, hfirst⟩ := find?_eq_some.mp h
  obtain rfl : slot = later := Option.some.inj ((hle.slot _ _ hslot).symm.trans hlater)
  exact find?_eq_some.mpr ⟨⟨slot, hslot, hp⟩, fun j other hj => hfirst j other (hle.slot _ _ hj)⟩

namespace Ordered

theorem of_le {t : TypeStore} (ht : t.Ordered) (hle : s ≤ t) : s.Ordered where
  anonymous id body h := ht.anonymous id body (hle.slot _ _ h)
  linked := {
    interned := fun id body h => find?_of_le hle h (ht.linked.interned id body (hle.slot _ _ h))
    looked := fun id name body h =>
      find?_of_le hle h (ht.linked.looked id name body (hle.slot _ _ h)) }

theorem contains (h : s.Ordered) {id : TypeId} (hid : id.index < s.size) : s.Contains id := by
  induction hindex : id.index using Nat.strongRecOn generalizing id with
  | ind n ih =>
  subst hindex
  obtain ⟨⟨name, body⟩, hslot⟩ := exists_slot hid
  cases name with
  | some name => exact .named hslot
  | none =>
    refine .anonymous hslot fun ref href => ?_
    have hlt := (h.anonymous id body hslot).2 ref href
    exact ih _ hlt (Nat.lt_trans hlt hid) rfl

theorem hasText (h : s.Ordered) {id : TypeId} {text : String} (htext : s.ref? id = some text) :
    s.HasText id text.toList :=
  hasText_of_refVia? (fun _ hslot hbody =>
    hasText_of_bodyText? (fun id body h' => (h.anonymous id body h').1) hslot hbody) htext

/-- Types have the same text just if they are the same. -/
theorem ref?_eq_iff (h : s.Ordered) (hnames : ∀ name ∈ s.names, Word name) {a b : TypeId}
    {x y : String} (ha : s.ref? a = some x) (hb : s.ref? b = some y) : x = y ↔ a = b := by
  constructor
  · rintro rfl
    exact (h.hasText ha).unique h.linked hnames (h.hasText hb)
  · rintro rfl
    exact Option.some.inj (ha.symm.trans hb)

/-- A name that is not a word can be the text of another type. -/
example :
    (⟨#[⟨some "T", .int 8⟩, ⟨none, .pointer ⟨0⟩⟩, ⟨some "T*", .int 8⟩]⟩ : TypeStore).ref? ⟨1⟩ =
    (⟨#[⟨some "T", .int 8⟩, ⟨none, .pointer ⟨0⟩⟩, ⟨some "T*", .int 8⟩]⟩ : TypeStore).ref? ⟨2⟩ := by
  decide +kernel

end Ordered

end Midend.Ir.TypeStore
