import Mathlib.Data.Nat.Digits.Defs
import Midend.Tree.Literal

/-!
# Midend.Proofs.Escape

Escapes in rune and string literals. `Escape` says which texts after a backslash spell which number;
`escape?` reads the one that a text begins with. With the same text between their quotes, a rune and
a string spell the same character, but a rune may also be a number that is no character, if it is
spelled by its code (`rune?_iff_string?`).
-/

namespace Midend

namespace Text

variable {base acc n d : Nat} {c : Char} {ds : List Char}

theorem digit?_lt (h : digit? base c = some d) : d < base := by
  unfold digit? at h
  split at h
  · split at h
    · cases h
      assumption
    · cases h
  · cases h

theorem digitsFrom?_cons (base acc : Nat) (c : Char) (ds : List Char) :
    digitsFrom? base acc (c :: ds) = (digit? base c).bind fun d =>
      digitsFrom? base (acc * base + d) ds := by
  rw [digitsFrom?]
  cases digit? base c <;> rfl

theorem digitsFrom?_lt (h : digitsFrom? base acc ds = some n) :
    n < (acc + 1) * base ^ ds.length := by
  induction ds generalizing acc with
  | nil =>
    cases h
    simp
  | cons c ds ih =>
    rw [digitsFrom?_cons] at h
    obtain ⟨d, hd, hrest⟩ := Option.bind_eq_some_iff.mp h
    have hlt := digit?_lt hd
    calc n < (acc * base + d + 1) * base ^ ds.length := ih hrest
      _ ≤ ((acc + 1) * base) * base ^ ds.length := by
        refine Nat.mul_le_mul_right _ ?_
        rw [Nat.add_one_mul]
        omega
      _ = (acc + 1) * base ^ (c :: ds).length := by
        rw [List.length_cons, Nat.pow_succ', Nat.mul_assoc]

theorem digits?_lt (h : digits? base ds = some n) : n < base ^ ds.length := by
  have := digitsFrom?_lt h
  omega

end Text

namespace Literal

variable {quote c : Char} {base count acc n v : Nat} {cs ds es rest e : List Char}

theorem digitRun?_eq_some_iff : digitRun? base count acc cs = some (n, rest) ↔
    ∃ ds, cs = ds ++ rest ∧ ds.length = count ∧ Text.digitsFrom? base acc ds = some n := by
  induction count generalizing acc cs with
  | zero =>
    simp only [digitRun?, Option.some.injEq, Prod.mk.injEq]
    constructor
    · rintro ⟨rfl, rfl⟩
      exact ⟨[], rfl, rfl, rfl⟩
    · rintro ⟨ds, rfl, hlength, hvalue⟩
      obtain rfl := List.length_eq_zero_iff.mp hlength
      cases hvalue
      exact ⟨rfl, rfl⟩
  | succ count ih =>
    cases cs with
    | nil =>
      simp only [digitRun?]
      constructor
      · intro h
        cases h
      · rintro ⟨ds, hcs, hlength, -⟩
        obtain ⟨rfl, -⟩ := List.nil_eq_append_iff.mp hcs
        cases hlength
    | cons c cs =>
      constructor
      · intro h
        rw [digitRun?] at h
        split at h
        · rename_i d hd
          obtain ⟨ds, rfl, hlength, hvalue⟩ := ih.mp h
          refine ⟨c :: ds, rfl, by rw [List.length_cons, hlength], ?_⟩
          rw [Text.digitsFrom?_cons, hd]
          exact hvalue
        · cases h
      · rintro ⟨ds, hcs, hlength, hvalue⟩
        cases ds with
        | nil => cases hlength
        | cons c' ds =>
          obtain ⟨rfl, rfl⟩ := List.cons.inj hcs
          rw [Text.digitsFrom?_cons] at hvalue
          obtain ⟨d, hd, hrest⟩ := Option.bind_eq_some_iff.mp hvalue
          rw [digitRun?, hd]
          exact ih.mpr ⟨ds, rfl, Nat.succ.inj hlength, hrest⟩

/-- The text after a backslash spells the number, in a literal that ends with the quote. -/
inductive Escape (quote : Char) : List Char → Nat → Prop where
  | byte {ds : List Char} {n : Nat} :
      ds.length = 2 → Text.digits? 16 ds = some n → Escape quote ('x' :: ds) n
  | short {ds : List Char} {n : Nat} :
      ds.length = 4 → Text.digits? 16 ds = some n → Escape quote ('u' :: ds) n
  | long {ds : List Char} {n : Nat} :
      ds.length = 8 → Text.digits? 16 ds = some n → Escape quote ('U' :: ds) n
  | octal {ds : List Char} {n : Nat} :
      ds.length = 3 → Text.digits? 8 ds = some n → n ≤ 0xff → Escape quote ds n
  | letter {c : Char} {n : Nat} : letterEscape? quote c = some n → Escape quote [c] n

def IsQuote (quote : Char) : Prop := quote = '\'' ∨ quote = '"'

theorem letterEscape?_letter (hq : IsQuote quote) (h : letterEscape? quote c = some n) :
    c ≠ 'x' ∧ c ≠ 'u' ∧ c ≠ 'U' ∧ Text.digit? 8 c = none := by
  unfold letterEscape? at h
  split at h
  case h_9 =>
    split at h
    · subst c
      rcases hq with rfl | rfl <;> decide
    · cases h
  all_goals decide

theorem escape?_cons (hx : c ≠ 'x') (hu : c ≠ 'u') (hU : c ≠ 'U') (rest : List Char) :
    escape? quote (c :: rest) =
      match Text.digit? 8 c with
      | some d =>
        match digitRun? 8 2 d rest with
        | some (n, rest') => if n ≤ 0xff then some (n, rest') else none
        | none => none
      | none => (letterEscape? quote c).map fun n => (n, rest) :=
  escape?.eq_5 quote c rest hx hu hU

theorem escape?_of_escape (hq : IsQuote quote) (h : Escape quote es n) (rest : List Char) :
    escape? quote (es ++ rest) = some (n, rest) := by
  cases h with
  | byte hlength hvalue => exact digitRun?_eq_some_iff.mpr ⟨_, rfl, hlength, hvalue⟩
  | short hlength hvalue => exact digitRun?_eq_some_iff.mpr ⟨_, rfl, hlength, hvalue⟩
  | long hlength hvalue => exact digitRun?_eq_some_iff.mpr ⟨_, rfl, hlength, hvalue⟩
  | octal hlength hvalue hle =>
    cases es with
    | nil => cases hlength
    | cons c ds =>
      rw [Text.digits?, Text.digitsFrom?_cons] at hvalue
      obtain ⟨d, hd, hrest⟩ := Option.bind_eq_some_iff.mp hvalue
      rw [Nat.zero_mul, Nat.zero_add] at hrest
      have hrun : digitRun? 8 2 d (ds ++ rest) = some (n, rest) :=
        digitRun?_eq_some_iff.mpr ⟨ds, rfl, Nat.succ.inj hlength, hrest⟩
      have hnot : c ≠ 'x' ∧ c ≠ 'u' ∧ c ≠ 'U' := by
        refine ⟨?_, ?_, ?_⟩ <;> rintro rfl <;> cases hd
      rw [List.cons_append, escape?_cons hnot.1 hnot.2.1 hnot.2.2, hd]
      simp only [hrun, if_pos hle]
  | letter hletter =>
    obtain ⟨hx, hu, hU, hdigit⟩ := letterEscape?_letter hq hletter
    rw [List.singleton_append, escape?_cons hx hu hU, hdigit, hletter]
    rfl

theorem exists_escape (h : escape? quote cs = some (n, rest)) :
    ∃ es, cs = es ++ rest ∧ Escape quote es n := by
  unfold escape? at h
  split at h
  · cases h
  · obtain ⟨ds, rfl, hlength, hvalue⟩ := digitRun?_eq_some_iff.mp h
    exact ⟨'x' :: ds, rfl, .byte hlength hvalue⟩
  · obtain ⟨ds, rfl, hlength, hvalue⟩ := digitRun?_eq_some_iff.mp h
    exact ⟨'u' :: ds, rfl, .short hlength hvalue⟩
  · obtain ⟨ds, rfl, hlength, hvalue⟩ := digitRun?_eq_some_iff.mp h
    exact ⟨'U' :: ds, rfl, .long hlength hvalue⟩
  · rename_i c tail _ _ _
    cases hd : Text.digit? 8 c with
    | some d =>
      simp only [hd] at h
      split at h
      · rename_i hrun
        split at h
        · rename_i hle
          cases h
          obtain ⟨ds, rfl, hlength, hvalue⟩ := digitRun?_eq_some_iff.mp hrun
          refine ⟨c :: ds, rfl, .octal (by rw [List.length_cons, hlength]) ?_ hle⟩
          rw [Text.digits?, Text.digitsFrom?_cons, hd]
          simpa using hvalue
        · cases h
      · cases h
    | none =>
      simp only [hd, Option.map_eq_some_iff, Prod.mk.injEq] at h
      obtain ⟨_, hletter, rfl, rfl⟩ := h
      exact ⟨[c], rfl, .letter hletter⟩

theorem escape?_eq_some_nil (hq : IsQuote quote) :
    escape? quote es = some (n, []) ↔ Escape quote es n := by
  constructor
  · intro h
    obtain ⟨_, rfl, hescape⟩ := exists_escape h
    rw [List.append_nil]
    exact hescape
  · intro h
    simpa using escape?_of_escape hq h []

/-- The two kinds of literals have the same escapes, apart from their quotes. -/
theorem Escape.single_iff_double (hsingle : es ≠ ['\'']) (hdouble : es ≠ ['"']) :
    Escape '\'' es n ↔ Escape '"' es n := by
  have hletter : ∀ c, es = [c] → letterEscape? '\'' c = letterEscape? '"' c := by
    rintro c rfl
    have hc : c ≠ '\'' ∧ c ≠ '"' := ⟨fun h => hsingle (h ▸ rfl), fun h => hdouble (h ▸ rfl)⟩
    unfold letterEscape?
    split <;> simp [hc]
  constructor
  · intro h
    cases h with
    | byte hlength hvalue => exact .byte hlength hvalue
    | short hlength hvalue => exact .short hlength hvalue
    | long hlength hvalue => exact .long hlength hvalue
    | octal hlength hvalue hle => exact .octal hlength hvalue hle
    | letter h => exact .letter (hletter _ rfl ▸ h)
  · intro h
    cases h with
    | byte hlength hvalue => exact .byte hlength hvalue
    | short hlength hvalue => exact .short hlength hvalue
    | long hlength hvalue => exact .long hlength hvalue
    | octal hlength hvalue hle => exact .octal hlength hvalue hle
    | letter h => exact .letter ((hletter _ rfl).symm ▸ h)

/-- A character spelled by its code: `\u` with four hex digits, or `\U` with eight. -/
inductive CodeEscape : List Char → Nat → Prop where
  | short {ds : List Char} {n : Nat} :
      ds.length = 4 → Text.digits? 16 ds = some n → CodeEscape ('\\' :: 'u' :: ds) n
  | long {ds : List Char} {n : Nat} :
      ds.length = 8 → Text.digits? 16 ds = some n → CodeEscape ('\\' :: 'U' :: ds) n

theorem toNat_ofNat_of_isValidChar (h : n.isValidChar) : (Char.ofNat n).toNat = n := by
  rw [Char.ofNat, dif_pos h]
  rfl

theorem isValidChar_of_le (h : n ≤ 0xff) : n.isValidChar := .inl (by omega)

theorem letterEscape?_isValidChar (h : letterEscape? quote c = some n) : n.isValidChar := by
  unfold letterEscape? at h
  split at h
  case h_9 =>
    split at h
    · cases h
      exact c.valid
    · cases h
  all_goals
    cases h
    exact isValidChar_of_le (by decide)

/-- Only by its code can a number be spelled that is no character. -/
theorem Escape.code (h : Escape quote es n) (hn : ¬ n.isValidChar) : CodeEscape ('\\' :: es) n := by
  cases h with
  | byte hlength hvalue =>
    have hlt := Text.digits?_lt hvalue
    rw [hlength] at hlt
    exact absurd (isValidChar_of_le (Nat.le_of_lt_succ hlt)) hn
  | short hlength hvalue => exact .short hlength hvalue
  | long hlength hvalue => exact .long hlength hvalue
  | octal _ _ hle => exact absurd (isValidChar_of_le hle) hn
  | letter hletter => exact absurd (letterEscape?_isValidChar hletter) hn

/-! ## Between the quotes -/

def quoted (quote : Char) (e : List Char) : String := String.ofList (quote :: (e ++ [quote]))

theorem between?_quoted (quote : Char) (e : List Char) :
    between? quote (quoted quote e).toList = some e := by
  simp [quoted, between?]

theorem rune?_quoted (e : List Char) : rune? (quoted '\'' e) = runeBody? e := by
  rw [rune?, between?_quoted]
  rfl

theorem string?_quoted (e : List Char) :
    string? (quoted '"' e) = (stringBody? e).map String.ofList := by
  have hlist : (quoted '"' e).toList = '"' :: (e ++ ['"']) := by simp [quoted]
  have hbetween := between?_quoted '"' e
  rw [hlist] at hbetween
  simp [string?, hlist, hbetween]

theorem runeBody?_eq_some_iff : runeBody? e = some v ↔
    (∃ c, c ≠ '\\' ∧ e = [c] ∧ c.toNat = v) ∨ ∃ es, e = '\\' :: es ∧ Escape '\'' es v := by
  unfold runeBody?
  split
  · rename_i es
    constructor
    · intro h
      split at h
      · rename_i hescape
        cases h
        exact .inr ⟨es, rfl, (escape?_eq_some_nil (.inl rfl)).mp hescape⟩
      · cases h
    · rintro (⟨c, hc, he, -⟩ | ⟨es', he, hescape⟩)
      · exact absurd (List.cons.inj he).1.symm hc
      · obtain ⟨-, rfl⟩ := List.cons.inj he
        rw [(escape?_eq_some_nil (.inl rfl)).mpr hescape]
  · rename_i c hc
    constructor
    · intro h
      exact .inl ⟨c, hc, rfl, Option.some.inj h⟩
    · rintro (⟨c', -, he, rfl⟩ | ⟨es, he, -⟩)
      · rw [(List.cons.inj he).1]
      · exact absurd (List.cons.inj he).1 hc
  · rename_i hescape hone
    simp only [reduceCtorEq, false_iff]
    rintro (⟨c, -, rfl, -⟩ | ⟨es, rfl, -⟩)
    · exact hone c rfl
    · exact hescape es rfl

@[simp] theorem stringBody?_nil : stringBody? [] = some [] := by rw [stringBody?]

theorem stringBody?_backslash (es : List Char) : stringBody? ('\\' :: es) =
    (escape? '"' es).bind fun p =>
      if p.1.isValidChar then (stringBody? p.2).map (Char.ofNat p.1 :: ·) else none := by
  rw [stringBody?]
  split <;> rename_i h <;> rw [h] <;> rfl

theorem stringBody?_cons (hc : c ≠ '\\') (cs : List Char) :
    stringBody? (c :: cs) = (stringBody? cs).map (c :: ·) := by
  rw [stringBody?]
  simpa using hc

theorem stringBody?_eq_some_nil : stringBody? e = some [] ↔ e = [] := by
  constructor
  · intro h
    cases e with
    | nil => rfl
    | cons c cs =>
      exfalso
      by_cases hc : c = '\\'
      · subst hc
        rw [stringBody?_backslash] at h
        obtain ⟨p, -, hp⟩ := Option.bind_eq_some_iff.mp h
        split at hp
        · simp at hp
        · cases hp
      · simp [stringBody?_cons hc] at h
  · rintro rfl
    exact stringBody?_nil

theorem stringBody?_eq_some_singleton : stringBody? e = some [c] ↔
    (c ≠ '\\' ∧ e = [c]) ∨ ∃ es, e = '\\' :: es ∧ Escape '"' es c.toNat := by
  cases e with
  | nil => simp
  | cons c' cs =>
    by_cases hc' : c' = '\\'
    · subst hc'
      rw [stringBody?_backslash, Option.bind_eq_some_iff]
      constructor
      · rintro ⟨⟨n, tail⟩, hescape, hp⟩
        split at hp
        · rename_i hvalid
          obtain ⟨rest, hrest, hcons⟩ := Option.map_eq_some_iff.mp hp
          obtain ⟨rfl, rfl⟩ := List.cons.inj hcons
          obtain rfl := stringBody?_eq_some_nil.mp hrest
          refine .inr ⟨cs, rfl, ?_⟩
          rw [toNat_ofNat_of_isValidChar hvalid]
          exact (escape?_eq_some_nil (.inr rfl)).mp hescape
        · cases hp
      · rintro (⟨hc, hcs⟩ | ⟨es, hes, hescape⟩)
        · exact absurd (List.cons.inj hcs).1.symm hc
        · obtain ⟨-, rfl⟩ := List.cons.inj hes
          have hvalid : c.toNat.isValidChar := c.valid
          refine ⟨(c.toNat, []), (escape?_eq_some_nil (.inr rfl)).mpr hescape, ?_⟩
          rw [if_pos hvalid]
          simp
    · rw [stringBody?_cons hc', Option.map_eq_some_iff]
      constructor
      · rintro ⟨rest, hrest, hcons⟩
        obtain ⟨rfl, rfl⟩ := List.cons.inj hcons
        rw [stringBody?_eq_some_nil.mp hrest]
        exact .inl ⟨hc', rfl⟩
      · rintro (⟨-, hcs⟩ | ⟨es, hes, -⟩)
        · obtain ⟨rfl, rfl⟩ := List.cons.inj hcs
          exact ⟨[], stringBody?_nil, rfl⟩
        · exact absurd (List.cons.inj hes).1 hc'

theorem stringBody?_eq_none (h : Escape '"' es n) (hn : ¬ n.isValidChar) :
    stringBody? ('\\' :: es) = none := by
  rw [stringBody?_backslash, (escape?_eq_some_nil (.inr rfl)).mpr h]
  simp [hn]

/-- Between quotes, a text other than an escaped quote spells a rune and a string of that one
character, or it spells, by its code, a number that is no character: that is a rune, but no string.
-/
theorem rune?_iff_string? (hsingle : e ≠ ['\\', '\'']) (hdouble : e ≠ ['\\', '"']) :
    rune? (quoted '\'' e) = some v ↔
      (∃ c : Char, c.toNat = v ∧ string? (quoted '"' e) = some (String.singleton c)) ∨
        (CodeEscape e v ∧ ¬ v.isValidChar ∧ string? (quoted '"' e) = none) := by
  have hsame : ∀ es n, e = '\\' :: es → (Escape '\'' es n ↔ Escape '"' es n) := by
    rintro es n rfl
    exact Escape.single_iff_double (fun h => hsingle (h ▸ rfl)) fun h => hdouble (h ▸ rfl)
  have hstring : ∀ c : Char, string? (quoted '"' e) = some (String.singleton c) ↔
      stringBody? e = some [c] := by
    intro c
    rw [string?_quoted, String.singleton_eq_ofList, Option.map_eq_some_iff]
    constructor
    · rintro ⟨cs, hcs, heq⟩
      rw [hcs, String.ofList_injective heq]
    · exact fun h => ⟨[c], h, rfl⟩
  rw [rune?_quoted, runeBody?_eq_some_iff]
  constructor
  · rintro (⟨c, hc, rfl, rfl⟩ | ⟨es, rfl, hescape⟩)
    · exact .inl ⟨c, rfl, (hstring c).mpr (stringBody?_eq_some_singleton.mpr (.inl ⟨hc, rfl⟩))⟩
    · have hescape' := (hsame es v rfl).mp hescape
      by_cases hvalid : v.isValidChar
      · have hv := toNat_ofNat_of_isValidChar hvalid
        refine .inl ⟨Char.ofNat v, hv, (hstring _).mpr ?_⟩
        exact stringBody?_eq_some_singleton.mpr (.inr ⟨es, rfl, hv.symm ▸ hescape'⟩)
      · refine .inr ⟨hescape.code hvalid, hvalid, ?_⟩
        rw [string?_quoted, stringBody?_eq_none hescape' hvalid]
        rfl
  · rintro (⟨c, rfl, hc⟩ | ⟨hcode, -, -⟩)
    · rcases stringBody?_eq_some_singleton.mp ((hstring c).mp hc) with
        ⟨hne, rfl⟩ | ⟨es, rfl, hescape⟩
      · exact .inl ⟨c, hne, rfl, rfl⟩
      · exact .inr ⟨es, rfl, (hsame es _ rfl).mpr hescape⟩
    · cases hcode with
      | short hlength hvalue => exact .inr ⟨_, rfl, .short hlength hvalue⟩
      | long hlength hvalue => exact .inr ⟨_, rfl, .long hlength hvalue⟩

theorem rune?_iff_string?_face :
    "\\U0001F600".toList ≠ ['\\', '\''] ∧ "\\U0001F600".toList ≠ ['\\', '"'] ∧
      rune? (quoted '\'' "\\U0001F600".toList) = some 0x1F600 ∧
      (rune? (quoted '\'' "\\U0001F600".toList) = some 0x1F600 ↔
        (∃ c : Char, c.toNat = 0x1F600 ∧
          string? (quoted '"' "\\U0001F600".toList) = some (String.singleton c)) ∨
        (CodeEscape "\\U0001F600".toList 0x1F600 ∧ ¬ Nat.isValidChar 0x1F600 ∧
          string? (quoted '"' "\\U0001F600".toList) = none)) :=
  ⟨by decide, by decide, by rw [rune?_quoted]; decide,
    rune?_iff_string? (by decide) (by decide)⟩

/-- Half of a surrogate pair, and the number after the last character: both are runes and no
strings. -/
theorem rune?_notChar :
    (rune? (quoted '\'' "\\uD800".toList) = some 0xD800 ∧
      string? (quoted '"' "\\uD800".toList) = none) ∧
    (rune? (quoted '\'' "\\U00110000".toList) = some 0x110000 ∧
      string? (quoted '"' "\\U00110000".toList) = none) := by
  have hstring : ∀ es n, escape? '"' es = some (n, []) → ¬ n.isValidChar →
      string? (quoted '"' ('\\' :: es)) = none := by
    intro es n hescape hn
    rw [string?_quoted, stringBody?_eq_none ((escape?_eq_some_nil (.inr rfl)).mp hescape) hn]
    rfl
  exact ⟨⟨by rw [rune?_quoted]; decide, hstring "uD800".toList 0xD800 (by decide) (by decide)⟩,
    by rw [rune?_quoted]; decide, hstring "U00110000".toList 0x110000 (by decide) (by decide)⟩

end Literal
end Midend
