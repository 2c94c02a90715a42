import Midend.Proofs.Escape
import Midend.Proofs.Radix

/-!
# Midend.Proofs.Spelling

How strings are spelled. `Spelling` lists the ways to write one character between double quotes,
with tables for the letters and the digits; a string is written one character after the other.
`string?` reads exactly these texts, and texts between back quotes, from which only carriage returns
are left out (`string?_spelled`).

The numbers of escapes are computed in words of 32 bits. `escapeWord` does so with every product and
sum checked, and none is ever too large (`escapeWord_eq`).
-/

namespace Midend
namespace Literal

variable {quote c l : Char} {base count acc n : Nat} {cs e es part rest raw : List Char}

/-- The letters that stand for a character after a backslash, and their characters. -/
def letters : List (Char × Char) :=
  [('a', '\x07'), ('b', '\x08'), ('f', '\x0c'), ('n', '\n'), ('r', '\r'), ('t', '\t'),
    ('v', '\x0b'), ('\\', '\\'), ('"', '"')]

/-- The text between double quotes is a way to write the character. -/
inductive Spelling : List Char → Char → Prop where
  | plain {c : Char} : c ≠ '\\' → Spelling [c] c
  | letter {l c : Char} : (l, c) ∈ letters → Spelling ['\\', l] c
  | byte {ds : List Char} {c : Char} :
      ds.length = 2 → Text.Denotes 16 ds c.toNat → Spelling ('\\' :: 'x' :: ds) c
  | octal {ds : List Char} {c : Char} :
      ds.length = 3 → Text.Denotes 8 ds c.toNat → c.toNat ≤ 0xff → Spelling ('\\' :: ds) c
  | short {ds : List Char} {c : Char} :
      ds.length = 4 → Text.Denotes 16 ds c.toNat → Spelling ('\\' :: 'u' :: ds) c
  | long {ds : List Char} {c : Char} :
      ds.length = 8 → Text.Denotes 16 ds c.toNat → Spelling ('\\' :: 'U' :: ds) c

/-- The text is made of spellings of the characters, in order. -/
def Spelled (e cs : List Char) : Prop :=
  ∃ parts, List.Forall₂ Spelling parts cs ∧ parts.flatten = e

theorem mem_letters_of_letterEscape? (h : letterEscape? '"' l = some n) :
    (l, Char.ofNat n) ∈ letters := by
  unfold letterEscape? at h
  split at h
  case h_9 =>
    split at h
    · subst l
      cases h
      decide
    · cases h
  all_goals
    cases h
    decide

theorem mem_letters_iff : (l, c) ∈ letters ↔ letterEscape? '"' l = some c.toNat := by
  constructor
  · intro h
    have hall : ∀ p ∈ letters, letterEscape? '"' p.1 = some p.2.toNat := by decide
    exact hall _ h
  · intro h
    simpa using mem_letters_of_letterEscape? h

theorem spelling_iff : Spelling e c ↔
    (c ≠ '\\' ∧ e = [c]) ∨ ∃ es, e = '\\' :: es ∧ Escape '"' es c.toNat := by
  constructor
  · intro h
    cases h with
    | plain hc => exact .inl ⟨hc, rfl⟩
    | letter hl => exact .inr ⟨_, rfl, .letter (mem_letters_iff.mp hl)⟩
    | byte hlength hd => exact .inr ⟨_, rfl, .byte hlength (Text.digits?_iff_denotes.mpr hd)⟩
    | octal hlength hd hle =>
      exact .inr ⟨_, rfl, .octal hlength (Text.digits?_iff_denotes.mpr hd) hle⟩
    | short hlength hd => exact .inr ⟨_, rfl, .short hlength (Text.digits?_iff_denotes.mpr hd)⟩
    | long hlength hd => exact .inr ⟨_, rfl, .long hlength (Text.digits?_iff_denotes.mpr hd)⟩
  · rintro (⟨hc, rfl⟩ | ⟨es, rfl, hescape⟩)
    · exact .plain hc
    generalize hn : c.toNat = n at hescape
    cases hescape with
    | byte hlength hd => exact .byte hlength (hn ▸ Text.digits?_iff_denotes.mp hd)
    | short hlength hd => exact .short hlength (hn ▸ Text.digits?_iff_denotes.mp hd)
    | long hlength hd => exact .long hlength (hn ▸ Text.digits?_iff_denotes.mp hd)
    | octal hlength hd hle =>
      exact .octal hlength (hn ▸ Text.digits?_iff_denotes.mp hd) (hn ▸ hle)
    | letter hl => exact .letter (mem_letters_iff.mpr (hn ▸ hl))

/-- A spelling at the start of a text is read as its character, and the rest after it. -/
theorem stringBody?_append (h : Spelling part c) (rest : List Char) :
    stringBody? (part ++ rest) = (stringBody? rest).map (c :: ·) := by
  rcases spelling_iff.mp h with ⟨hc, rfl⟩ | ⟨es, rfl, hescape⟩
  · rw [List.singleton_append, stringBody?_cons hc]
  · have hvalid : c.toNat.isValidChar := c.valid
    rw [List.cons_append, stringBody?_backslash, escape?_of_escape (.inr rfl) hescape rest,
      Option.bind_some, if_pos hvalid, Char.ofNat_toNat]

theorem exists_spelling (h : stringBody? e = some (c :: cs)) :
    ∃ part rest, e = part ++ rest ∧ Spelling part c ∧ stringBody? rest = some cs := by
  cases e with
  | nil => simp at h
  | cons c' tail =>
    by_cases hc' : c' = '\\'
    · subst hc'
      rw [stringBody?_backslash, Option.bind_eq_some_iff] at h
      obtain ⟨⟨n, rest⟩, hescape, h⟩ := h
      dsimp only at h
      split at h
      · rename_i hvalid
        obtain ⟨cs', hrest, hcons⟩ := Option.map_eq_some_iff.mp h
        obtain ⟨rfl, rfl⟩ := List.cons.inj hcons
        obtain ⟨es, rfl, hes⟩ := exists_escape hescape
        rw [← toNat_ofNat_of_isValidChar hvalid] at hes
        exact ⟨'\\' :: es, rest, rfl, spelling_iff.mpr (.inr ⟨es, rfl, hes⟩), hrest⟩
      · cases h
    · rw [stringBody?_cons hc', Option.map_eq_some_iff] at h
      obtain ⟨cs', hrest, hcons⟩ := h
      obtain ⟨rfl, rfl⟩ := List.cons.inj hcons
      exact ⟨[c'], tail, rfl, .plain hc', hrest⟩

theorem stringBody?_eq_some_iff : stringBody? e = some cs ↔ Spelled e cs := by
  constructor
  · intro h
    induction cs generalizing e with
    | nil =>
      obtain rfl := stringBody?_eq_some_nil.mp h
      exact ⟨[], .nil, rfl⟩
    | cons c cs ih =>
      obtain ⟨part, rest, rfl, hpart, hrest⟩ := exists_spelling h
      obtain ⟨parts, hparts, rfl⟩ := ih hrest
      exact ⟨part :: parts, .cons hpart hparts, rfl⟩
  · rintro ⟨parts, hparts, rfl⟩
    induction hparts with
    | nil => exact stringBody?_nil
    | cons hpart _ ih => rw [List.flatten_cons, stringBody?_append hpart, ih, Option.map_some]

theorem between?_eq_some_iff : between? quote cs = some e ↔ cs = quote :: (e ++ [quote]) := by
  constructor
  · intro h
    cases cs with
    | nil => cases h
    | cons c rest =>
      rw [between?] at h
      split at h
      · rename_i hquotes
        obtain rfl := Option.some.inj h
        rw [hquotes.1, List.dropLast_append_getLast? quote hquotes.2]
      · cases h
  · rintro rfl
    simp [between?]

theorem eq_quoted_iff {text : String} :
    text = quoted quote e ↔ text.toList = quote :: (e ++ [quote]) := by
  rw [quoted, ← String.toList_inj, String.toList_ofList]

theorem string?_eq_some_iff {text s : String} : string? text = some s ↔
    (∃ e, text = quoted '"' e ∧ stringBody? e = some s.toList) ∨
      ∃ raw, text = quoted '\x60' raw ∧ s.toList = raw.filter (· ≠ '\r') := by
  have hlist (cs : List Char) : String.ofList cs = s ↔ s.toList = cs := by
    rw [← String.toList_inj, String.toList_ofList, eq_comm]
  simp only [eq_quoted_iff, string?]
  split
  · rename_i rest htext
    simp only [htext, Option.map_eq_some_iff, between?_eq_some_iff, hlist]
    constructor
    · rintro ⟨raw, hraw, hs⟩
      exact .inr ⟨raw, hraw, hs⟩
    · rintro (⟨e, he, -⟩ | ⟨raw, hraw, hs⟩)
      · cases he
      · exact ⟨raw, hraw, hs⟩
  · rename_i hnot
    simp only [Option.map_eq_some_iff, Option.bind_eq_some_iff, between?_eq_some_iff, hlist]
    constructor
    · rintro ⟨cs, ⟨e, he, hbody⟩, hs⟩
      exact .inl ⟨e, he, hs ▸ hbody⟩
    · rintro (⟨e, he, hbody⟩ | ⟨raw, hraw, -⟩)
      · exact ⟨s.toList, ⟨e, he, hbody⟩, rfl⟩
      · exact absurd hraw (hnot _)

/-! ## Words of 32 bits -/

/-- A product or a sum with more than 32 bits. -/
inductive Overflow where
  | product
  | sum

def mulWord (a b : UInt32) : Except Overflow UInt32 :=
  if a.toNat * b.toNat < UInt32.size then .ok (a * b) else .error .product

def addWord (a b : UInt32) : Except Overflow UInt32 :=
  if a.toNat + b.toNat < UInt32.size then .ok (a + b) else .error .sum

/-- `digitRun?` in words. -/
def digitRunWord (base : Nat) :
    Nat → UInt32 → List Char → Except Overflow (Option (UInt32 × List Char))
  | 0, acc, cs => .ok (some (acc, cs))
  | count + 1, acc, cs => do
    let shifted ← mulWord acc (.ofNat base)
    match cs with
    | [] => pure none
    | c :: rest =>
      match Text.digit? base c with
      | some d => do
        let total ← addWord shifted (.ofNat d)
        digitRunWord base count total rest
      | none => pure none

/-- `escape?` in words. -/
def escapeWord (quote : Char) : List Char → Except Overflow (Option (UInt32 × List Char))
  | [] => .ok none
  | 'x' :: rest => digitRunWord 16 2 0 rest
  | 'u' :: rest => digitRunWord 16 4 0 rest
  | 'U' :: rest => digitRunWord 16 8 0 rest
  | c :: rest =>
    match Text.digit? 8 c with
    | some d => do
      match ← digitRunWord 8 2 (.ofNat d) rest with
      | some (n, rest') => pure (if n ≤ 0xff then some (n, rest') else none)
      | none => pure none
    | none => .ok ((letterEscape? quote c).map fun n => (.ofNat n, rest))

theorem toNat_ofNat_of_lt (h : n < UInt32.size) : (UInt32.ofNat n).toNat = n :=
  UInt32.toNat_ofNat_of_lt' h

theorem mulWord_ok {a b : UInt32} (h : a.toNat * b.toNat < UInt32.size) :
    ∃ w, mulWord a b = .ok w ∧ w.toNat = a.toNat * b.toNat := by
  refine ⟨a * b, if_pos h, ?_⟩
  rw [UInt32.toNat_mul]
  exact Nat.mod_eq_of_lt h

theorem addWord_ok {a b : UInt32} (h : a.toNat + b.toNat < UInt32.size) :
    ∃ w, addWord a b = .ok w ∧ w.toNat = a.toNat + b.toNat := by
  refine ⟨a + b, if_pos h, ?_⟩
  rw [UInt32.toNat_add]
  exact Nat.mod_eq_of_lt h

def asNat (r : Option (UInt32 × List Char)) : Option (Nat × List Char) :=
  r.map fun p => (p.1.toNat, p.2)

theorem digitRunWord_succ (w : UInt32) (count : Nat) (c : Char) (rest : List Char) :
    digitRunWord base (count + 1) w (c :: rest) = (mulWord w (.ofNat base)).bind fun shifted =>
      match Text.digit? base c with
      | some d => (addWord shifted (.ofNat d)).bind fun total => digitRunWord base count total rest
      | none => .ok none := rfl

/-- A run of digits that leaves room for itself above the word it starts with. -/
theorem digitRunWord_ok (hbase : 0 < base) (hsmall : base < UInt32.size) {w : UInt32}
    (hroom : (w.toNat + 1) * base ^ count ≤ UInt32.size) (cs : List Char) :
    ∃ r, digitRunWord base count w cs = .ok r ∧ asNat r = digitRun? base count w.toNat cs := by
  induction count generalizing w cs with
  | zero => exact ⟨some (w, cs), rfl, rfl⟩
  | succ count ih =>
    have hpow : 0 < base ^ count := Nat.pow_pos hbase
    have hnext : (w.toNat * base + base) * base ^ count ≤ UInt32.size := by
      rwa [← Nat.succ_mul, Nat.mul_assoc, ← Nat.pow_succ']
    have hfit : w.toNat * base + base ≤ UInt32.size :=
      (Nat.le_mul_of_pos_right _ hpow).trans hnext
    obtain ⟨shifted, hshifted, hvalue⟩ := mulWord_ok (a := w) (b := .ofNat base)
      (by rw [toNat_ofNat_of_lt hsmall]; omega)
    rw [toNat_ofNat_of_lt hsmall] at hvalue
    cases cs with
    | nil => exact ⟨none, by rw [digitRunWord, hshifted]; rfl, rfl⟩
    | cons c rest =>
      rw [digitRunWord_succ, hshifted, digitRun?]
      cases hd : Text.digit? base c with
      | none => exact ⟨none, rfl, rfl⟩
      | some d =>
        have hlt := Text.digit?_lt hd
        have hdigit : (UInt32.ofNat d).toNat = d := toNat_ofNat_of_lt (hlt.trans hsmall)
        obtain ⟨total, htotal, hsum⟩ := addWord_ok (a := shifted) (b := .ofNat d)
          (by rw [hvalue, hdigit]; omega)
        rw [hvalue, hdigit] at hsum
        have hrest : (total.toNat + 1) * base ^ count ≤ UInt32.size := by
          rw [hsum]
          exact (Nat.mul_le_mul_right _ (by omega)).trans hnext
        obtain ⟨r, hr, hsame⟩ := ih hrest rest
        rw [hsum] at hsame
        refine ⟨r, ?_, hsame⟩
        simp only [Except.bind, htotal, hr]

theorem digitRunWord_ofNat (hbase : 0 < base) (hsmall : base < UInt32.size) {d : Nat}
    (hroom : (d + 1) * base ^ count ≤ UInt32.size) (cs : List Char) :
    ∃ r, digitRunWord base count (.ofNat d) cs = .ok r ∧ asNat r = digitRun? base count d cs := by
  have hd : (UInt32.ofNat d).toNat = d :=
    toNat_ofNat_of_lt ((Nat.le_mul_of_pos_right _ (Nat.pow_pos hbase)).trans hroom)
  rw [← hd] at hroom
  have hword := digitRunWord_ok hbase hsmall hroom cs
  rwa [hd] at hword

theorem letterEscape?_lt (h : letterEscape? quote c = some n) : n < UInt32.size := by
  have hvalid := letterEscape?_isValidChar h
  rcases hvalid with h | ⟨-, h⟩
  · exact h.trans (by decide)
  · exact h.trans (by decide)

/-- No product or sum in an escape has more than 32 bits, whatever the text. -/
theorem escapeWord_eq (quote : Char) (cs : List Char) :
    ∃ r, escapeWord quote cs = .ok r ∧ asNat r = escape? quote cs := by
  have hhex (count : Nat) (hcount : 16 ^ count ≤ UInt32.size) (rest : List Char) :
      ∃ r, digitRunWord 16 count 0 rest = .ok r ∧ asNat r = digitRun? 16 count 0 rest :=
    digitRunWord_ofNat (by decide) (by decide) (by rwa [Nat.zero_add, Nat.one_mul]) rest
  unfold escapeWord
  split
  · exact ⟨none, rfl, rfl⟩
  · exact hhex 2 (by decide) _
  · exact hhex 4 (by decide) _
  · exact hhex 8 (by decide) _
  · rename_i c rest hx hu hU
    rw [escape?_cons hx hu hU]
    cases hd : Text.digit? 8 c with
    | some d =>
      dsimp only
      have hlt := Text.digit?_lt hd
      have hroom : (d + 1) * 8 ^ 2 ≤ UInt32.size := (Nat.mul_le_mul_right _ hlt).trans (by decide)
      obtain ⟨r, hr, hsame⟩ := digitRunWord_ofNat (by decide) (by decide) hroom rest
      refine ⟨r.bind fun p => if p.1 ≤ 0xff then some p else none, ?_, ?_⟩
      · simp only [hr]
        cases r <;> rfl
      · rw [← hsame]
        cases r with
        | none => rfl
        | some p =>
          have hle : p.1 ≤ 0xff ↔ p.1.toNat ≤ 0xff := UInt32.le_iff_toNat_le
          simp only [asNat, Option.bind_some, Option.map_some, hle]
          split <;> rfl
    | none =>
      refine ⟨_, rfl, ?_⟩
      cases hletter : letterEscape? quote c with
      | none => rfl
      | some n => simp [asNat, toNat_ofNat_of_lt (letterEscape?_lt hletter)]

/-- A text is a string literal exactly where it is a spelling of the string between double quotes,
or a text between back quotes that is the string with carriage returns put in. No text makes the
numbers of its escapes overflow. -/
theorem string?_spelled :
    (∀ text s : String, string? text = some s ↔
      (∃ e, text = quoted '"' e ∧ Spelled e s.toList) ∨
        ∃ raw, text = quoted '\x60' raw ∧ s.toList = raw.filter (· ≠ '\r')) ∧
      ∀ quote cs, ∃ r, escapeWord quote cs = .ok r ∧ asNat r = escape? quote cs := by
  constructor
  · intro text s
    simp only [string?_eq_some_iff, stringBody?_eq_some_iff]
  · intro quote cs
    exact escapeWord_eq quote cs

end Literal
end Midend
