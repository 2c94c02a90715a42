import Mathlib.Tactic.IntervalCases
import Midend.Proofs.NumberText

/-!
# Midend.Proofs.Radix

The grammar of integer literals, with the digits and the prefixes as tables. `Announces` says which
prefix a text without underscores has and which base that sets; every text has exactly one. What
follows is a plus sign that may be left out and digits of that base: `integer?` gives their number
as a signed word of 64 bits where it fits into 64 bits, and nothing for any other text
(`integer?_grammar`).

A prefix is looked for and cut off by bytes. `splitBytes` does so on UTF-8, where a cut inside a
character is an error, and agrees with `splitBase` on every text.
-/

namespace Midend

namespace Text

variable {base n d : Nat} {c : Char} {ds : List Char}

def IsDigit (base : Nat) (c : Char) (d : Nat) : Prop :=
  d < base ∧
    ("0123456789abcdef".toList[d]? = some c ∨ "0123456789ABCDEF".toList[d]? = some c)

/-- The digits denote the number in positional notation, the last digit counting ones. -/
def Denotes (base : Nat) (ds : List Char) (n : Nat) : Prop :=
  ∃ values, List.Forall₂ (IsDigit base) ds values ∧ n = Nat.ofDigits base values.reverse

theorem hexDigit?_eq_ite (c : Char) : hexDigit? c =
    if 48 ≤ c.toNat ∧ c.toNat ≤ 57 then some (c.toNat - 48)
    else if 97 ≤ c.toNat ∧ c.toNat ≤ 102 then some (c.toNat - 87)
    else if 65 ≤ c.toNat ∧ c.toNat ≤ 70 then some (c.toNat - 55)
    else none := by
  have hle (a b : Char) : a ≤ b ↔ a.toNat ≤ b.toNat := UInt32.le_iff_toNat_le
  simp only [hexDigit?, hle]
  rfl

theorem hexDigit?_eq_some_iff : hexDigit? c = some d ↔
    "0123456789abcdef".toList[d]? = some c ∨ "0123456789ABCDEF".toList[d]? = some c := by
  constructor
  · intro h
    rw [hexDigit?_eq_ite] at h
    have hc : c = Char.ofNat c.toNat := (Char.ofNat_toNat c).symm
    generalize c.toNat = k at h hc
    subst hc
    split_ifs at h with h1 h2 h3 <;> obtain rfl := Option.some.inj h
    · obtain ⟨hlo, hhi⟩ := h1
      interval_cases k <;> exact .inl rfl
    · obtain ⟨hlo, hhi⟩ := h2
      interval_cases k <;> exact .inl rfl
    · obtain ⟨hlo, hhi⟩ := h3
      interval_cases k <;> exact .inr rfl
  · intro h
    have hd : d < 16 := by
      by_contra hd
      rw [List.getElem?_eq_none (by simpa using hd), List.getElem?_eq_none (by simpa using hd)] at h
      simp at h
    interval_cases d <;>
    · simp at h
      first
      | subst h; rfl
      | (rcases h with rfl | rfl <;> rfl)

theorem digit?_eq_some_iff : digit? base c = some d ↔ IsDigit base c d := by
  rw [IsDigit, ← hexDigit?_eq_some_iff, digit?]
  cases hexDigit? c with
  | none => simp
  | some e =>
    simp only [Option.some.injEq, Option.ite_none_right_eq_some]
    constructor
    · rintro ⟨hlt, rfl⟩
      exact ⟨hlt, rfl⟩
    · rintro ⟨hlt, rfl⟩
      exact ⟨hlt, rfl⟩

theorem digits?_iff_denotes : digits? base ds = some n ↔ Denotes base ds n := by
  simp only [digits?_eq_some_iff, Spells, Denotes, digit?_eq_some_iff]

end Text

namespace Literal

variable {base : Nat} {c l : Char} {cs head tail t pre body : List Char}

/-- The prefixes with a letter and the bases that they set. -/
def marks : List (List Char × Nat) :=
  [(['0', 'x'], 16), (['0', 'X'], 16), (['0', 'o'], 8), (['0', 'O'], 8), (['0', 'b'], 2),
    (['0', 'B'], 2)]

/-- The prefix of an integer literal, and the base that it sets: a prefix with a letter; else a zero
that is not the last character; else none. -/
def Announces (t pre : List Char) (base : Nat) : Prop :=
  ((pre, base) ∈ marks ∧ pre <+: t) ∨
    ((∀ m ∈ marks, ¬ m.1 <+: t) ∧
      if ['0'] <+: t ∧ 1 < t.length then pre = ['0'] ∧ base = 8 else pre = [] ∧ base = 10)

theorem Announces.of_mark (hmark : (pre, base) ∈ marks) (ht : t = pre ++ body) (p : List Char)
    (b : Nat) : Announces t p b ↔ p = pre ∧ b = base := by
  have hprefix : pre <+: t := ht ▸ List.prefix_append pre body
  have hlength : ∀ m ∈ marks, m.1.length = 2 := by decide
  have hbase : ∀ m ∈ marks, ∀ m' ∈ marks, m.1 = m'.1 → m.2 = m'.2 := by decide
  constructor
  · rintro (⟨hp, hpt⟩ | ⟨hnone, -⟩)
    · have heq : p.length = pre.length := (hlength _ hp).trans (hlength _ hmark).symm
      have hsame : p = pre :=
        (List.prefix_of_prefix_length_le hpt hprefix heq.le).eq_of_length heq
      exact ⟨hsame, hbase _ hp _ hmark hsame⟩
    · exact absurd hprefix (hnone _ hmark)
  · rintro ⟨rfl, rfl⟩
    exact .inl ⟨hmark, hprefix⟩

theorem Announces.of_no_mark (hnone : ∀ m ∈ marks, ¬ m.1 <+: t) (p : List Char) (b : Nat) :
    Announces t p b ↔
      if ['0'] <+: t ∧ 1 < t.length then p = ['0'] ∧ b = 8 else p = [] ∧ b = 10 := by
  constructor
  · rintro (⟨hp, hpt⟩ | ⟨-, h⟩)
    · exact absurd hpt (hnone _ hp)
    · exact h
  · exact fun h => .inr ⟨hnone, h⟩

/-- Every text has one prefix, the one that is taken off it. -/
theorem announces_of_based (h : Based t base body) :
    ∃ pre, t = pre ++ body ∧ ∀ p b, Announces t p b ↔ p = pre ∧ b = base := by
  cases h with
  | @hexadecimal c body hc =>
    refine ⟨['0', c], rfl, Announces.of_mark ?_ rfl⟩
    rcases hc with rfl | rfl <;> decide
  | @octal c body hc =>
    refine ⟨['0', c], rfl, Announces.of_mark ?_ rfl⟩
    rcases hc with rfl | rfl <;> decide
  | @binary c body hc =>
    refine ⟨['0', c], rfl, Announces.of_mark ?_ rfl⟩
    rcases hc with rfl | rfl <;> decide
  | @legacy c body hc =>
    have hnone : ∀ m ∈ marks, ¬ m.1 <+: '0' :: c :: body := by
      simp only [List.mem_cons, List.not_mem_nil, or_false, not_or] at hc
      simp [marks, Ne.symm, hc, eq_comm]
    refine ⟨['0'], rfl, fun p b => ?_⟩
    rw [Announces.of_no_mark hnone, if_pos ⟨by simp, by simp⟩]
  | decimal hnot =>
    have hnone : ∀ m ∈ marks, ¬ m.1 <+: t := by
      have htwo : ∀ m ∈ marks, ∃ c, m.1 = ['0', c] := by simp [marks]
      intro m hm hprefix
      obtain ⟨c, hc⟩ := htwo m hm
      obtain ⟨rest, rfl⟩ := hc ▸ hprefix
      exact hnot c rest rfl
    have hzero : ¬ (['0'] <+: t ∧ 1 < t.length) := by
      rintro ⟨⟨rest, rfl⟩, hlength⟩
      cases rest with
      | nil => simp at hlength
      | cons c rest => exact hnot c rest rfl
    refine ⟨[], rfl, fun p b => ?_⟩
    rw [Announces.of_no_mark hnone, if_neg hzero]

/-- A cut that is not between two characters. -/
inductive BadCut where
  | insideCharacter

def byteSize (cs : List Char) : Nat := (cs.map Char.utf8Size).sum

/-- The text before and after its first `n` bytes, if it has as many and they end a character. -/
def cutBytes? : Nat → List Char → Option (List Char × List Char)
  | 0, cs => some ([], cs)
  | _ + 1, [] => none
  | n + 1, c :: cs =>
    if c.utf8Size ≤ n + 1 then
      (cutBytes? (n + 1 - c.utf8Size) cs).map fun cut => (c :: cut.1, cut.2)
    else none

/-- What follows the first `n` bytes, where there must be a cut. -/
def afterBytes (n : Nat) (cs : List Char) : Except BadCut (List Char) :=
  match cutBytes? n cs with
  | some cut => .ok cut.2
  | none => .error .insideCharacter

/-- What follows the mark, in either letter case, if the text begins with it. -/
def stripMark (mark cs : List Char) : Except BadCut (Option (List Char)) :=
  match cutBytes? mark.length cs with
  | some cut =>
    if cut.1.map Char.toLower = mark then (afterBytes mark.length cs).map some else .ok none
  | none => .ok none

/-- The base of an integer literal and what follows its prefix, by tests and cuts on bytes. -/
def splitBytes (cs : List Char) : Except BadCut (Nat × List Char) := do
  match ← stripMark ['0', 'x'] cs with
  | some rest => pure (16, rest)
  | none =>
    match ← stripMark ['0', 'o'] cs with
    | some rest => pure (8, rest)
    | none =>
      match ← stripMark ['0', 'b'] cs with
      | some rest => pure (2, rest)
      | none =>
        if 1 < byteSize cs ∧ cs.head? = some '0' then
          (afterBytes 1 cs).map fun rest => (8, rest)
        else pure (10, cs)

theorem byteSize_cons (c : Char) (cs : List Char) :
    byteSize (c :: cs) = c.utf8Size + byteSize cs := by
  simp [byteSize]

theorem byteSize_eq_zero_iff : byteSize head = 0 ↔ head = [] := by
  cases head with
  | nil => simp [byteSize]
  | cons c head =>
    have := c.utf8Size_pos
    simp only [byteSize_cons, reduceCtorEq, iff_false]
    omega

theorem cutBytes?_eq_some_iff {n : Nat} :
    cutBytes? n cs = some (head, tail) ↔ cs = head ++ tail ∧ byteSize head = n := by
  fun_induction cutBytes? n cs generalizing head with
  | case1 cs =>
    rw [byteSize_eq_zero_iff]
    constructor
    · intro h
      cases h
      exact ⟨rfl, rfl⟩
    · rintro ⟨rfl, rfl⟩
      rfl
  | case2 n =>
    simp only [reduceCtorEq, false_iff]
    rintro ⟨happend, hsize⟩
    obtain ⟨rfl, rfl⟩ := List.append_eq_nil_iff.mp happend.symm
    simp [byteSize] at hsize
  | case3 n c cs hle ih =>
    simp only [Option.map_eq_some_iff, Prod.mk.injEq, Prod.exists]
    constructor
    · rintro ⟨head', tail', hcut, rfl, rfl⟩
      obtain ⟨rfl, hsize⟩ := ih.mp hcut
      exact ⟨rfl, by rw [byteSize_cons]; omega⟩
    · rintro ⟨happend, hsize⟩
      cases head with
      | nil => simp [byteSize] at hsize
      | cons c' head =>
        obtain ⟨rfl, rfl⟩ := List.cons.inj happend
        rw [byteSize_cons] at hsize
        exact ⟨head, tail, ih.mpr ⟨rfl, by omega⟩, rfl, rfl⟩
  | case4 n c cs hnot =>
    simp only [reduceCtorEq, false_iff]
    rintro ⟨happend, hsize⟩
    cases head with
    | nil => simp [byteSize] at hsize
    | cons c' head =>
      obtain ⟨rfl, rfl⟩ := List.cons.inj happend
      rw [byteSize_cons] at hsize
      omega

theorem afterBytes_append (head tail : List Char) :
    afterBytes (byteSize head) (head ++ tail) = .ok tail := by
  rw [afterBytes, cutBytes?_eq_some_iff.mpr ⟨rfl, rfl⟩]

theorem toNat_toLower (c : Char) : c.toLower.toNat =
    if 65 ≤ c.toNat ∧ c.toNat ≤ 90 then c.toNat + 32 else c.toNat := by
  have hupper : c.val ≥ 'A'.val ∧ c.val ≤ 'Z'.val ↔ 65 ≤ c.toNat ∧ c.toNat ≤ 90 := by
    simp only [ge_iff_le, UInt32.le_iff_toNat_le]
    rfl
  unfold Char.toLower
  by_cases h : 65 ≤ c.toNat ∧ c.toNat ≤ 90
  · rw [dif_pos (hupper.mpr h), if_pos h]
    show (c.val + 32).toNat = c.toNat + 32
    rw [UInt32.toNat_add]
    show (c.toNat + 32) % 2 ^ 32 = c.toNat + 32
    omega
  · rw [dif_neg (hupper.not.mpr h), if_neg h]

theorem toLower_eq_iff {u : Char} (hu : 65 ≤ u.toNat ∧ u.toNat ≤ 90)
    (hl : l.toNat = u.toNat + 32) : c.toLower = l ↔ c = l ∨ c = u := by
  simp only [← Char.toNat_inj, toNat_toLower]
  split <;> omega

theorem toLower_eq_zero_iff : c.toLower = '0' ↔ c = '0' := by
  have hzero : '0'.toNat = 48 := rfl
  simp only [← Char.toNat_inj, toNat_toLower]
  split <;> omega

/-- A small letter of one byte, and the capital, of one byte too. -/
structure IsCase (l u : Char) : Prop where
  upper : 65 ≤ u.toNat ∧ u.toNat ≤ 90
  lower : l.toNat = u.toNat + 32
  size : l.utf8Size = 1 ∧ u.utf8Size = 1

theorem map_toLower_eq_iff {u : Char} (h : IsCase l u) :
    head.map Char.toLower = ['0', l] ↔ ∃ c, (c = l ∨ c = u) ∧ head = ['0', c] := by
  constructor
  · intro heq
    cases head with
    | nil => cases heq
    | cons zero head =>
      cases head with
      | nil => simp at heq
      | cons c head =>
        simp only [List.map_cons, List.cons.injEq, List.map_eq_nil_iff] at heq
        obtain ⟨hzero, hc, rfl⟩ := heq
        obtain rfl := toLower_eq_zero_iff.mp hzero
        exact ⟨c, (toLower_eq_iff h.upper h.lower).mp hc, rfl⟩
  · rintro ⟨c, hc, rfl⟩
    rw [List.map_cons, List.map_singleton, (toLower_eq_iff h.upper h.lower).mpr hc,
      toLower_eq_zero_iff.mpr rfl]

theorem byteSize_mark {u : Char} (h : IsCase l u) (hc : c = l ∨ c = u) : byteSize ['0', c] = 2 := by
  have hsize : c.utf8Size = 1 := by
    rcases hc with rfl | rfl
    · exact h.size.1
    · exact h.size.2
  simp only [byteSize, List.map_cons, List.map_nil, hsize]
  rfl

theorem stripMark_mark {u : Char} (h : IsCase l u) (hc : c = l ∨ c = u) (rest : List Char) :
    stripMark ['0', l] ('0' :: c :: rest) = .ok (some rest) := by
  have hcut : cutBytes? 2 ('0' :: c :: rest) = some (['0', c], rest) :=
    cutBytes?_eq_some_iff.mpr ⟨rfl, byteSize_mark h hc⟩
  have hlower : ['0', c].map Char.toLower = ['0', l] := (map_toLower_eq_iff h).mpr ⟨c, hc, rfl⟩
  have hafter : afterBytes 2 ('0' :: c :: rest) = .ok rest := by rw [afterBytes, hcut]
  have htwo : ['0', l].length = 2 := rfl
  simp only [stripMark, htwo, hcut, hlower, if_true, hafter]
  rfl

theorem stripMark_none {u : Char} (h : IsCase l u)
    (hcs : ∀ c rest, cs = '0' :: c :: rest → ¬ (c = l ∨ c = u)) :
    stripMark ['0', l] cs = .ok none := by
  rw [stripMark]
  split
  · rename_i cut hcut
    refine if_neg fun heq => ?_
    obtain ⟨c, hc, hhead⟩ := (map_toLower_eq_iff h).mp heq
    obtain ⟨happend, -⟩ := cutBytes?_eq_some_iff.mp hcut
    rw [hhead] at happend
    exact hcs c cut.2 happend hc
  · rfl

theorem leadingZero_iff :
    1 < byteSize cs ∧ cs.head? = some '0' ↔ ∃ c rest, cs = '0' :: c :: rest := by
  have hsize : '0'.utf8Size = 1 := rfl
  constructor
  · rintro ⟨hlong, hhead⟩
    obtain ⟨rest, rfl⟩ := List.head?_eq_some_iff.mp hhead
    cases rest with
    | nil => exact absurd hlong (by decide)
    | cons c rest => exact ⟨c, rest, rfl⟩
  · rintro ⟨c, rest, rfl⟩
    have := c.utf8Size_pos
    simp only [byteSize_cons, hsize, List.head?_cons, and_true]
    omega

/-- Cuts are made only between characters, and give what taking characters gives. -/
theorem splitBytes_eq (cs : List Char) : splitBytes cs = .ok (splitBase cs) := by
  have hx : IsCase 'x' 'X' := ⟨by decide, rfl, by decide⟩
  have ho : IsCase 'o' 'O' := ⟨by decide, rfl, by decide⟩
  have hb : IsCase 'b' 'B' := ⟨by decide, rfl, by decide⟩
  by_cases hzero : ∃ c rest, cs = '0' :: c :: rest
  · have hlegacy := leadingZero_iff.mpr hzero
    obtain ⟨c, rest, rfl⟩ := hzero
    have hother {l u : Char} (h : IsCase l u) (hc : ¬ (c = l ∨ c = u)) :
        stripMark ['0', l] ('0' :: c :: rest) = .ok none := by
      refine stripMark_none h fun c' rest' heq => ?_
      obtain ⟨-, hcons⟩ := List.cons.inj heq
      rwa [← (List.cons.inj hcons).1]
    rw [splitBytes, splitBase]
    by_cases hcx : c = 'x' ∨ c = 'X'
    · rw [stripMark_mark hx hcx, if_pos hcx]
      rfl
    rw [hother hx hcx, if_neg hcx]
    by_cases hco : c = 'o' ∨ c = 'O'
    · rw [stripMark_mark ho hco, if_pos hco]
      rfl
    rw [hother ho hco, if_neg hco]
    by_cases hcb : c = 'b' ∨ c = 'B'
    · rw [stripMark_mark hb hcb, if_pos hcb]
      rfl
    rw [hother hb hcb, if_neg hcb]
    show (if _ then _ else _) = _
    rw [if_pos hlegacy]
    have hafter := afterBytes_append ['0'] (c :: rest)
    show Except.map _ (afterBytes 1 (['0'] ++ c :: rest)) = _
    rw [show byteSize ['0'] = 1 from rfl] at hafter
    rw [hafter]
    rfl
  · have hnone {l u : Char} (h : IsCase l u) : stripMark ['0', l] cs = .ok none :=
      stripMark_none h fun c rest heq => absurd ⟨c, rest, heq⟩ hzero
    rw [splitBytes, hnone hx, hnone ho, hnone hb]
    show (if _ then _ else _) = _
    rw [if_neg (leadingZero_iff.not.mpr hzero),
      splitBase.eq_2 cs fun c rest heq => hzero ⟨c, rest, heq⟩]
    rfl

/-! ## Integer literals -/

/-- The number as a signed word of 64 bits, in two's complement. -/
theorem eq_ofNat_iff {n : Nat} {v : Int64} (hn : n < 2 ^ 64) :
    v = Int64.ofNat n ↔ v.toInt = if n < 2 ^ 63 then (n : Int) else n - 2 ^ 64 := by
  have hword : (Int64.ofNat n).toInt = if n < 2 ^ 63 then (n : Int) else n - 2 ^ 64 := by
    have hsize : Int64.size = 2 ^ 64 := rfl
    rw [Int64.toInt_ofNat', Int.bmod_def, hsize]
    split_ifs <;> omega
  rw [← Int64.toInt_inj, hword]

/-- An integer literal without its underscores is a prefix, found by its bytes and cut off at the
end of a character, and a body. It is read exactly where the body is a plus sign, that may be left
out, and digits of the base, at least one, whose number fits into 64 bits; its value is that number
as a signed word. -/
theorem integer?_grammar (text : String) :
    ∃ pre base body, dropUnderscores text = pre ++ body ∧
      (∀ p b, Announces (dropUnderscores text) p b ↔ p = pre ∧ b = base) ∧
      splitBytes (dropUnderscores text) = .ok (base, body) ∧
      ∀ v : Int64, integer? text = some v ↔
        ∃ ds n, (body = ds ∨ body = '+' :: ds) ∧ ds ≠ [] ∧ Text.Denotes base ds n ∧ n < 2 ^ 64 ∧
          v.toInt = if n < 2 ^ 63 then (n : Int) else n - 2 ^ 64 := by
  obtain ⟨base, body, hsplit⟩ : ∃ base body, splitBase (dropUnderscores text) = (base, body) :=
    ⟨_, _, rfl⟩
  have hbased := splitBase_eq_iff.mp hsplit
  obtain ⟨pre, happend, hannounces⟩ := announces_of_based hbased
  refine ⟨pre, base, body, happend, hannounces, by rw [splitBytes_eq, hsplit], fun v => ?_⟩
  rw [integer?_eq_some_iff]
  constructor
  · rintro ⟨n, ⟨base', body', ds, hbased', hbody, hne, hspells⟩, hn, hv⟩
    rw [← splitBase_eq_iff, hsplit] at hbased'
    obtain ⟨rfl, rfl⟩ := Prod.mk.inj hbased'
    rw [← Text.digits?_eq_some_iff, Text.digits?_iff_denotes] at hspells
    exact ⟨ds, n, hbody, hne, hspells, hn, (eq_ofNat_iff hn).mp hv⟩
  · rintro ⟨ds, n, hbody, hne, hdenotes, hn, hv⟩
    rw [← Text.digits?_iff_denotes, Text.digits?_eq_some_iff] at hdenotes
    exact ⟨n, ⟨base, body, ds, hbased, hbody, hne, hdenotes⟩, hn, (eq_ofNat_iff hn).mpr hv⟩

end Literal
end Midend
