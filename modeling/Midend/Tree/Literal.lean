import Midend.Number.Decimal
import Midend.Text.Digit

/-!
# Midend.Tree.Literal

The values of literals, read from the text that the tree keeps.

An integer is decimal, or has the prefix `0x`, `0o` or `0b` in either letter case, or is octal when
it starts with a `0` that is not its only character; it must be below `2 ^ 64` and stands for its
bits as a signed word. Underscores are ignored in numbers. A rune is one character or escape between
single quotes, and may be any number an escape can spell. A string is raw between back quotes, where
only carriage returns are dropped, or interpreted between double quotes, where every escape must
spell a character.
-/

namespace Midend
namespace Literal

def dropUnderscores (text : String) : List Char := text.toList.filter (· ≠ '_')

/-- The base of an integer literal and what follows its prefix. -/
def splitBase : List Char → Nat × List Char
  | '0' :: c :: rest =>
    if c = 'x' ∨ c = 'X' then (16, rest)
    else if c = 'o' ∨ c = 'O' then (8, rest)
    else if c = 'b' ∨ c = 'B' then (2, rest)
    else (8, c :: rest)
  | cs => (10, cs)

def dropPlus : List Char → List Char
  | '+' :: rest => rest
  | cs => cs

/-- The word that an integer literal denotes. -/
def integer? (text : String) : Option Int64 :=
  let (base, body) := splitBase (dropUnderscores text)
  let ds := dropPlus body
  if ds.isEmpty then none
  else
    match Text.digits? base ds with
    | some n => if n < UInt64.size then some (UInt64.ofNat n).toInt64 else none
    | none => none

/-- The double that a float literal denotes. There are no hexadecimal float literals. -/
def float? (text : String) : Option Binary64 :=
  match dropUnderscores text with
  | '0' :: c :: rest =>
    if c = 'x' ∨ c = 'X' then none else Decimal.read? ('0' :: c :: rest)
  | cs => Decimal.read? cs

/-- What stands between two quotes of the given kind that begin and end the text. -/
def between? (quote : Char) : List Char → Option (List Char)
  | [] => none
  | c :: rest => if c = quote ∧ rest.getLast? = some quote then some rest.dropLast else none

/-- The value of exactly `count` digits in a base, on top of `acc`, and what follows them. -/
def digitRun? (base : Nat) : Nat → Nat → List Char → Option (Nat × List Char)
  | 0, acc, cs => some (acc, cs)
  | _ + 1, _, [] => none
  | count + 1, acc, c :: rest =>
    match Text.digit? base c with
    | some d => digitRun? base count (acc * base + d) rest
    | none => none

/-- The number that a one-letter escape stands for. The quote that ends the literal is one. -/
def letterEscape? (quote c : Char) : Option Nat :=
  match c with
  | 'a' => some 0x07
  | 'b' => some 0x08
  | 'f' => some 0x0c
  | 'n' => some 0x0a
  | 'r' => some 0x0d
  | 't' => some 0x09
  | 'v' => some 0x0b
  | '\\' => some 0x5c
  | c => if c = quote then some c.toNat else none

/-- The number that an escape spells, given what follows the backslash, and what follows the
escape. -/
def escape? (quote : Char) : List Char → Option (Nat × List Char)
  | [] => none
  | 'x' :: rest => digitRun? 16 2 0 rest
  | 'u' :: rest => digitRun? 16 4 0 rest
  | 'U' :: rest => digitRun? 16 8 0 rest
  | c :: rest =>
    match Text.digit? 8 c with
    | some d =>
      match digitRun? 8 2 d rest with
      | some (n, rest') => if n ≤ 0xff then some (n, rest') else none
      | none => none
    | none => (letterEscape? quote c).map fun n => (n, rest)

/-- The number of the one character or escape that makes up the text. -/
def runeBody? : List Char → Option Nat
  | '\\' :: rest =>
    match escape? '\'' rest with
    | some (n, []) => some n
    | _ => none
  | [c] => some c.toNat
  | _ => none

def rune? (text : String) : Option Nat := (between? '\'' text.toList).bind runeBody?

theorem length_digitRun? {base count acc n : Nat} {cs rest : List Char}
    (h : digitRun? base count acc cs = some (n, rest)) : rest.length + count = cs.length := by
  induction count generalizing acc cs with
  | zero => simp only [digitRun?, Option.some.injEq, Prod.mk.injEq] at h; simp [h.2]
  | succ count ih =>
    cases cs with
    | nil => simp [digitRun?] at h
    | cons c cs =>
      simp only [digitRun?] at h
      split at h
      · have := ih h; simp only [List.length_cons]; omega
      · cases h

theorem length_escape? {quote : Char} {n : Nat} {cs rest : List Char}
    (h : escape? quote cs = some (n, rest)) : rest.length < cs.length := by
  unfold escape? at h
  split at h
  · cases h
  · have := length_digitRun? h; simp only [List.length_cons]; omega
  · have := length_digitRun? h; simp only [List.length_cons]; omega
  · have := length_digitRun? h; simp only [List.length_cons]; omega
  · split at h
    · split at h
      · rename_i hr
        split at h
        · cases h; have := length_digitRun? hr; simp only [List.length_cons]; omega
        · cases h
      · cases h
    · simp only [Option.map_eq_some_iff, Prod.mk.injEq] at h
      obtain ⟨_, _, _, rfl⟩ := h
      simp

def stringBody? : List Char → Option (List Char)
  | [] => some []
  | '\\' :: rest =>
    match _h : escape? '"' rest with
    | some (n, rest') =>
      if n.isValidChar then (stringBody? rest').map (Char.ofNat n :: ·) else none
    | none => none
  | c :: rest => (stringBody? rest).map (c :: ·)
termination_by cs => cs.length
decreasing_by
  · have := length_escape? _h; simp only [List.length_cons]; omega
  · simp

def string? (text : String) : Option String :=
  match text.toList with
  | '\x60' :: rest =>
    (between? '\x60' ('\x60' :: rest)).map fun cs => String.ofList (cs.filter (· ≠ '\r'))
  | cs => ((between? '"' cs).bind stringBody?).map String.ofList

end Literal
end Midend
