import Midend.Json.Read
import Midend.Json.Write
import Midend.Proofs.Numeral

/-!
# Midend.Proofs.JsonText

JSON text of a value is read back as that value (`Exact.parse?_pretty`). A character in a string is
written in one of three ways, each of which the scanner takes for that character, whatever follows.
What is written after a number does not go on with it. `Spells` puts the scanner and the reader
together, one token at a time: from a position of the reader a text spells the value that is
complete when the text ends.
-/

namespace Midend.Json

open Text

theorem escapeChar_cases (c : Char) :
    (∃ d, escapeChar c = ['\\', d] ∧ d ≠ 'u' ∧ letterEscape? d = some c) ∨
      (c.toNat < 0x20 ∧
        escapeChar c = ['\\', 'u', '0', '0', hexChar (c.toNat / 16), hexChar (c.toNat % 16)]) ∨
      (0x20 ≤ c.toNat ∧ c ≠ '"' ∧ c ≠ '\\' ∧ escapeChar c = [c]) := by
  unfold escapeChar
  split
  case h_8 hquote hslash _ _ _ _ _ =>
    by_cases hc : c.toNat < 0x20
    · rw [if_pos hc]
      exact .inr (.inl ⟨hc, rfl⟩)
    · rw [if_neg hc]
      exact .inr (.inr ⟨Nat.not_lt.mp hc, hquote, hslash, rfl⟩)
  all_goals exact .inl ⟨_, rfl, by decide, rfl⟩

def Piece.ofChar (c : Char) : Piece :=
  match escapeChar c with
  | [_] => .raw c
  | [_, _] => .escape c
  | _ => .unit c.toNat

def isEscaped (s : String) : Bool := !(s.toList.map Piece.ofChar).all Piece.isRaw

theorem hexQuad?_hexChar :
    ∀ n < 0x20, hexQuad? '0' '0' (hexChar (n / 16)) (hexChar (n % 16)) = some n := by
  decide

theorem scanString_escapeChar (acc : List Piece) (c : Char) (rest : List Char) :
    scanString acc (escapeChar c ++ rest) = scanString (.ofChar c :: acc) rest := by
  rcases escapeChar_cases c with ⟨d, he, hd, hletter⟩ | ⟨hc, he⟩ | ⟨hc, _, hslash, he⟩
  · simp [Piece.ofChar, he, scanString, hd, hletter]
  · simp [Piece.ofChar, he, scanString, hexQuad?_hexChar _ hc]
  · have hlt : ¬ c.toNat < 0x20 := Nat.not_lt.mpr hc
    simp [Piece.ofChar, he, scanString, hslash, hlt]

theorem scanString_quoted (acc : List Piece) (cs rest : List Char) :
    scanString acc (cs.flatMap escapeChar ++ '"' :: rest) =
      some (acc.reverse ++ cs.map .ofChar, rest) := by
  induction cs generalizing acc with
  | nil => simp [scanString]
  | cons c cs ih =>
    rw [List.flatMap_cons, List.append_assoc, scanString_escapeChar, ih]
    simp

theorem joinPieces_cons (acc : List Char) (c : Char) (pieces : List Piece) :
    joinPieces acc (.ofChar c :: pieces) = joinPieces (c :: acc) pieces := by
  rcases escapeChar_cases c with ⟨d, he, _⟩ | ⟨hc, he⟩ | ⟨_, _, _, he⟩
  · simp [Piece.ofChar, he, joinPieces]
  · have hlead : isLeadSurrogate c.toNat = false := by
      simp only [isLeadSurrogate, Bool.and_eq_false_iff, decide_eq_false_iff_not]
      omega
    have htrail : isTrailSurrogate c.toNat = false := by
      simp only [isTrailSurrogate, Bool.and_eq_false_iff, decide_eq_false_iff_not]
      omega
    rw [joinPieces.eq_def]
    simp [Piece.ofChar, he, hlead, htrail]
  · simp [Piece.ofChar, he, joinPieces]

theorem joinPieces_ofChar (acc cs : List Char) :
    joinPieces acc (cs.map .ofChar) = some (acc.reverse ++ cs) := by
  induction cs generalizing acc with
  | nil => simp [joinPieces]
  | cons c cs ih =>
    rw [List.map_cons, joinPieces_cons, ih]
    simp

variable {rest : List Char}

theorem scanToken_quote (s : String) (rest : List Char) :
    scanToken (quote s ++ rest) = some (.str s (isEscaped s), rest) := by
  have hscan := scanString_quoted [] s.toList rest
  simp [quote, scanToken, hscan, Token.ofPieces, joinPieces_ofChar, isEscaped]

theorem scanToken_of_number {c : Char} (h : c.isDigit = true ∨ c = '-') :
    scanToken (c :: rest) = scanNumber (c :: rest) := by
  unfold scanToken
  split
  case h_11 => rfl
  all_goals
    next heq =>
      obtain ⟨rfl, -⟩ := List.cons.inj heq
      exact absurd h (by decide)

theorem isBlank_of_number {c : Char} (h : c.isDigit = true ∨ c = '-') : isBlank c = false := by
  refine Bool.eq_false_iff.mpr fun hblank => ?_
  simp only [isBlank, Bool.or_eq_true, decide_eq_true_eq] at hblank
  rcases hblank with ((rfl | rfl) | rfl) | rfl <;> exact absurd h (by decide)

theorem scanNumber_int (n : Int) (hrest : EndsNumber rest) :
    ∃ c text, (toString n).toList = c :: text ∧ (c.isDigit = true ∨ c = '-') ∧
      scanNumber (c :: (text ++ rest)) = some (.int n, rest) := by
  cases n with
  | ofNat n =>
    have htext : (toString (Int.ofNat n)).toList = Nat.toDigits 10 n := by
      show (toString n).toList = _
      rw [Nat.toString_eq_repr, Nat.repr_eq_ofList_toDigits, String.toList_ofList]
    have hnum := isNumeral_toDigits n
    have hscan := scanNumber_toDigits n hrest
    rw [htext]
    cases hdigits : Nat.toDigits 10 n with
    | nil => exact absurd hdigits hnum.1
    | cons c ds =>
      rw [hdigits] at hscan
      exact ⟨c, ds, rfl, .inl (hnum.2.1 c (hdigits ▸ List.mem_cons_self)), hscan⟩
  | negSucc n =>
    have htext : (toString (Int.negSucc n)).toList = '-' :: Nat.toDigits 10 (n + 1) := by
      show ("-" ++ toString (n + 1)).toList = _
      simp [Nat.toString_eq_repr, Nat.repr_eq_ofList_toDigits]
    have hnum := isNumeral_toDigits (n + 1)
    refine ⟨'-', _, htext, .inr rfl, ?_⟩
    show scanNumber _ = some (.int (-((n + 1 : Nat) : Int)), rest)
    simp [scanNumber, integerPart_append hnum hrest, hnum.1, fractionPart_of_endsNumber hrest,
      exponentPart_of_endsNumber hrest, decimalValue_toDigits]

/-! ## Reading on -/

/-- From the position the text is read to its end, where the value is complete. -/
inductive Spells : Position → List Char → Json → Prop where
  | done {v : Json} : Spells (.after v []) [] v
  | blank {p : Position} {c : Char} {cs : List Char} {v : Json} :
      isBlank c = true → Spells p cs v → Spells p (c :: cs) v
  | token {p q : Position} {c : Char} {text rest : List Char} {t : Token} {v : Json} :
      isBlank c = false → scanToken (c :: (text ++ rest)) = some (t, rest) → p.step t = some q →
        Spells q rest v → Spells p (c :: (text ++ rest)) v

theorem Spells.exists_tokens {p : Position} {cs : List Char} {v : Json} (h : Spells p cs v) :
    ∃ ts, (∀ fuel, cs.length ≤ fuel → scanAll fuel cs = some ts) ∧
      (ts.foldlM Position.step p).bind Position.finished? = some v := by
  induction h with
  | done => exact ⟨[], fun fuel _ => by simp [scanAll], rfl⟩
  | blank hblank _ ih =>
    obtain ⟨ts, hscan, hread⟩ := ih
    refine ⟨ts, fun fuel hfuel => ?_, hread⟩
    obtain ⟨fuel, rfl⟩ := Nat.exists_eq_add_one_of_ne_zero (Nat.ne_zero_of_lt hfuel)
    rw [scanAll, if_pos hblank]
    exact hscan fuel (Nat.le_of_succ_le_succ hfuel)
  | @token p q c text rest t v hblank htoken hstep _ ih =>
    obtain ⟨ts, hscan, hread⟩ := ih
    refine ⟨t :: ts, fun fuel hfuel => ?_, by simpa [hstep] using hread⟩
    obtain ⟨fuel, rfl⟩ := Nat.exists_eq_add_one_of_ne_zero (Nat.ne_zero_of_lt hfuel)
    have hrest : rest.length ≤ fuel := by
      rw [List.length_cons, List.length_append] at hfuel
      omega
    simp [scanAll, hblank, htoken, hscan fuel hrest]

theorem Spells.parse? {text : String} {v : Json} (h : Spells (.value []) text.toList v) :
    Json.parse? text = some v := by
  obtain ⟨ts, hscan, hread⟩ := h.exists_tokens
  simpa [Json.parse?, scan, hscan _ (Nat.le_refl _), ofTokens?] using hread

section

variable {p q : Position} {stack : List Open} {v : Json} {level : Nat}

theorem Spells.blanks {blanks : List Char} (hblanks : ∀ c ∈ blanks, isBlank c = true)
    (h : Spells p rest v) : Spells p (blanks ++ rest) v := by
  induction blanks with
  | nil => exact h
  | cons c cs ih =>
    obtain ⟨hc, hcs⟩ := List.forall_mem_cons.mp hblanks
    exact .blank hc (ih hcs)

theorem Spells.newline (h : Spells p rest v) : Spells p (newline level ++ rest) v :=
  h.blanks (by simp [Json.newline, isBlank])

theorem Spells.quote {s : String} (hstep : p.step (.str s (isEscaped s)) = some q)
    (h : Spells q rest v) : Spells p (quote s ++ rest) v :=
  .token rfl (scanToken_quote s rest) hstep h

theorem Spells.mark {c : Char} {t : Token} (hblank : isBlank c = false)
    (htoken : scanToken (c :: rest) = some (t, rest)) (hstep : p.step t = some q)
    (h : Spells q rest v) : Spells p (c :: rest) v :=
  @Spells.token p q c [] rest t v hblank htoken hstep h

theorem Spells.arrStart {cs : List Char} (h : Spells (.value (.arr [] :: stack)) cs v) :
    Spells (.arrStart stack) cs v := by
  generalize hp : Position.value (.arr [] :: stack) = p at h
  induction h with
  | done => cases hp
  | blank hblank _ ih => exact .blank hblank (ih hp)
  | @token p q c text rest t v hblank htoken hstep hrest =>
    subst hp
    refine .token hblank htoken ?_ hrest
    cases t with
    | arrClose => cases hstep
    | _ => exact hstep

/-- Values whose text tells all of them: numbers are whole, nothing is garbled, and a key is marked
as escaped if it is written so. -/
inductive Exact : Json → Prop where
  | null : Exact .null
  | bool (b : Bool) : Exact (.bool b)
  | int (n : Int) : Exact (.int n)
  | str (s : String) : Exact (.str s)
  | arr {elems : List Json} : (∀ j ∈ elems, Exact j) → Exact (.arr elems)
  | obj {fields : List (Key × Json)} : (∀ f ∈ fields, f.1.escaped = isEscaped f.1.text) →
      (∀ f ∈ fields, Exact f.2) → Exact (.obj fields)

/-- The text of the value is read as the value, before any text that goes on from there. -/
def ReadBack (j : Json) : Prop :=
  ∀ {stack : List Open} {v : Json} {level : Nat} {rest : List Char}, EndsNumber rest →
    Spells (.after j stack) rest v → Spells (.value stack) (prettyChars level j ++ rest) v

theorem endsNumber_comma : EndsNumber (',' :: rest) := by simp [EndsNumber]

theorem endsNumber_newline : EndsNumber (newline level ++ rest) := by
  simp [EndsNumber, Json.newline]

theorem spells_elems {js : List Json} (hjs : ∀ j ∈ js, ReadBack j) {done : List Json} {j : Json}
    (h : Spells (.after (.arr (done.reverse ++ j :: js)) stack) rest v) :
    EndsNumber (prettyElems (level + 1) js ++ (newline level ++ ']' :: rest)) ∧
      Spells (.after j (.arr done :: stack))
        (prettyElems (level + 1) js ++ (newline level ++ ']' :: rest)) v := by
  induction js generalizing done j with
  | nil =>
    rw [← List.reverse_cons] at h
    exact ⟨endsNumber_newline, Spells.newline (.mark rfl rfl rfl h)⟩
  | cons j' js ih =>
    obtain ⟨hj', hjs⟩ := List.forall_mem_cons.mp hjs
    have hnext : Spells (.after (.arr ((j :: done).reverse ++ j' :: js)) stack) rest v := by
      simpa using h
    obtain ⟨hends, hspells⟩ := ih hjs hnext
    simp only [prettyElems, List.cons_append, List.append_assoc]
    exact ⟨endsNumber_comma, .mark rfl rfl rfl (.newline (hj' hends hspells))⟩

def readField (f : Key × Json) : ReadField := (some f.1, f.2)

theorem ofReadFields_map (fields : List (Key × Json)) :
    ofReadFields (fields.map readField) = .obj fields := by
  have hall : (fields.map readField).mapM (fun f => f.1.map fun key => (key, f.2)) =
      some fields := by
    induction fields with
    | nil => rfl
    | cons f fields ih => simp [readField, ih]
  rw [ofReadFields, hall]

theorem Spells.key {key : Key} (hkey : key.escaped = isEscaped key.text) {done : List ReadField}
    (hstep : ∀ s escaped, p.step (.str s escaped) = some (.colon done (some ⟨s, escaped⟩) stack))
    (h : Spells (.value (.obj done (some key) :: stack)) rest v) :
    Spells p (Json.quote key.text ++ ':' :: ' ' :: rest) v := by
  have hcolon : Spells (.colon done (some ⟨key.text, isEscaped key.text⟩) stack)
      (':' :: ' ' :: rest) v := by
    rw [← hkey]
    exact .mark rfl rfl rfl (.blank rfl h)
  exact .quote (hstep _ _) hcolon

theorem spells_fields {fs : List (Key × Json)} (hkeys : ∀ f ∈ fs, f.1.escaped = isEscaped f.1.text)
    (hfs : ∀ f ∈ fs, ReadBack f.2) {done : List (Key × Json)} {key : Key} {j : Json}
    (h : Spells (.after (.obj (done.reverse ++ (key, j) :: fs)) stack) rest v) :
    EndsNumber (prettyFields (level + 1) fs ++ (newline level ++ '\x7d' :: rest)) ∧
      Spells (.after j (.obj (done.map readField) (some key) :: stack))
        (prettyFields (level + 1) fs ++ (newline level ++ '\x7d' :: rest)) v := by
  induction fs generalizing done key j with
  | nil =>
    refine ⟨endsNumber_newline, Spells.newline (.mark rfl rfl rfl ?_)⟩
    have hall : (some key, j) :: done.map readField = ((key, j) :: done).map readField := rfl
    rw [hall, ← List.map_reverse, ofReadFields_map, List.reverse_cons]
    exact h
  | cons f fs ih =>
    obtain ⟨key', j'⟩ := f
    obtain ⟨hkey', hkeys⟩ := List.forall_mem_cons.mp hkeys
    obtain ⟨hj', hfs⟩ := List.forall_mem_cons.mp hfs
    have hnext : Spells (.after (.obj (((key, j) :: done).reverse ++ (key', j') :: fs)) stack)
        rest v := by simpa using h
    obtain ⟨hends, hspells⟩ := ih hkeys hfs hnext
    simp only [prettyFields, List.cons_append, List.append_assoc]
    exact ⟨endsNumber_comma, .mark rfl rfl rfl
      (.newline (.key hkey' (fun _ _ => rfl) (hj' hends hspells)))⟩

theorem Exact.readBack {j : Json} (h : Exact j) : ReadBack j := by
  induction h with
  | null => exact fun _ hv => @Spells.token _ _ 'n' "ull".toList _ _ _ rfl rfl rfl hv
  | bool b =>
    intro stack v level rest _ hv
    cases b with
    | true => exact @Spells.token _ _ 't' "rue".toList _ _ _ rfl rfl rfl hv
    | false => exact @Spells.token _ _ 'f' "alse".toList _ _ _ rfl rfl rfl hv
  | int n =>
    intro stack v level rest hrest hv
    obtain ⟨c, text, htext, hc, hscan⟩ := scanNumber_int n hrest
    rw [prettyChars, htext]
    exact .token (isBlank_of_number hc) ((scanToken_of_number hc).trans hscan) rfl hv
  | str s => exact fun _ hv => .quote rfl hv
  | @arr elems _ ih =>
    intro stack v level rest _ hv
    cases elems with
    | nil => exact .mark rfl rfl rfl (.mark rfl rfl rfl hv)
    | cons j js =>
      obtain ⟨hj, hjs⟩ := List.forall_mem_cons.mp ih
      obtain ⟨hends, hspells⟩ := @spells_elems rest stack v level js hjs [] j hv
      simp only [prettyChars, List.cons_append, List.append_assoc]
      exact .mark rfl rfl rfl (.arrStart (.newline (hj hends hspells)))
  | @obj fields hkeys _ ih =>
    intro stack v level rest _ hv
    cases fields with
    | nil => exact .mark rfl rfl rfl (.mark rfl rfl rfl hv)
    | cons f fs =>
      obtain ⟨key, j⟩ := f
      obtain ⟨hkey, hkeys⟩ := List.forall_mem_cons.mp hkeys
      obtain ⟨hj, hfs⟩ := List.forall_mem_cons.mp ih
      obtain ⟨hends, hspells⟩ := @spells_fields rest stack v level fs hkeys hfs [] key j hv
      simp only [prettyChars, List.cons_append, List.append_assoc]
      exact .mark rfl rfl rfl (.newline (.key hkey (fun _ _ => rfl) (hj hends hspells)))

theorem Exact.parse?_pretty {j : Json} (h : Exact j) : parse? j.pretty = some j := by
  have hend : Spells (.value []) (prettyChars 0 j ++ []) j :=
    h.readBack (by simp [EndsNumber]) .done
  rw [List.append_nil] at hend
  exact Spells.parse? (by rwa [pretty, String.toList_ofList])

example : pretty (.arr [.str "\"é\x01", .int (-3)]) = "[\n  \"\\\"é\\u0001\",\n  -3\n]" := by
  decide +kernel

end

end Midend.Json
