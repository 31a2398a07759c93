/-
# Reading back the tokens that were written

Whoever reads a document sees one token at a time, and what follows a token decides
where it ends: a number or a word goes on as long as it can. So each kind of token has
a lemma that reads it in front of any text it cannot run into, and the scan of a whole
document is put together from these.

Brackets, commas, colons and strings end by themselves. Numbers and words need a text
behind them that `Ends` them, and the writer never puts anything else there.
-/

import LineGuard.Json.Token
import LineGuard.Proofs.Text.Run

namespace LineGuard.Json

open Token (Piece escaped? hexUnit? isBlank isFraction isExponent isInteger isNumeric numberOf?
  ofWord? read? readString? scan scanFrom textOf?)

variable {c : Char} {t rest piece : Text} {token : Token}

/-! ## From one token to the next -/

theorem scanFrom_append (piece rest : Text) :
    scanFrom piece.length (piece ++ rest) = scanFrom 0 rest := by
  induction piece with
  | nil => rfl
  | cons c piece ih => exact ih

/-- Blanks in front of a document do not matter. -/
theorem scan_append_of_isBlank {lead : Text} (hlead : ∀ c ∈ lead, isBlank c = true) (t : Text) :
    scan (lead ++ t) = scan t := by
  induction lead with
  | nil => rfl
  | cons c lead ih =>
    have hrest := ih fun d hd => hlead d (List.mem_cons_of_mem _ hd)
    rw [List.cons_append, scan, scanFrom, if_pos (hlead c List.mem_cons_self)]
    exact hrest

theorem scan_newline_append (depth : Nat) (t : Text) : scan (newline depth ++ t) = scan t := by
  refine scan_append_of_isBlank (fun c hc => ?_) t
  rcases List.mem_cons.mp hc with rfl | hc
  · rfl
  · rw [List.eq_of_mem_replicate hc]
    rfl

/-- The scan goes on behind the piece of text that makes a token. -/
theorem scan_cons_append (hblank : isBlank c = false)
    (hread : read? (c :: piece ++ rest) = some (token, rest)) :
    scan (c :: piece ++ rest) = (scan rest).map (token :: ·) := by
  rw [List.cons_append] at hread
  have hskip : (piece ++ rest).length - rest.length = piece.length := by
    rw [List.length_append, Nat.add_sub_cancel]
  rw [List.cons_append, scan, scanFrom, if_neg (by simp [hblank]), hread]
  simp only [hskip, scanFrom_append, Option.bind_eq_bind, Option.bind_some, scan]
  cases scanFrom 0 rest <;> rfl

/-- Tokens of a single character are read whatever follows. -/
theorem scan_cons (hblank : isBlank c = false) (hread : read? (c :: rest) = some (token, rest)) :
    scan (c :: rest) = (scan rest).map (token :: ·) := by
  have hread : read? (c :: [] ++ rest) = some (token, rest) := hread
  exact scan_cons_append hblank hread

/-! ## Strings -/

/-- What stands behind a character of a string is read behind it. -/
def addChar (c : Char) (read : List Piece × Text) : List Piece × Text := (.char c :: read.1, read.2)

/-- A character behind a backslash. -/
theorem readString?_escaped {e : Char} (h : escaped? e = some c) (he : e ≠ 'u') :
    readString? ('\\' :: e :: t) = (readString? t).map (addChar c) := by
  rw [Token.readString?.eq_def]
  split
  · next heq => cases heq
  · next heq => cases heq
  · next heq => exact absurd (List.cons.inj (List.cons.inj heq).2).1 he
  · next heq =>
    obtain ⟨rfl, rfl⟩ := List.cons.inj (List.cons.inj heq).2
    rw [h]
    cases readString? t <;> rfl
  · next hbackslash heq =>
    obtain ⟨rfl, rfl⟩ := List.cons.inj heq
    exact absurd rfl (hbackslash e t rfl)

/-- A character that is not a quote, a backslash or a control character stands for
itself. -/
theorem readString?_cons (hquote : c ≠ '"') (hbackslash : c ≠ '\\') (hcontrol : ¬ c.toNat < 0x20) :
    readString? (c :: t) = (readString? t).map (addChar c) := by
  rw [Token.readString?.eq_def]
  split
  · next heq => cases heq
  · next heq => exact absurd (List.cons.inj heq).1 hquote
  · next heq => exact absurd (List.cons.inj heq).1 hbackslash
  · next heq => exact absurd (List.cons.inj heq).1 hbackslash
  · next heq =>
    obtain ⟨rfl, rfl⟩ := List.cons.inj heq
    rw [if_neg hcontrol]
    cases readString? t <;> rfl

theorem hexValue?_digitChar : ∀ n < 16, Text.hexValue? (Nat.digitChar n) = some n := by
  decide

/-- Four hexadecimal digits are read as the number they were written for. -/
theorem exists_digitsOfWidth_eq {n : Nat} (h : n < 65536) : ∃ a b c d,
    Text.digitsOfWidth 16 4 n = [a, b, c, d] ∧ hexUnit? a b c d = some n := by
  refine ⟨_, _, _, _, rfl, ?_⟩
  have hdigit (m : Nat) : Text.hexValue? (Nat.digitChar (m % 16)) = some (m % 16) :=
    hexValue?_digitChar _ (Nat.mod_lt m (by decide))
  simp only [hexUnit?, hdigit, Option.bind_eq_bind, Option.bind_some, Option.pure_def,
    Option.some.injEq]
  omega

/-- A control character is written as its number. -/
theorem readString?_control (hcontrol : c.toNat < 0x20) :
    readString? ('\\' :: 'u' :: Text.digitsOfWidth 16 4 c.toNat ++ t) =
      (readString? t).map (addChar c) := by
  obtain ⟨w, x, y, z, hdigits, hunit⟩ := exists_digitsOfWidth_eq (n := c.toNat) (by omega)
  have hchar : Piece.ofUnit c.toNat = .char c := by
    rw [Piece.ofUnit, if_neg (by omega), Char.ofNat_toNat]
  rw [hdigits]
  simp only [List.cons_append, List.nil_append, readString?, hunit, Option.bind_eq_bind,
    Option.bind_some, hchar]
  cases readString? t <;> rfl

/-- What a character is written as is read as the character. -/
theorem readString?_escape_append (c : Char) (t : Text) :
    readString? (escape c ++ t) = (readString? t).map (addChar c) := by
  rw [escape]
  split_ifs with hquote hbackslash hb hf hn hr ht hcontrol
  · subst hquote
    exact readString?_escaped rfl (by decide)
  · subst hbackslash
    exact readString?_escaped rfl (by decide)
  · subst hb
    exact readString?_escaped rfl (by decide)
  · subst hf
    exact readString?_escaped rfl (by decide)
  · subst hn
    exact readString?_escaped rfl (by decide)
  · subst hr
    exact readString?_escaped rfl (by decide)
  · subst ht
    exact readString?_escaped rfl (by decide)
  · exact readString?_control hcontrol
  · exact readString?_cons hquote hbackslash hcontrol

theorem readString?_flatMap_escape (t rest : Text) :
    readString? (t.flatMap escape ++ '"' :: rest) = some (t.map .char, rest) := by
  induction t with
  | nil => simp [readString?]
  | cons c t ih =>
    rw [List.flatMap_cons, List.append_assoc, readString?_escape_append, ih]
    rfl

theorem textOf?_map_char (t : Text) : textOf? (t.map .char) = some t := by
  induction t with
  | nil => rfl
  | cons c t ih =>
    rw [List.map_cons, textOf?, ih]
    rfl

/-- A string is read as what it was written for, also when it has no text. -/
theorem scan_quote_append (s : Option Text) (rest : Text) :
    scan (quote s ++ rest) = (scan rest).map (.string s :: ·) := by
  cases s with
  | none =>
    have hquote : quote none = ['"', '\\', 'u', 'd', '8', '0', '0', '"'] := rfl
    rw [hquote]
    refine scan_cons_append rfl ?_
    have hunit : hexUnit? 'd' '8' '0' '0' = some 0xD800 := by decide
    simp [read?, readString?, hunit, Piece.ofUnit, textOf?]
  | some t =>
    have hquote : quote (some t) ++ rest = '"' :: (t.flatMap escape ++ ['"']) ++ rest := rfl
    rw [hquote]
    refine scan_cons_append rfl ?_
    rw [List.cons_append, List.append_assoc, List.singleton_append, read?,
      readString?_flatMap_escape, Option.map_some]
    simp only [textOf?_map_char]

/-! ## Numbers and words -/

/-- A text with which no number and no word goes on. -/
def Ends (t : Text) : Prop := Text.Stops isNumeric t ∧ Text.Stops Char.isAlpha t

theorem ends_nil : Ends [] :=
  ⟨Text.stops_nil, Text.stops_nil⟩

theorem ends_cons (hnumeric : isNumeric c = false) (halpha : c.isAlpha = false) : Ends (c :: t) :=
  ⟨Text.stops_cons.mpr hnumeric, Text.stops_cons.mpr halpha⟩

/-- What can stand right behind a number or a word: blanks, brackets, commas, colons and
quotes. -/
def boundaries : List Char := ['{', '}', '[', ']', ',', ':', '"', ' ', '\n', '\t', '\r']

theorem notMem_boundaries {p : Char → Bool} (hp : boundaries.all (!p ·) = true)
    (hc : p c = true) : c ∉ boundaries := by
  intro hmem
  have hnot := List.all_eq_true.mp hp c hmem
  rw [hc] at hnot
  cases hnot

theorem isBlank_of_notMem_boundaries (h : c ∉ boundaries) : isBlank c = false := by
  simp only [boundaries, List.mem_cons, not_or] at h
  simp [isBlank, h]

/-- Any other character begins a number or a word. -/
theorem read?_cons (h : c ∉ boundaries) (t : Text) :
    read? (c :: t) =
      if isNumeric c && c != 'e' && c != 'E' then
        (numberOf? ((c :: t).takeWhile isNumeric)).map fun n =>
          (.number n, (c :: t).dropWhile isNumeric)
      else if c.isAlpha then
        (ofWord? ((c :: t).takeWhile Char.isAlpha)).map (·, t.dropWhile Char.isAlpha)
      else none := by
  simp only [boundaries, List.mem_cons, not_or] at h
  rw [Token.read?.eq_def]
  split <;> simp_all

theorem head?_numeral_ne {n : Nat} (h : 0 < n) : (Text.numeral n).head? ≠ some '0' := by
  induction n using Nat.strongRecOn with
  | _ n ih =>
    rw [Text.numeral]
    by_cases hsmall : n < 10
    · have hdigit : ∀ n < 10, 0 < n → [Nat.digitChar n].head? ≠ some '0' := by decide
      rw [Nat.toDigits_of_lt_base hsmall]
      exact hdigit n hsmall h
    · rw [Nat.toDigits_of_base_le (by decide) (by omega), List.head?_append]
      have hfront := ih (n / 10) (by omega) (by omega)
      rw [Text.numeral] at hfront
      cases hdigits : (Nat.toDigits 10 (n / 10)).head? with
      | none => exact absurd (List.head?_eq_none_iff.mp hdigits) Nat.toDigits_ne_nil
      | some d => rwa [hdigits] at hfront

/-- A numeral has no leading zeros. -/
theorem isInteger_numeral (n : Nat) : isInteger (Text.numeral n) = true := by
  rcases Nat.eq_zero_or_pos n with rfl | hpos
  · rfl
  · have hhead := head?_numeral_ne hpos
    cases hdigits : Text.numeral n with
    | nil => exact absurd hdigits Nat.toDigits_ne_nil
    | cons d digits =>
      rw [hdigits] at hhead
      rw [Token.isInteger.eq_def]
      split
      · next heq => cases heq
      · next heq => exact absurd (congrArg some (List.cons.inj heq).1) hhead
      · rfl

theorem numberOf?_numeral (n : Nat) : numberOf? (Text.numeral n) = some (.natural n) := by
  have hdigits : ∀ d ∈ Text.numeral n, Text.isAsciiDigit d = true :=
    fun d => Text.isAsciiDigit_of_mem_numeral
  have hwhole := Text.takeWhile_append_of_stops hdigits Text.stops_nil
  have hnothing := Text.dropWhile_append_of_stops hdigits Text.stops_nil
  rw [List.append_nil] at hwhole hnothing
  rw [numberOf?]
  · simp [hwhole, hnothing, isInteger_numeral, Text.numberOf_numeral, isFraction, isExponent]
  · intro rest heq
    exact absurd (hdigits '-' (heq ▸ List.mem_cons_self)) (by decide)

theorem scan_numeral_append (n : Nat) (h : Ends rest) :
    scan (Text.numeral n ++ rest) = (scan rest).map (.number (.natural n) :: ·) := by
  have hnumeric : ∀ d ∈ Text.numeral n, isNumeric d = true := by
    intro d hd
    simp [isNumeric, Text.isAsciiDigit_of_mem_numeral hd]
  have hwhole := Text.takeWhile_append_of_stops hnumeric h.1
  have hleft := Text.dropWhile_append_of_stops hnumeric h.1
  cases hnumeral : Text.numeral n with
  | nil => exact absurd hnumeral Nat.toDigits_ne_nil
  | cons d digits =>
    have hd : Text.isAsciiDigit d = true :=
      Text.isAsciiDigit_of_mem_numeral (hnumeral ▸ List.mem_cons_self)
    have hbegins := notMem_boundaries (by decide) hd
    have hletter : ∀ e, Text.isAsciiDigit e = false → d ≠ e := by
      rintro e he rfl
      rw [hd] at he
      cases he
    refine scan_cons_append (isBlank_of_notMem_boundaries hbegins) ?_
    rw [hnumeral] at hwhole hleft hnumeric
    rw [List.cons_append, read?_cons hbegins, ← List.cons_append, if_pos, hwhole, hleft,
      ← hnumeral, numberOf?_numeral]
    · rfl
    · simp [hnumeric d List.mem_cons_self, hletter 'e' rfl, hletter 'E' rfl]

/-- The words are read as long as nothing runs on from them. -/
theorem scan_word_append {word : Text} (hletters : (c :: word).all (·.isAlpha) = true)
    (hnumeric : isNumeric c = false) (htoken : ofWord? (c :: word) = some token) (h : Ends rest) :
    scan (c :: word ++ rest) = (scan rest).map (token :: ·) := by
  have hword : ∀ d ∈ c :: word, d.isAlpha = true := List.all_eq_true.mp hletters
  have hc := hword c List.mem_cons_self
  have hbegins := notMem_boundaries (by decide) hc
  refine scan_cons_append (isBlank_of_notMem_boundaries hbegins) ?_
  have hwhole := Text.takeWhile_append_of_stops hword h.2
  have hleft := Text.dropWhile_append_of_stops
    (fun d hd => hword d (List.mem_cons_of_mem _ hd)) h.2
  rw [List.cons_append, read?_cons hbegins, if_neg (by simp [hnumeric]), if_pos hc,
    ← List.cons_append, hwhole, htoken, hleft]
  rfl

end LineGuard.Json
