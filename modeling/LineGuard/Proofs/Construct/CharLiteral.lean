/-
# Character literals

Where a single quote may also start a lifetime, it opens a literal only if the literal is closed
soon: behind one character, or else behind a backslash and at most eight bytes. A literal that is
seen to be one is passed over whole, whatever stands behind it.

Two literals are not seen. An escaped quote is taken for the one that closes the literal, and
the escape of a code point with six digits is one byte too long. Of either the closing quote is
left over, and it is read together with what follows, where it may open another literal.
-/

import LineGuard.Proofs.Construct.LeftOut
import LineGuard.Language.Builtin
import LineGuard.Scope.Resolver
import LineGuard.Tag.Grammar

namespace LineGuard

namespace Construct

variable {lexis : Lexis} {c : Char} {inner rest tail : Text}

/-! ## Finding the closing quote -/

theorem closeWithin?_append (hinner : '\'' ∉ inner) (bytes : Nat) (rest : Text) :
    closeWithin? bytes (inner ++ '\'' :: rest) =
      if Text.byteLength inner ≤ bytes then some rest else none := by
  induction inner generalizing bytes with
  | nil => rw [List.nil_append, closeWithin?, if_pos rfl, Text.byteLength_nil,
      if_pos (Nat.zero_le bytes)]
  | cons c inner ih =>
    rw [List.mem_cons, not_or] at hinner
    rw [List.cons_append, closeWithin?, if_neg (Ne.symm hinner.1), ih hinner.2,
      Text.byteLength_cons]
    split_ifs <;> first | rfl | omega

/-- A literal that is seen to be one leaves its quotes. -/
theorem bare_of_afterCharLiteral? (hlexis : lexis.hasLifetimes = true)
    (h : afterCharLiteral? ('\'' :: (inner ++ rest)) = some rest) :
    bare lexis ('\'' :: (inner ++ rest)) = '\'' :: '\'' :: bare lexis rest := by
  have hstep : step lexis (.code 0) '\'' (inner ++ rest) =
      some (['\'', '\''], .code ((inner ++ rest).length - rest.length)) := by
    rw [step, hlexis, h]
    rfl
  rw [bare, bareFrom_of_step hstep, bareFrom_code, List.length_append, Nat.add_sub_cancel_right,
    List.drop_left]
  rfl

/-- Any other single quote is a character like others. -/
theorem bare_of_afterCharLiteral?_eq_none (hlexis : lexis.hasLifetimes = true)
    (h : afterCharLiteral? ('\'' :: rest) = none) :
    bare lexis ('\'' :: rest) = '\'' :: bare lexis rest := by
  have hstep : step lexis (.code 0) '\'' rest = some (['\''], .code 0) := by
    rw [step, hlexis, h]
    rfl
  exact bareFrom_of_step hstep

/-- Behind a backslash the first quote closes the literal, if it comes within eight bytes. -/
theorem bare_escape_append (hlexis : lexis.hasLifetimes = true) (hinner : '\'' ∉ inner)
    (hsoon : Text.byteLength inner ≤ 8) (rest : Text) :
    bare lexis ('\'' :: '\\' :: (inner ++ '\'' :: rest)) = '\'' :: '\'' :: bare lexis rest := by
  have hclose : afterCharLiteral? ('\'' :: '\\' :: (inner ++ '\'' :: rest)) = some rest := by
    rw [afterCharLiteral?, closeWithin?_append hinner, if_pos hsoon]
  have happend : '\\' :: (inner ++ '\'' :: rest) = '\\' :: (inner ++ ['\'']) ++ rest := by simp
  rw [happend] at hclose ⊢
  exact bare_of_afterCharLiteral? hlexis hclose

/-- If the quote comes later, all of the literal in front of it is code. -/
theorem bare_longEscape_append (hlexis : lexis.hasLifetimes = true)
    (hinner : ∀ c ∈ inner, c ∉ lexicalMarks) (hlate : 8 < Text.byteLength inner) (rest : Text) :
    bare lexis ('\'' :: '\\' :: (inner ++ '\'' :: rest)) =
      '\'' :: '\\' :: (inner ++ bare lexis ('\'' :: rest)) := by
  have hquote : '\'' ∉ inner := fun hmem => hinner _ hmem (by decide)
  have hclose : afterCharLiteral? ('\'' :: '\\' :: (inner ++ '\'' :: rest)) = none := by
    rw [afterCharLiteral?, closeWithin?_append hquote, if_neg (Nat.not_le_of_lt hlate)]
  rw [bare_of_afterCharLiteral?_eq_none hlexis hclose, bare_cons lexis (by decide),
    bare_append lexis hinner]

/-! ## Character literals -/

/-- Hexadecimal digits of either case. -/
def hexDigits : List Char := "0123456789abcdefABCDEF".toList

/-- A character literal: one character between single quotes, or the escape of one, by its
letter, by two hexadecimal digits, or by up to six of them in braces. -/
inductive IsCharLiteral : Text → Prop where
  | plain {c : Char} (hc : c ∉ ['\'', '\\', '\n']) : IsCharLiteral ['\'', c, '\'']
  | letter {c : Char} (hc : c ∈ ['n', 'r', 't', '0', '\\', '\'', '"']) :
      IsCharLiteral ['\'', '\\', c, '\'']
  | byte {d e : Char} (hd : d ∈ hexDigits) (he : e ∈ hexDigits) :
      IsCharLiteral ['\'', '\\', 'x', d, e, '\'']
  | codePoint {digits : Text} (hdigits : ∀ d ∈ digits, d ∈ hexDigits)
      (hlength : 1 ≤ digits.length ∧ digits.length ≤ 6) :
      IsCharLiteral ("'\\u\x7b".toList ++ (digits ++ "\x7d'".toList))

/-- The literal of the single quote. -/
def quoteLiteral : Text := ['\'', '\\', '\'', '\'']

theorem hexDigits_spec (hc : c ∈ hexDigits) : c.utf8Size = 1 ∧ c ∉ lexicalMarks := by
  revert c
  rw [← List.all_iff_forall_prop]
  decide

theorem byteLength_of_hexDigits (h : ∀ c ∈ inner, c ∈ hexDigits) :
    Text.byteLength inner = inner.length := by
  induction inner with
  | nil => rfl
  | cons c inner ih =>
    obtain ⟨hc, hmore⟩ := List.forall_mem_cons.mp h
    rw [Text.byteLength_cons, (hexDigits_spec hc).1, ih hmore, List.length_cons, Nat.add_comm]

/-- What stands between the backslash and the closing quote in the escape of a code point. -/
def codePointEscape (digits : Text) : Text := 'u' :: '\x7b' :: (digits ++ ['\x7d'])

theorem byteLength_codePointEscape (h : ∀ c ∈ inner, c ∈ hexDigits) :
    Text.byteLength (codePointEscape inner) = inner.length + 3 := by
  rw [codePointEscape, Text.byteLength_cons, Text.byteLength_cons, Text.byteLength_append,
    byteLength_of_hexDigits h]
  change 1 + (1 + (inner.length + 1)) = _
  omega

theorem notMem_lexicalMarks_codePointEscape (h : ∀ c ∈ inner, c ∈ hexDigits) :
    ∀ c ∈ codePointEscape inner, c ∉ lexicalMarks := by
  simp only [codePointEscape, List.forall_mem_cons, List.forall_mem_append]
  exact ⟨by decide, by decide, fun c hc => (hexDigits_spec (h c hc)).2,
    by decide, List.forall_mem_nil _⟩

theorem length_codePoint (digits : Text) :
    ("'\\u\x7b".toList ++ (digits ++ "\x7d'".toList)).length = digits.length + 6 := by
  rw [List.length_append, List.length_append]
  change 4 + (digits.length + 2) = _
  omega

theorem codePoint_append (digits tail : Text) :
    "'\\u\x7b".toList ++ (digits ++ "\x7d'".toList) ++ tail =
      '\'' :: '\\' :: (codePointEscape digits ++ '\'' :: tail) := by
  simp [codePointEscape]

namespace IsCharLiteral

variable {literal : Text} (hlexis : lexis.hasLifetimes = true)
include hlexis

/-- A literal other than that of the quote, and not of six digits, leaves its quotes. -/
theorem bare_append (h : IsCharLiteral literal) (hquote : literal ≠ quoteLiteral)
    (hshort : literal.length < 12) (tail : Text) :
    bare lexis (literal ++ tail) = '\'' :: '\'' :: bare lexis tail := by
  cases h with
  | @plain c hc =>
    have hclose : afterCharLiteral? ('\'' :: ([c, '\''] ++ tail)) = some tail := by
      simp only [List.mem_cons, not_or] at hc
      simp [afterCharLiteral?, hc.2.1]
    exact bare_of_afterCharLiteral? hlexis hclose
  | @letter c hc =>
    have hinner : '\'' ∉ [c] := by
      rw [List.mem_singleton]
      rintro rfl
      exact hquote rfl
    have hsoon : Text.byteLength [c] ≤ 8 := by
      rw [Text.byteLength_cons, Text.byteLength_nil]
      exact Nat.le_trans c.utf8Size_le_four (by decide)
    exact bare_escape_append hlexis hinner hsoon tail
  | @byte d e hd he =>
    have hdigits : ∀ c ∈ [d, e], c ∈ hexDigits :=
      List.forall_mem_cons.mpr ⟨hd, List.forall_mem_singleton.mpr he⟩
    have hmarks : ∀ c ∈ ['x', d, e], c ∉ lexicalMarks :=
      List.forall_mem_cons.mpr ⟨by decide, fun c hc => (hexDigits_spec (hdigits c hc)).2⟩
    have hinner : '\'' ∉ ['x', d, e] := fun hmem => hmarks _ hmem (by decide)
    have hsoon : Text.byteLength ['x', d, e] ≤ 8 := by
      rw [Text.byteLength_cons, byteLength_of_hexDigits hdigits]
      change 1 + 2 ≤ 8
      decide
    exact bare_escape_append hlexis hinner hsoon tail
  | @codePoint digits hdigits hlength =>
    have hquote : '\'' ∉ codePointEscape digits := fun hmem =>
      notMem_lexicalMarks_codePointEscape hdigits _ hmem (by decide)
    have hsoon : Text.byteLength (codePointEscape digits) ≤ 8 := by
      rw [byteLength_codePointEscape hdigits]
      rw [length_codePoint] at hshort
      omega
    rw [codePoint_append]
    exact bare_escape_append hlexis hquote hsoon tail

/-- Of a code point in six digits the closing quote is read with what follows. -/
theorem bare_append_of_long (h : IsCharLiteral literal) (hlong : 12 ≤ literal.length)
    (tail : Text) :
    bare lexis (literal ++ tail) = literal.dropLast ++ bare lexis ('\'' :: tail) := by
  cases h with
  | plain | letter | byte => simp at hlong
  | @codePoint digits hdigits hlength =>
    have hmarks := notMem_lexicalMarks_codePointEscape hdigits
    have hlate : 8 < Text.byteLength (codePointEscape digits) := by
      rw [length_codePoint] at hlong
      rw [byteLength_codePointEscape hdigits]
      omega
    have hfront : ("'\\u\x7b".toList ++ (digits ++ "\x7d'".toList)).dropLast =
        '\'' :: '\\' :: codePointEscape digits := by
      have hlast := codePoint_append digits []
      rw [List.append_nil] at hlast
      rw [hlast, ← List.cons_append, ← List.cons_append, List.dropLast_concat]
    rw [codePoint_append, bare_longEscape_append hlexis hmarks hlate, hfront]
    rfl

end IsCharLiteral

/-- Of the literal of a quote the closing quote is read with what follows. -/
theorem bare_quoteLiteral_append (hlexis : lexis.hasLifetimes = true) (tail : Text) :
    bare lexis (quoteLiteral ++ tail) = '\'' :: '\'' :: bare lexis ('\'' :: tail) :=
  bare_escape_append hlexis List.not_mem_nil (Nat.zero_le 8) ('\'' :: tail)

namespace Listing

variable {s : Listing} {line : Nat} {literal : Text}

/-- In a language with lifetimes, a line that begins with a character literal leaves the two
quotes of it and the bare code of the rest, if the literal is not one of two kinds. Of the literal
of a quote and of a code point in six digits, the closing quote is read together with the rest,
and of the code point what is in front of that quote is left as well. -/
theorem bare_of_charLiteral (hlanguage : s.document.language = some "rust".toList)
    (hcut : ∀ column, s.cut ≠ some (line, column)) (hliteral : IsCharLiteral literal)
    (hline : s.document.line line = literal ++ tail) :
    let code := Construct.bare s.lexis
    (literal ≠ quoteLiteral → literal.length < 12 →
      code (s.text line) = '\'' :: '\'' :: code tail) ∧
    (literal = quoteLiteral → code (s.text line) = '\'' :: '\'' :: code ('\'' :: tail)) ∧
    (12 ≤ literal.length → code (s.text line) = literal.dropLast ++ code ('\'' :: tail)) := by
  have hlexis : s.lexis.hasLifetimes = true := by
    rw [hasLifetimes_lexis]
    exact beq_iff_eq.mpr hlanguage
  rw [text_of_cut_ne hcut, hline]
  refine ⟨fun hquote hshort => hliteral.bare_append hlexis hquote hshort tail, ?_,
    fun hlong => hliteral.bare_append_of_long hlexis hlong tail⟩
  rintro rfl
  exact bare_quoteLiteral_append hlexis tail

/-- A line that begins with a code point in five digits and goes on with a brace in quotes. -/
def codePointListing : Listing where
  document := .ofText "'\\u\x7b1F600\x7d' => '\x7b',\n".toList (some "rust".toList)
  cut := none

theorem bare_of_charLiteral_codePoint :
    let s := codePointListing
    let literal := "'\\u\x7b1F600\x7d'".toList
    let tail := " => '\x7b',".toList
    (s.document.language = some "rust".toList ∧ (∀ column, s.cut ≠ some (0, column)) ∧
      IsCharLiteral literal ∧ s.document.line 0 = literal ++ tail) ∧
    literal ≠ quoteLiteral ∧ literal.length < 12 ∧
    Construct.bare s.lexis (s.text 0) = "'' => '',".toList := by
  intro s literal tail
  have hdigits : ∀ d ∈ "1F600".toList, d ∈ hexDigits := by
    rw [← List.all_iff_forall_prop]
    decide
  have hliteral : IsCharLiteral literal := .codePoint hdigits (by decide)
  have hline : s.document.line 0 = literal ++ tail := by decide +kernel
  have hquote : literal ≠ quoteLiteral := by decide
  have hshort : literal.length < 12 := by decide
  have hcut : ∀ column, s.cut ≠ some (0, column) := fun _ => nofun
  have hbare := (bare_of_charLiteral rfl hcut hliteral hline).1 hquote hshort
  exact ⟨⟨rfl, hcut, hliteral, hline⟩, hquote, hshort, hbare.trans (by decide +kernel)⟩

/-- A call with a quote and a brace for arguments, on a line that begins with the quote, and
a statement with a code point in six digits. -/
def leftoverQuoteListing : Listing where
  document := .ofText ("// @guard:ai:n.stmt\nlet x = f(\n'\\'','\x7b');\nlet c =\n" ++
    "'\\u\x7b10FFFF\x7d';\n").toList (some "rust".toList)
  cut := none

def callTag : Tag := ⟨0, 0, .ai, none, .deny, .construct .statement [] []⟩

/-- Both literals leave more than their quotes. Behind the first, the closing quote makes a literal
of the comma and its neighbour, so that the brace counts, and the scope of the tag does not end
with the call on line 2. -/
theorem bare_leftoverQuoteListing :
    let s := leftoverQuoteListing
    let code := Construct.bare s.lexis
    let codePoint := "'\\u\x7b10FFFF\x7d'".toList
    let resolver : Resolver Nat := ⟨.builtin, none, true, Resolver.standardWindow⟩
    (s.document.language = some "rust".toList ∧ s.cut = none) ∧
    (IsCharLiteral quoteLiteral ∧ s.document.line 2 = quoteLiteral ++ ",'\x7b');".toList ∧
      code (s.text 2) ≠ '\'' :: '\'' :: code ",'\x7b');".toList) ∧
    (IsCharLiteral codePoint ∧ s.document.line 4 = codePoint ++ [';'] ∧
      code (s.text 4) ≠ '\'' :: '\'' :: code [';']) ∧
    callTag ∈ s.document.tags ∧ resolver.resolve s.document callTag = ⟨0, 0, some 4, .heuristic⟩ := by
  have hdigits : ∀ d ∈ "10FFFF".toList, d ∈ hexDigits := by
    rw [← List.all_iff_forall_prop]
    decide
  have hcodePoint : IsCharLiteral "'\\u\x7b10FFFF\x7d'".toList := .codePoint hdigits (by decide)
  exact ⟨⟨rfl, rfl⟩, ⟨.letter (by decide), by decide +kernel, by decide +kernel⟩,
    ⟨hcodePoint, by decide +kernel, by decide +kernel⟩, by decide +kernel, by decide +kernel⟩

end Listing

end Construct

end LineGuard
