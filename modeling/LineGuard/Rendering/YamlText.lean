/-
# Text in YAML

A text stands in YAML as it is when it can be read back as that text. It is put
in single quotes when it would be read as something else: as a number, a truth
value or null, as the start of a list, a comment or a mapping. It is put in double
quotes, where any character can be escaped, when it holds characters that cannot
stand for themselves.
-/

import LineGuard.Number.Double

namespace LineGuard.Yaml

/-! ## Characters -/

/-- Whether a character ends a line in YAML. -/
def isBreak (c : Char) : Bool := ['\n', '\r', '\x85', '\u2028', '\u2029'].contains c

/-- Whether a character may stand for itself on a line. Tabs may not. -/
def isPrintable (c : Char) : Bool :=
  let n := c.toNat
  (0x20 ≤ n && n ≤ 0x7E) || (0xA0 ≤ n && n != 0xFEFF && n != 0xFFFE && n != 0xFFFF)

/-- Whether a character separates words: a space, a tab, or a line break. -/
def separates (c : Char) : Bool := c == ' ' || c == '\t' || isBreak c

/-! ## What a plain text would be read as -/

/-- Whether a text is one of the spellings of null. -/
def readsAsNull (t : Text) : Bool :=
  ["", "~", "null", "Null", "NULL"].any (·.toList == t)

/-- Whether a text is one of the spellings of a truth value. -/
def readsAsBool (t : Text) : Bool :=
  ["true", "True", "TRUE", "false", "False", "FALSE"].any (·.toList == t)

/-- The number that digits of a base spell; there has to be one. -/
def numberIn? (base : Nat) (digits : Text) : Option Nat :=
  if digits.isEmpty then none
  else
    digits.foldlM
      (fun n c => ((Text.hexValue? c).filter (· < base)).map (base * n + ·)) 0

/-- The number that a text without sign spells by a base mark and digits. -/
def basedNumber? : Text → Option Nat
  | '0' :: 'x' :: digits => numberIn? 16 digits
  | '0' :: 'o' :: digits => numberIn? 8 digits
  | '0' :: 'b' :: digits => numberIn? 2 digits
  | _ => none

/-- Whether a text is a whole number with a base mark, of at most 128 bits. -/
def readsAsBasedNumber : Text → Bool
  | '-' :: t => (basedNumber? t).any (· ≤ Nat.pow 2 127)
  | '+' :: t => (basedNumber? t).any (· < Nat.pow 2 128)
  | t => (basedNumber? t).any (· < Nat.pow 2 128)

/-- Whether a text is a decimal numeral of a size that can be held. -/
def readsAsDecimal (t : Text) : Bool := (Decimal.ofText? t).any fun d => (Double.ofDecimal d).isFinite

/-- Whether a text is a name for an infinity or for no number. -/
def readsAsSpecialNumber (t : Text) : Bool :=
  [".inf", ".Inf", ".INF", "+.inf", "+.Inf", "+.INF", "-.inf", "-.Inf", "-.INF", ".nan", ".NaN",
    ".NAN"].any (·.toList == t)

/-- Whether a text is digits with a needless zero in front. -/
def hasLeadingZero (t : Text) : Bool :=
  match (Decimal.readSign t).2 with
  | '0' :: d :: rest => (d :: rest).all Text.isAsciiDigit
  | _ => false

/-- Whether a text would be read as something other than text. Digits with a
leading zero count, although readers differ on them. -/
def readsAsOther (t : Text) : Bool :=
  readsAsNull t || readsAsBool t || readsAsBasedNumber t || readsAsDecimal t ||
    readsAsSpecialNumber t || hasLeadingZero t

/-! ## What may not stand plain -/

/-- Whether the first character of a text gives it another meaning. -/
def hasLeadingIndicator : Text → Bool
  | [] => false
  | c :: rest =>
    [',', '[', ']', '{', '}', '#', '&', '*', '!', '|', '>', '\'', '"', '%', '@', '\x60'].contains c
      || (['?', ':', '-'].contains c && rest.head?.all separates)

/-- Whether a text holds the mark of a mapping or of a comment behind its first
character. -/
def hasInnerIndicator : Text → Bool
  | [] => false
  | c :: rest =>
    (match rest with
      | ':' :: after => after.head?.all separates
      | '#' :: _ => separates c
      | _ => false) || hasInnerIndicator rest

/-- Whether a text starts like the mark of a document. -/
def hasDocumentMark (t : Text) : Bool :=
  Text.startsWith "---".toList t || Text.startsWith "...".toList t

/-- Whether a space and a line break stand side by side. -/
def mixesSpaceAndBreak : Text → Bool
  | c :: d :: rest =>
    (c == ' ' && isBreak d) || (isBreak c && d == ' ') || mixesSpaceAndBreak (d :: rest)
  | _ => false

/-- Whether a text begins or ends with a space. -/
def hasOuterSpace (t : Text) : Bool := t.head? == some ' ' || t.getLast? == some ' '

/-- How a text is written. -/
inductive Style where
  | plain
  | singleQuoted
  | doubleQuoted
deriving DecidableEq, Repr

/-- The style a text needs. -/
def style (t : Text) : Style :=
  if t.any (!isPrintable ·) || mixesSpaceAndBreak t then .doubleQuoted
  else if readsAsOther t || hasLeadingIndicator t || hasInnerIndicator t || hasDocumentMark t ||
      hasOuterSpace t || t.any isBreak then .singleQuoted
  else .plain

/-! ## Quotes -/

/-- The text between single quotes. A single quote is written twice. What follows
line breaks goes on behind the indentation. -/
def singleQuoted (indent : Nat) : (afterBreak : Bool) → Text → Text
  | afterBreak, [] => if afterBreak then List.replicate indent ' ' else []
  | afterBreak, c :: rest =>
    if isBreak c then c :: singleQuoted indent true rest
    else
      (if afterBreak then List.replicate indent ' ' else []) ++
        (if c = '\'' then ['\'', '\''] else [c]) ++ singleQuoted indent false rest

/-- A number in upper-case hexadecimal digits. -/
def hexadecimal (width n : Nat) : Text := (Text.digitsOfWidth 16 width n).map Char.toUpper

/-- The character behind the backslash for characters that have a short escape. -/
def shortEscape? (c : Char) : Option Char :=
  [('\x00', '0'), ('\x07', 'a'), ('\x08', 'b'), ('\t', 't'), ('\n', 'n'), ('\x0B', 'v'),
    ('\x0C', 'f'), ('\r', 'r'), ('\x1B', 'e'), ('"', '"'), ('\\', '\\'), ('\x85', 'N'),
    ('\u2028', 'L'), ('\u2029', 'P')].lookup c

/-- A character between double quotes. -/
def escape (c : Char) : Text :=
  match shortEscape? c with
  | some letter => ['\\', letter]
  | none =>
    if isPrintable c then [c]
    else if c.toNat ≤ 0xFF then '\\' :: 'x' :: hexadecimal 2 c.toNat
    else '\\' :: 'u' :: hexadecimal 4 c.toNat

/-- A text as it is written at a level of indentation. -/
def scalar (indent : Nat) (t : Text) : Text :=
  match style t with
  | .plain => t
  | .singleQuoted => '\'' :: singleQuoted indent false t ++ ['\'']
  | .doubleQuoted => '"' :: t.flatMap escape ++ ['"']

example : scalar 0 "a b".toList = "a b".toList ∧ scalar 0 "it's: so".toList = "'it''s: so'".toList ∧
    scalar 0 "0x1F".toList = "'0x1F'".toList ∧ scalar 0 "a\tb".toList = "\"a\\tb\"".toList := by
  decide +kernel

end LineGuard.Yaml
