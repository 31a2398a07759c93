/-
# Text

Everything the library reads or writes is a list of characters. A list, rather
than a packed string, because every rule about lines, tags and literals is a
recursion on the characters in order, and a proof about such a rule is the same
recursion.

The functions here are the vocabulary of those rules: cutting white space off
the ends, looking for a fixed piece of text, splitting, and writing numbers.
Names follow `List` where `List` has the notion.
-/

namespace LineGuard

/-- Text is the list of its characters. -/
abbrev Text := List Char

namespace Text

/-! ## Blanks

White space is what Unicode says it is: the 25 characters with the property
`White_Space`, the no-break and ideographic spaces among them. -/

/-- Whether a character is Unicode white space. -/
def isBlank (c : Char) : Bool :=
  let n := c.toNat
  (9 ≤ n && n ≤ 13) || n == 0x20 || n == 0x85 || n == 0xA0 || n == 0x1680 ||
    (0x2000 ≤ n && n ≤ 0x200A) || n == 0x2028 || n == 0x2029 || n == 0x202F ||
    n == 0x205F || n == 0x3000

/-- The text without its leading blanks. -/
def trimStart (t : Text) : Text := t.dropWhile isBlank

/-- The text without its trailing blanks. A blank survives exactly when
something that is not blank follows it. -/
def trimEnd : Text → Text
  | [] => []
  | c :: rest =>
    match trimEnd rest with
    | [] => if isBlank c then [] else [c]
    | kept => c :: kept

/-- The text without blanks at either end. -/
def trim (t : Text) : Text := trimEnd (trimStart t)

@[simp]
theorem trimEnd_nil : trimEnd [] = [] := rfl

/-! ## Fixed pieces of text -/

/-- What follows `lead`, when the text begins with it. -/
def after? (lead t : Text) : Option Text := lead.isPrefixOf? t

/-- Whether the text begins with `lead`. -/
def startsWith (lead t : Text) : Bool := lead.isPrefixOf t

/-- Whether the text ends in `tail`. -/
def endsWith (tail t : Text) : Bool := tail.isSuffixOf t

/-- Whether `piece` occurs anywhere in the text. -/
def includes (piece : Text) : Text → Bool
  | [] => piece.isEmpty
  | c :: rest => startsWith piece (c :: rest) || includes piece rest

/-- What follows the first occurrence of `piece`, if there is one. -/
def afterFirst? (piece : Text) : Text → Option Text
  | [] => after? piece []
  | c :: rest => (after? piece (c :: rest)).or (afterFirst? piece rest)

/-- What follows the last occurrence of `piece`, if there is one. -/
def afterLast? (piece : Text) : Text → Option Text
  | [] => after? piece []
  | c :: rest => (afterLast? piece rest).or (after? piece (c :: rest))

/-- Counts occurrences of `piece` that do not overlap, taken from the left;
`skip` is the number of characters that still belong to the last one. -/
private def occurrencesAfter (piece : Text) : Nat → Text → Nat
  | _, [] => 0
  | skip + 1, _ :: rest => occurrencesAfter piece skip rest
  | 0, c :: rest =>
    if startsWith piece (c :: rest) then
      occurrencesAfter piece (piece.length - 1) rest + 1
    else occurrencesAfter piece 0 rest

/-- The number of occurrences of a non-empty `piece`, taken from the left
without overlap. -/
def occurrences (piece t : Text) : Nat := occurrencesAfter piece 0 t

private theorem occurrencesAfter_eq (piece : Text) (skip : Nat) (t : Text) :
    occurrencesAfter piece skip t = occurrences piece (t.drop skip) := by
  induction skip generalizing t with
  | zero => rfl
  | succ skip ih =>
    cases t with
    | nil => rfl
    | cons c rest => exact ih rest

@[simp]
theorem occurrences_nil (piece : Text) : occurrences piece [] = 0 := rfl

/-- An occurrence at the start is counted, and counting goes on behind it. -/
theorem occurrences_cons (piece : Text) (c : Char) (rest : Text) :
    occurrences piece (c :: rest) =
      if startsWith piece (c :: rest) then occurrences piece (rest.drop (piece.length - 1)) + 1
      else occurrences piece rest := by
  rw [occurrences, occurrencesAfter, occurrencesAfter_eq]
  rfl

/-! ## Splitting and joining -/

/-- Splits at every character that `isSeparator` holds of. There is always one
piece more than there are separators, so pieces may be empty. -/
def splitAt (isSeparator : Char → Bool) : Text → List Text
  | [] => [[]]
  | c :: rest =>
    if isSeparator c then [] :: splitAt isSeparator rest
    else
      match splitAt isSeparator rest with
      | [] => [[c]]
      | piece :: pieces => (c :: piece) :: pieces

/-- The maximal runs of characters that are not blank. -/
def words (t : Text) : List Text := (splitAt isBlank t).filter (!·.isEmpty)

/-- Puts `separator` between the pieces. -/
def join (separator : Text) (pieces : List Text) : Text :=
  (pieces.intersperse separator).flatten

/-- The same pieces on lines of their own, each ended by a line feed. -/
def unlines (lines : List Text) : Text := lines.flatMap (· ++ ['\n'])

/-! ## Letter case and order -/

/-- Folds the ASCII letters to lower case and leaves everything else alone. -/
def lower (t : Text) : Text := t.map Char.toLower

/-- Lexicographic order by code point, which is also the order of the encoded
bytes. -/
def precedes : Text → Text → Bool
  | [], other => !other.isEmpty
  | _ :: _, [] => false
  | c :: rest, d :: other => c.toNat < d.toNat || (c == d && precedes rest other)

/-! ## Numbers -/

/-- A number in decimal digits, without sign or leading zeros. -/
def numeral (n : Nat) : Text := Nat.toDigits 10 n

/-- Whether a character is one of the ten ASCII digits. -/
def isAsciiDigit (c : Char) : Bool := '0' ≤ c && c ≤ '9'

/-- The value of an ASCII digit. -/
def digitValue (c : Char) : Nat := c.toNat - '0'.toNat

/-- The number a run of ASCII digits spells; leading zeros count for nothing. -/
def numberOf (digits : Text) : Nat :=
  digits.foldl (fun n c => 10 * n + digitValue c) 0

/-- The value of a hexadecimal digit of either case. -/
def hexValue? (c : Char) : Option Nat :=
  if isAsciiDigit c then some (digitValue c)
  else if 'a' ≤ c && c ≤ 'f' then some (c.toNat - 'a'.toNat + 10)
  else if 'A' ≤ c && c ≤ 'F' then some (c.toNat - 'A'.toNat + 10)
  else none

/-- A number in exactly `width` digits of the given base, high digits lost. -/
def digitsOfWidth (base : Nat) : Nat → Nat → Text
  | 0, _ => []
  | width + 1, n => digitsOfWidth base width (n / base) ++ [Nat.digitChar (n % base)]

/-- Pads with spaces on the right up to `width` characters. -/
def padRight (width : Nat) (t : Text) : Text :=
  t ++ List.replicate (width - t.length) ' '

/-- Pads with spaces on the left up to `width` characters. -/
def padLeft (width : Nat) (t : Text) : Text :=
  List.replicate (width - t.length) ' ' ++ t

end Text

end LineGuard
