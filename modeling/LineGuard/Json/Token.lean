/-
# JSON tokens

The first half of reading JSON: a text is cut into brackets, commas, colons,
strings, numbers and the three words, and the blanks between them are dropped.
The grammar of strings and numbers is decided here, so that what is left of a
document is only how its tokens nest.
-/

import LineGuard.Json.Basic

namespace LineGuard.Json

/-- A token of a JSON document. -/
inductive Token where
  | openBrace
  | closeBrace
  | openBracket
  | closeBracket
  | comma
  | colon
  /-- A string, absent when it spells half of a surrogate pair. -/
  | string (text : Option Text)
  | number (value : Number)
  | true
  | false
  | null
deriving DecidableEq, Repr

namespace Token

/-- The four blanks of JSON. -/
def isBlank (c : Char) : Bool := c == ' ' || c == '\n' || c == '\t' || c == '\r'

/-! ## Strings -/

/-- What a piece of a string stands for: a character, or one of the halves that
make up a surrogate pair. -/
inductive Piece where
  | char (c : Char)
  | half (unit : Nat)
deriving DecidableEq, Repr

/-- The number four hexadecimal digits spell. -/
def hexUnit? (a b c d : Char) : Option Nat := do
  return 4096 * (← Text.hexValue? a) + 256 * (← Text.hexValue? b) +
    16 * (← Text.hexValue? c) + (← Text.hexValue? d)

/-- A unit by itself, or the half it is. -/
def Piece.ofUnit (unit : Nat) : Piece :=
  if 0xD800 ≤ unit ∧ unit ≤ 0xDFFF then .half unit else .char (Char.ofNat unit)

/-- What the character behind a backslash stands for. -/
def escaped? (c : Char) : Option Char :=
  match c with
  | '"' => some '"'
  | '\\' => some '\\'
  | '/' => some '/'
  | 'b' => some '\x08'
  | 'f' => some '\x0C'
  | 'n' => some '\n'
  | 'r' => some '\r'
  | 't' => some '\t'
  | _ => none

/-- Reads the pieces of a string up to its closing quote, and what follows it.
Control characters have to be escaped. -/
def readString? : Text → Option (List Piece × Text)
  | [] => none
  | '"' :: rest => some ([], rest)
  | '\\' :: 'u' :: a :: b :: c :: d :: rest => do
    let unit ← hexUnit? a b c d
    let (pieces, left) ← readString? rest
    return (Piece.ofUnit unit :: pieces, left)
  | '\\' :: c :: rest => do
    let c ← escaped? c
    let (pieces, left) ← readString? rest
    return (.char c :: pieces, left)
  | c :: rest =>
    if c.toNat < 0x20 then none
    else do
      let (pieces, left) ← readString? rest
      return (.char c :: pieces, left)

/-- The text of a string, unless one of its halves has no partner. -/
def textOf? : List Piece → Option Text
  | [] => some []
  | .char c :: rest => (textOf? rest).map (c :: ·)
  | .half high :: .half low :: rest =>
    if high < 0xDC00 ∧ 0xDC00 ≤ low then
      (textOf? rest).map (Char.ofNat (0x10000 + (high - 0xD800) * 0x400 + (low - 0xDC00)) :: ·)
    else none
  | .half _ :: _ => none

/-! ## Numbers and words -/

/-- Whether a character can stand in a number. -/
def isNumeric (c : Char) : Bool :=
  Text.isAsciiDigit c || c == '-' || c == '+' || c == '.' || c == 'e' || c == 'E'

/-- Takes off the exponent of a numeral, if what is left is nothing else. -/
def isExponent (t : Text) : Bool :=
  match t with
  | [] => Bool.true
  | e :: rest =>
    let digits :=
      match rest with
      | sign :: more => if sign == '+' || sign == '-' then more else rest
      | [] => []
    (e == 'e' || e == 'E') && !digits.isEmpty && digits.all Text.isAsciiDigit

/-- Whether a text is an optional fraction and an optional exponent. -/
def isFraction (t : Text) : Bool :=
  match t with
  | '.' :: rest =>
    !(rest.takeWhile Text.isAsciiDigit).isEmpty && isExponent (rest.dropWhile Text.isAsciiDigit)
  | _ => isExponent t

/-- Whether a run of digits is written without leading zeros. -/
def isInteger (digits : Text) : Bool :=
  match digits with
  | [] => Bool.false
  | '0' :: rest => rest.isEmpty
  | _ => Bool.true

/-- The number a literal spells, if it follows the grammar. -/
def numberOf? (literal : Text) : Option Number :=
  let unsigned :=
    match literal with
    | '-' :: rest => rest
    | _ => literal
  let whole := unsigned.takeWhile Text.isAsciiDigit
  let rest := unsigned.dropWhile Text.isAsciiDigit
  if isInteger whole && isFraction rest then
    if whole == literal then some (.natural (Text.numberOf whole)) else some (.other literal)
  else none

/-- The token a word stands for. -/
def ofWord? (word : Text) : Option Token :=
  if word == "true".toList then some .true
  else if word == "false".toList then some .false
  else if word == "null".toList then some .null
  else none

/-! ## Documents -/

/-- Reads the token a text begins with, and what follows it. -/
def read? (t : Text) : Option (Token × Text) :=
  match t with
  | [] => none
  | '{' :: rest => some (.openBrace, rest)
  | '}' :: rest => some (.closeBrace, rest)
  | '[' :: rest => some (.openBracket, rest)
  | ']' :: rest => some (.closeBracket, rest)
  | ',' :: rest => some (.comma, rest)
  | ':' :: rest => some (.colon, rest)
  | '"' :: rest => (readString? rest).map fun (pieces, left) => (.string (textOf? pieces), left)
  | c :: rest =>
    if isNumeric c && c != 'e' && c != 'E' then
      (numberOf? (t.takeWhile isNumeric)).map fun n => (.number n, t.dropWhile isNumeric)
    else if c.isAlpha then
      (ofWord? (t.takeWhile Char.isAlpha)).map (·, rest.dropWhile Char.isAlpha)
    else none

/-- The tokens of a document. `skip` characters still belong to the token
before; no token is longer than the text, so every character is looked at
once. -/
def scanFrom : (skip : Nat) → Text → Option (List Token)
  | _, [] => some []
  | skip + 1, _ :: rest => scanFrom skip rest
  | 0, c :: rest =>
    if isBlank c then scanFrom 0 rest
    else do
      let (token, left) ← read? (c :: rest)
      let tokens ← scanFrom (rest.length - left.length) rest
      return token :: tokens

/-- The tokens of a document, if it can be cut into tokens. -/
def scan (t : Text) : Option (List Token) := scanFrom 0 t

end Token

end LineGuard.Json
