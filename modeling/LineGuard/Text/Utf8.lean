/-
# Text from bytes

Files hold bytes, and the bytes of a text are its characters in UTF-8. Bytes that
are no characters come in maximal pieces: as many bytes as could still begin a
character, then one that does not continue it. A strict reader refuses a file
with such a piece; a lenient one puts the replacement character in its place.
-/

import LineGuard.Text.Basic

namespace LineGuard.Text.Utf8

/-- Where reading stands between two bytes. -/
inductive State where
  /-- Behind a complete character. -/
  | start
  /-- Inside a character: the bits so far, the number of bytes that are missing,
  and the range in which the next one has to lie. -/
  | inside (bits missing low high : Nat)
deriving DecidableEq, Repr

/-- What a byte does behind a complete character: it is a character, begins one,
or is a piece that is none. The ranges leave out overlong forms, surrogates and
what lies above the last code point. -/
def begin (b : Nat) : List (Option Char) × State :=
  if b < 0x80 then ([some (Char.ofNat b)], .start)
  else if 0xC2 ≤ b ∧ b ≤ 0xDF then ([], .inside (b - 0xC0) 1 0x80 0xBF)
  else if b = 0xE0 then ([], .inside 0 2 0xA0 0xBF)
  else if b = 0xED then ([], .inside 0xD 2 0x80 0x9F)
  else if 0xE1 ≤ b ∧ b ≤ 0xEF then ([], .inside (b - 0xE0) 2 0x80 0xBF)
  else if b = 0xF0 then ([], .inside 0 3 0x90 0xBF)
  else if b = 0xF4 then ([], .inside 4 3 0x80 0x8F)
  else if 0xF1 ≤ b ∧ b ≤ 0xF3 then ([], .inside (b - 0xF0) 3 0x80 0xBF)
  else ([none], .start)

/-- Takes a byte: the pieces it completes, and where reading stands then. A byte
that does not continue a character begins anew. -/
def step : State → Nat → List (Option Char) × State
  | .start, b => begin b
  | .inside bits missing low high, b =>
    if low ≤ b ∧ b ≤ high then
      let bits := 64 * bits + (b - 0x80)
      if missing = 1 then ([some (Char.ofNat bits)], .start)
      else ([], .inside bits (missing - 1) 0x80 0xBF)
    else
      let (pieces, state) := begin b
      (none :: pieces, state)

/-- The characters of some bytes, with `none` for each piece that is none. -/
def piecesFrom : State → List UInt8 → List (Option Char)
  | .start, [] => []
  | .inside .., [] => [none]
  | state, b :: rest =>
    let (pieces, state) := step state b.toNat
    pieces ++ piecesFrom state rest

/-- The text of some bytes, if they are one. -/
def decode? (bytes : List UInt8) : Option Text := (piecesFrom .start bytes).mapM id

/-- The text of some bytes, with the replacement character for what is none. -/
def decodeLenient (bytes : List UInt8) : Text :=
  (piecesFrom .start bytes).map (·.getD '\uFFFD')

example : decode? [0x61, 0xC3, 0xA9, 0xF0, 0x9F, 0x98, 0x80] = some "aé😀".toList := by decide

example : decode? [0xC0, 0x80] = none ∧ decode? [0xED, 0xA0, 0x80] = none ∧
    decode? [0xE2, 0x82] = none := by decide

example : decodeLenient [0x61, 0xE2, 0x82, 0x62, 0xFF] = "a\uFFFDb\uFFFD".toList := by decide

end LineGuard.Text.Utf8
