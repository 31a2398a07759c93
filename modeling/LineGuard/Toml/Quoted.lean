/-
# Strings of TOML

A string stands between quotes or between apostrophes. Between quotes a backslash
begins an escape, between apostrophes everything stands for itself. Three marks
instead of one make the string long: it may go over several lines, a line feed
right behind the opening marks does not belong to it, and one or two marks before
the closing three do.
-/

import LineGuard.Text.Basic

namespace LineGuard.Toml

/-- Whether a character may stand in strings and comments: no control character but
the tab. -/
def isPlain (c : Char) : Bool := c == '\t' || (0x20 ≤ c.toNat && c.toNat != 0x7F)

namespace Quoted

/-- The character that hexadecimal digits are the number of. -/
def scalar? (digits : Text) : Option Char := do
  let n ← digits.foldlM (fun n c => (Text.hexValue? c).map (16 * n + ·)) 0
  if n < 0xD800 ∨ (0xDFFF < n ∧ n < 0x110000) then some (Char.ofNat n) else none

/-- The character of an escape with a number of so many digits, and its length. -/
def numbered? (count : Nat) (t : Text) : Option (Char × Nat) :=
  if t.length < count then none else (scalar? (t.take count)).map (·, count + 1)

/-- What stands behind a backslash: the character it is an escape of, and how many
characters belong to it. -/
def escape? : Text → Option (Char × Nat)
  | [] => none
  | c :: rest =>
    match c with
    | 'b' => some ('\x08', 1)
    | 't' => some ('\t', 1)
    | 'n' => some ('\n', 1)
    | 'f' => some ('\x0C', 1)
    | 'r' => some ('\r', 1)
    | '"' => some ('"', 1)
    | '\\' => some ('\\', 1)
    | 'u' => numbered? 4 rest
    | 'U' => numbered? 8 rest
    | _ => none

/-- Adds a character in front of a string that has been read. -/
def prepend (c : Char) (read : Option (Text × Text)) : Option (Text × Text) :=
  read.map fun (t, rest) => (c :: t, rest)

/-- Reads a string on one line up to its closing mark, and what follows. `skip`
characters still belong to an escape. -/
def readShort? (mark : Char) : (skip : Nat) → Text → Option (Text × Text)
  | _, [] => none
  | skip + 1, _ :: rest => readShort? mark skip rest
  | 0, c :: rest =>
    if c = mark then some ([], rest)
    else if c = '\\' ∧ mark = '"' then
      (escape? rest).bind fun (d, length) => prepend d (readShort? mark length rest)
    else if isPlain c then prepend c (readShort? mark 0 rest)
    else none

/-! ## Long strings -/

/-- How many blanks and line ends a text begins with. -/
def layoutLength : Text → Nat
  | '\r' :: '\n' :: rest => layoutLength rest + 2
  | c :: rest => if c = ' ' ∨ c = '\t' ∨ c = '\n' then layoutLength rest + 1 else 0
  | [] => 0

/-- What follows a line end, if the text begins with one. -/
def afterNewline? : Text → Option Text
  | '\n' :: rest => some rest
  | '\r' :: '\n' :: rest => some rest
  | _ => none

/-- How much a backslash at the end of a line takes away: all layout behind it. -/
def foldedLength? (t : Text) : Option Nat :=
  (afterNewline? (t.dropWhile fun c => c == ' ' || c == '\t')).map fun _ => layoutLength t

/-- What a long string ends in, if it ends here, and what follows: up to two marks
before the closing three. -/
def closing? (mark : Char) (t : Text) : Option (Text × Text) :=
  let marks := (t.takeWhile (· == mark)).length
  if marks < 3 then none
  else
    let inside := min marks 5 - 3
    some (List.replicate inside mark, t.drop (inside + 3))

/-- Reads a long string up to its closing marks, and what follows. `skip` characters
still belong to an escape. A line end is a line feed, however it is written. -/
def readLong? (mark : Char) : (skip : Nat) → Text → Option (Text × Text)
  | _, [] => none
  | skip + 1, _ :: rest => readLong? mark skip rest
  | 0, c :: rest =>
    match closing? mark (c :: rest) with
    | some closed => some closed
    | none =>
      if c = '\\' ∧ mark = '"' then
        match foldedLength? rest with
        | some length => readLong? mark length rest
        | none => (escape? rest).bind fun (d, length) => prepend d (readLong? mark length rest)
      else if c = '\r' then
        if Text.startsWith ['\n'] rest then readLong? mark 0 rest else none
      else if c = '\n' || isPlain c then prepend c (readLong? mark 0 rest)
      else none

/-- A string that has been read. -/
structure Result where
  text : Text
  isLong : Bool
  rest : Text

/-- Reads the string behind its first mark. -/
def read? (mark : Char) (t : Text) : Option Result :=
  match Text.after? [mark, mark] t with
  | some inside =>
    (readLong? mark 0 ((afterNewline? inside).getD inside)).map fun (t, rest) => ⟨t, true, rest⟩
  | none => (readShort? mark 0 t).map fun (t, rest) => ⟨t, false, rest⟩

example : (read? '"' "\\u00e9\\t\" = 1".toList).map (·.text) = some "é\t".toList := by decide

example : (read? '"' "\"\"\na \\\n   b\"\"\"\"".toList).map (·.text) = some "a b\"".toList := by
  decide

end Quoted

end LineGuard.Toml
