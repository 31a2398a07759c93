/-
# Byte columns

Positions on a line are counted in bytes of the UTF-8 encoding, the unit other
tools report. Only the encoded size of each character matters, so no encoding
is ever carried out: a column is a sum of sizes.
-/

import LineGuard.Text.Basic

namespace LineGuard.Text

/-- The number of bytes the text takes in UTF-8. -/
def byteLength : Text → Nat
  | [] => 0
  | c :: rest => c.utf8Size + byteLength rest

/-- The text before a byte column. There is none when the column lies past the
end, or inside the bytes of a character. -/
def takeBytes? : Nat → Text → Option Text
  | 0, _ => some []
  | _ + 1, [] => none
  | column + 1, c :: rest =>
    if c.utf8Size ≤ column + 1 then
      (takeBytes? (column + 1 - c.utf8Size) rest).map (c :: ·)
    else none

/-- The column of the first character that is not blank. -/
def firstVisible? : Text → Option Nat
  | [] => none
  | c :: rest => if isBlank c then (firstVisible? rest).map (c.utf8Size + ·) else some 0

/-- The column of the last character that is not blank. -/
def lastVisible? : Text → Option Nat
  | [] => none
  | c :: rest =>
    match lastVisible? rest with
    | some column => some (c.utf8Size + column)
    | none => if isBlank c then none else some 0

/-- How far the text is indented: leading blanks count one each, tabs four. -/
def indentation (t : Text) : Nat :=
  (t.takeWhile isBlank).foldl (fun n c => n + if c = '\t' then 4 else 1) 0

@[simp]
theorem byteLength_nil : byteLength [] = 0 := rfl

@[simp]
theorem byteLength_cons (c : Char) (t : Text) :
    byteLength (c :: t) = c.utf8Size + byteLength t := rfl

theorem byteLength_append (s t : Text) : byteLength (s ++ t) = byteLength s + byteLength t := by
  induction s with
  | nil => simp
  | cons c s ih => simp [ih, Nat.add_assoc]

/-- Cutting at the byte length of a first part gives that part back, so byte
columns that were measured on a line can always be cut at. -/
theorem takeBytes?_append (s t : Text) : takeBytes? (byteLength s) (s ++ t) = some s := by
  induction s with
  | nil => simp [takeBytes?]
  | cons c s ih =>
    obtain ⟨n, hn⟩ : ∃ n, c.utf8Size + byteLength s = n + 1 :=
      ⟨c.utf8Size + byteLength s - 1, by have := c.utf8Size_pos; omega⟩
    rw [byteLength_cons, hn, List.cons_append, takeBytes?, if_pos (by omega),
      show n + 1 - c.utf8Size = byteLength s by omega, ih]
    rfl

end LineGuard.Text
