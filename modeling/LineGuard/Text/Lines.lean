/-
# Lines of a text

A line ends at a line feed, or at a carriage return with a line feed right
behind it. A carriage return anywhere else is content, also as the very last
character. Text after the last line ending is a line of its own when there is
any, so a final line ending does not start an empty line.
-/

import LineGuard.Text.Basic

namespace LineGuard.Text

/-- The lines of a text, without their endings. -/
def lines : Text → List Text
  | [] => []
  | '\n' :: rest => [] :: lines rest
  | '\r' :: '\n' :: rest => [] :: lines rest
  | c :: rest =>
    match lines rest with
    | [] => [[c]]
    | line :: more => (c :: line) :: more

@[simp]
theorem lines_feed (rest : Text) : lines ('\n' :: rest) = [] :: lines rest := rfl

@[simp]
theorem lines_return_feed (rest : Text) : lines ('\r' :: '\n' :: rest) = [] :: lines rest := rfl

/-- Only the empty text has no lines. -/
theorem lines_eq_nil_iff {t : Text} : lines t = [] ↔ t = [] := by
  refine ⟨fun h => ?_, fun h => h ▸ rfl⟩
  unfold lines at h
  split at h <;> try simp at h ⊢
  split at h <;> simp at h

end LineGuard.Text
