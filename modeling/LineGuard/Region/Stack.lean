/-
# The guard stack

For each target, the tags that are in force form a stack of frames. The frame on
top governs; when it expires, the frame below governs again.

Two kinds of frames keep the stack in shape. A context frame never has anything
pushed on top of it: it leaves for good. An unbounded frame never has anything
below it: whatever it is pushed on can no longer come back.
-/

import LineGuard.Permission

namespace LineGuard

/-- A tag in force. -/
structure Frame where
  /-- The line the tag is declared on. -/
  tagLine : Nat
  permission : Permission
  isContext : Bool
  /-- The last line governed, absent when the frame does not expire. -/
  bound : Option Nat
deriving DecidableEq, Repr

namespace Frame

/-- Whether a frame is no longer in force on a line. -/
def expiredAt (frame : Frame) (line : Nat) : Bool := frame.bound.any (· < line)

/-- Whether a frame never expires. -/
def isUnbounded (frame : Frame) : Bool := frame.bound.isNone

end Frame

/-- The frames of a target, the one on top first. -/
abbrev GuardStack := List Frame

namespace GuardStack

/-- The frame on top. -/
def top? (stack : GuardStack) : Option Frame := stack.head?

/-- What stays below a frame that is pushed: a context frame on top does not. -/
def withoutContextTop : GuardStack → GuardStack
  | [] => []
  | top :: below => if top.isContext then below else top :: below

/-- Puts a frame on top. -/
def push (stack : GuardStack) (frame : Frame) : GuardStack :=
  if frame.isUnbounded then [frame] else frame :: stack.withoutContextTop

/-- Takes off every frame on top that is no longer in force, down to the first
that is. -/
def expire (stack : GuardStack) (line : Nat) : GuardStack := stack.dropWhile (·.expiredAt line)

/-- The number of frames that expiring takes off. -/
def expiredCount (stack : GuardStack) (line : Nat) : Nat :=
  (stack.takeWhile (·.expiredAt line)).length

/-- Takes off the frame on top, if there is one. -/
def pop (stack : GuardStack) : GuardStack := stack.tail

@[simp]
theorem top?_push (stack : GuardStack) (frame : Frame) : (stack.push frame).top? = some frame := by
  unfold push
  split <;> rfl

/-- What is on top after expiring is in force. -/
theorem not_expiredAt_of_top? {stack : GuardStack} {line : Nat} {frame : Frame}
    (h : (stack.expire line).top? = some frame) : frame.expiredAt line = false := by
  induction stack with
  | nil => simp [expire, top?] at h
  | cons top below ih =>
    rw [expire, List.dropWhile_cons] at h
    split at h
    · exact ih h
    · obtain rfl : top = frame := by simpa [top?] using h
      simp_all

end GuardStack

end LineGuard
