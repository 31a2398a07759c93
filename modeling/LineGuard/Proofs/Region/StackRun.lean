/-
# What every sequence of operations keeps

A guard stack starts empty and is changed in three ways: a frame is pushed, the frames
on top that have ended are taken off, or the top is taken off. Frames need not be nested
and lines need not come in order, so little can be said about the ends of the frames in a
stack. What can be said is where two kinds of frames lie: documentation lies on top, and
a frame that does not expire lies at the bottom.

Both facts pass to whatever is left when frames are taken off the top. Pushing is the one
operation that has to see to them, and it does so by what it takes off first.
-/

import LineGuard.Proofs.Region.Stack

namespace LineGuard

/-- Whether a frame ends before a line. A frame without an end does not. -/
def Frame.EndsBefore (frame : Frame) (line : Nat) : Prop :=
  ∃ bound, frame.bound = some bound ∧ bound < line

theorem Frame.expiredAt_iff {frame : Frame} {line : Nat} :
    frame.expiredAt line = true ↔ frame.EndsBefore line := by
  rw [expiredAt, EndsBefore, Option.any_eq_true]
  simp

namespace GuardStack

variable {stack kept : GuardStack} {frame : Frame} {line later : Nat}

/-! ## Two kinds of frames -/

/-- No frame but the one at the bottom lasts without an end. -/
def UnboundedAtBottom (stack : GuardStack) : Prop :=
  ∀ frame ∈ stack.dropLast, frame.isUnbounded = false

/-- Both kinds of frames that have a place of their own are in it. -/
structure WellLayered (stack : GuardStack) : Prop where
  contextOnTop : stack.ContextOnTop
  unboundedAtBottom : stack.UnboundedAtBottom

theorem wellLayered_nil : WellLayered [] where
  contextOnTop _ h := nomatch h
  unboundedAtBottom _ h := nomatch h

theorem UnboundedAtBottom.of_suffix (h : stack.UnboundedAtBottom) (hkept : kept <:+ stack) :
    kept.UnboundedAtBottom := by
  obtain ⟨gone, rfl⟩ := hkept
  intro frame hframe
  have hne : kept ≠ [] := by
    rintro rfl
    cases hframe
  apply h
  rw [List.dropLast_append_of_ne_nil hne]
  exact List.mem_append_right gone hframe

theorem ContextOnTop.of_suffix (h : stack.ContextOnTop) (hkept : kept <:+ stack) :
    kept.ContextOnTop := by
  obtain ⟨gone, rfl⟩ := hkept
  intro frame hframe
  apply h
  cases gone with
  | nil => exact hframe
  | cons top rest => exact List.mem_append_right rest (List.mem_of_mem_tail hframe)

/-- What is left when frames are taken off the top is layered as before. -/
theorem WellLayered.of_suffix (h : stack.WellLayered) (hkept : kept <:+ stack) :
    kept.WellLayered where
  contextOnTop := h.contextOnTop.of_suffix hkept
  unboundedAtBottom := h.unboundedAtBottom.of_suffix hkept

theorem withoutContextTop_suffix (stack : GuardStack) : stack.withoutContextTop <:+ stack := by
  cases stack with
  | nil => exact List.suffix_rfl
  | cons top below =>
    rw [withoutContextTop]
    split
    · exact List.suffix_cons top below
    · exact List.suffix_rfl

theorem expire_suffix (stack : GuardStack) (line : Nat) : stack.expire line <:+ stack :=
  List.dropWhile_suffix _

theorem pop_suffix (stack : GuardStack) : stack.pop <:+ stack := List.tail_suffix stack

/-- A frame without an end clears the stack, and any other may lie on what stays. -/
theorem UnboundedAtBottom.push (h : stack.UnboundedAtBottom) (pushed : Frame) :
    (stack.push pushed).UnboundedAtBottom := by
  intro frame hframe
  rw [GuardStack.push] at hframe
  split at hframe
  · cases hframe
  · next hbounded =>
    cases hbelow : stack.withoutContextTop with
    | nil =>
      rw [hbelow] at hframe
      cases hframe
    | cons top below =>
      have hkept := h.of_suffix stack.withoutContextTop_suffix
      rw [hbelow] at hframe hkept
      rcases List.mem_cons.mp hframe with rfl | hframe
      · simpa using hbounded
      · exact hkept frame hframe

theorem WellLayered.push (h : stack.WellLayered) (pushed : Frame) :
    (stack.push pushed).WellLayered where
  contextOnTop := h.contextOnTop.push pushed
  unboundedAtBottom := h.unboundedAtBottom.push pushed

/-! ## Expiring -/

/-- A stack falls into the longest run of frames on top that end before a line, and what
lies below. -/
structure ExpiresAs (stack : GuardStack) (line : Nat) (gone kept : GuardStack) : Prop where
  split : stack = gone ++ kept
  ended : ∀ frame ∈ gone, frame.EndsBefore line
  longest : ∀ run rest, stack = run ++ rest → (∀ frame ∈ run, frame.EndsBefore line) →
    run.length ≤ gone.length
  /-- The new top, if there is one, has no end or ends on the line or behind it. -/
  top_lasts : ∀ frame, kept.top? = some frame → ∀ bound, frame.bound = some bound → line ≤ bound

theorem expire_cons (top : Frame) (below : GuardStack) (line : Nat) :
    expire (top :: below) line = if top.expiredAt line then below.expire line else top :: below :=
  List.dropWhile_cons

theorem expiredCount_cons (top : Frame) (below : GuardStack) (line : Nat) :
    expiredCount (top :: below) line =
      if top.expiredAt line then below.expiredCount line + 1 else 0 := by
  rw [expiredCount, List.takeWhile_cons]
  split <;> rfl

/-- No run of ended frames on top is longer than the one that is counted. -/
theorem length_le_expiredCount {run rest : List Frame}
    (hrun : ∀ frame ∈ run, frame.EndsBefore line) :
    run.length ≤ expiredCount (run ++ rest) line := by
  induction run with
  | nil => exact Nat.zero_le _
  | cons top run ih =>
    have htop : top.expiredAt line = true := Frame.expiredAt_iff.mpr (hrun top List.mem_cons_self)
    have hrest := ih fun frame hframe => hrun frame (List.mem_cons_of_mem top hframe)
    rw [List.cons_append, expiredCount_cons, if_pos htop]
    exact Nat.succ_le_succ hrest

theorem expiresAs_expire (stack : GuardStack) (line : Nat) :
    ∃ gone, stack.ExpiresAs line gone (stack.expire line) ∧
      stack.expiredCount line = gone.length := by
  refine ⟨stack.takeWhile (·.expiredAt line), ?_, rfl⟩
  constructor
  case split => exact List.takeWhile_append_dropWhile.symm
  case ended =>
    intro frame hframe
    have hall := List.all_takeWhile (l := stack) (p := (·.expiredAt line))
    exact Frame.expiredAt_iff.mp (List.all_eq_true.mp hall frame hframe)
  case longest =>
    rintro run rest rfl hrun
    exact length_le_expiredCount hrun
  case top_lasts =>
    intro frame htop bound hbound
    have hlasts := not_expiredAt_of_top? htop
    rw [Frame.expiredAt, hbound] at hlasts
    simpa using hlasts

/-- Lines passed on the way do not matter: the later one takes off what they would. -/
theorem expire_expire (hline : line ≤ later) :
    (stack.expire line).expire later = stack.expire later := by
  induction stack with
  | nil => rfl
  | cons top below ih =>
    by_cases htop : top.expiredAt line = true
    · have hlater := Frame.expiredAt_mono hline htop
      rw [expire_cons, if_pos htop, ih, expire_cons, if_pos hlater]
    · rw [expire_cons top below line, if_neg htop]

/-! ## Runs -/

/-- What can be done to a stack. -/
inductive Operation where
  | push (frame : Frame)
  | expire (line : Nat)
  | pop
deriving DecidableEq, Repr

/-- Carries out an operation. -/
def perform (stack : GuardStack) : Operation → GuardStack
  | .push frame => stack.push frame
  | .expire line => stack.expire line
  | .pop => stack.pop

/-- The stack after some operations on an empty one. -/
def run (operations : List Operation) : GuardStack := operations.foldl perform []

theorem WellLayered.perform (h : stack.WellLayered) (operation : Operation) :
    (stack.perform operation).WellLayered := by
  cases operation with
  | push frame => exact h.push frame
  | expire line => exact h.of_suffix (stack.expire_suffix line)
  | pop => exact h.of_suffix stack.pop_suffix

theorem wellLayered_run (operations : List Operation) : (run operations).WellLayered := by
  have hfoldl (stack : GuardStack) (h : stack.WellLayered) :
      (operations.foldl GuardStack.perform stack).WellLayered := by
    induction operations generalizing stack with
    | nil => exact h
    | cons operation rest ih => exact ih _ (h.perform operation)
  exact hfoldl [] wellLayered_nil

/-- After any operations documentation lies on top only and frames without an end at the
bottom only; expiring takes off, and counts, the longest run of frames on top that have
ended; and it makes no difference whether earlier lines have been passed before. -/
theorem wellLayered_and_expiresAs_run (operations : List Operation) :
    (∀ frame ∈ (run operations).tail, frame.isContext = false) ∧
      (∀ frame ∈ (run operations).dropLast, frame.bound ≠ none) ∧
      (∀ line, ∃ gone, (run operations).ExpiresAs line gone ((run operations).expire line) ∧
        (run operations).expiredCount line = gone.length) ∧
      (∀ line later, line ≤ later →
        ((run operations).expire line).expire later = (run operations).expire later) ∧
      pop [] = [] := by
  have hlayers := wellLayered_run operations
  refine ⟨hlayers.contextOnTop, fun frame hframe hnone => ?_, expiresAs_expire _,
    fun _ _ => expire_expire, rfl⟩
  have hbounded := hlayers.unboundedAtBottom frame hframe
  rw [Frame.isUnbounded, hnone] at hbounded
  cases hbounded

end GuardStack

end LineGuard
