/-
# What pushing and expiring keep

A guard stack built by pushing and expiring holds documentation on top only, and
nothing it did not have pushed on it. Expiring takes off frames that could not
have governed any later line, so whoever looks for a frame that is still in force
finds the same one before and after.
-/

import LineGuard.Region.Stack
import Mathlib.Data.List.Basic

namespace LineGuard

/-- What has expired stays expired. -/
theorem Frame.expiredAt_mono {frame : Frame} {line later : Nat} (hline : line ≤ later)
    (h : frame.expiredAt line = true) : frame.expiredAt later = true := by
  cases hbound : frame.bound with
  | none => simp [expiredAt, hbound] at h
  | some bound =>
    simp only [expiredAt, hbound, Option.any_some, decide_eq_true_eq] at h ⊢
    omega

theorem Frame.not_expiredAt_of_isUnbounded {frame : Frame} (h : frame.isUnbounded = true)
    (line : Nat) : frame.expiredAt line = false := by
  rw [isUnbounded, Option.isNone_iff_eq_none] at h
  simp [expiredAt, h]

namespace GuardStack

variable {stack : GuardStack} {frame pushed : Frame} {line later : Nat}

theorem withoutContextTop_sublist (stack : GuardStack) :
    stack.withoutContextTop.Sublist stack := by
  cases stack with
  | nil => exact List.Sublist.refl _
  | cons top below =>
    rw [withoutContextTop]
    split
    · exact List.sublist_cons_self top below
    · exact List.Sublist.refl _

/-- Pushing brings in nothing but the frame pushed. -/
theorem mem_of_mem_push (h : frame ∈ stack.push pushed) : frame = pushed ∨ frame ∈ stack := by
  rw [push] at h
  split at h
  · exact .inl (List.mem_singleton.mp h)
  · rcases List.mem_cons.mp h with heq | hbelow
    · exact .inl heq
    · exact .inr (stack.withoutContextTop_sublist.subset hbelow)

theorem mem_of_mem_foldl_push {frames : List Frame} (h : frame ∈ frames.foldl push stack) :
    frame ∈ frames ∨ frame ∈ stack := by
  induction frames generalizing stack with
  | nil => exact .inr h
  | cons pushed rest ih =>
    rcases ih h with hrest | hpush
    · exact .inl (List.mem_cons_of_mem _ hrest)
    · rcases mem_of_mem_push hpush with rfl | hstack
      · exact .inl List.mem_cons_self
      · exact .inr hstack

/-- Taking expired frames off hides none that is in force on a later line. -/
theorem find?_expire {p : Frame → Bool} (hline : line ≤ later)
    (hp : ∀ frame, p frame = true → frame.expiredAt later = false) :
    (stack.expire line).find? p = stack.find? p := by
  induction stack with
  | nil => rfl
  | cons top below ih =>
    rw [expire, List.dropWhile_cons]
    split
    · next hexpired =>
      have htop : p top = false := by
        by_contra hne
        have := hp top (by simpa using hne)
        simp [Frame.expiredAt_mono hline hexpired] at this
      rw [List.find?_cons, htop]
      exact ih
    · rfl

/-! ## Documentation is on top -/

/-- No frame but the one on top is documentation. -/
def ContextOnTop (stack : GuardStack) : Prop := ∀ frame ∈ stack.tail, frame.isContext = false

theorem ContextOnTop.withoutContextTop_eq_filter (h : stack.ContextOnTop) :
    stack.withoutContextTop = stack.filter (!·.isContext) := by
  cases stack with
  | nil => rfl
  | cons top below =>
    have hbelow : below.filter (!·.isContext) = below :=
      List.filter_eq_self.mpr fun frame hframe => by simp [h frame hframe]
    rw [withoutContextTop, List.filter_cons, hbelow]
    cases top.isContext <;> rfl

theorem ContextOnTop.push (h : stack.ContextOnTop) (pushed : Frame) :
    (stack.push pushed).ContextOnTop := by
  intro frame hframe
  rw [GuardStack.push] at hframe
  split at hframe
  · cases hframe
  · rw [List.tail_cons, h.withoutContextTop_eq_filter] at hframe
    simpa using (List.mem_filter.mp hframe).2

theorem ContextOnTop.expire (h : stack.ContextOnTop) (line : Nat) :
    (stack.expire line).ContextOnTop := by
  cases stack with
  | nil => exact h
  | cons top below =>
    intro frame hframe
    rw [GuardStack.expire, List.dropWhile_cons] at hframe
    split at hframe
    · exact h frame ((List.dropWhile_sublist _).subset (List.mem_of_mem_tail hframe))
    · exact h frame hframe

/-- Of the frames below one that is pushed only the lasting ones can be found
again, and none if it does not expire itself. -/
theorem ContextOnTop.find?_push (h : stack.ContextOnTop) (pushed : Frame) (later : Nat) :
    (stack.push pushed).find? (!·.expiredAt later) =
      if pushed.expiredAt later then
        stack.find? fun frame => !frame.expiredAt later && !frame.isContext
      else some pushed := by
  rw [GuardStack.push, h.withoutContextTop_eq_filter]
  cases hunbounded : pushed.isUnbounded with
  | true => simp [Frame.not_expiredAt_of_isUnbounded hunbounded]
  | false => cases hexpired : pushed.expiredAt later <;> simp [hexpired, Bool.and_comm]

theorem ContextOnTop.find?_lasting_push (h : stack.ContextOnTop)
    (hpushed : pushed.isContext = true → pushed.isUnbounded = false) (later : Nat) :
    (stack.push pushed).find? (fun frame => !frame.expiredAt later && !frame.isContext) =
      if !pushed.expiredAt later && !pushed.isContext then some pushed
      else stack.find? fun frame => !frame.expiredAt later && !frame.isContext := by
  rw [GuardStack.push, h.withoutContextTop_eq_filter]
  cases hunbounded : pushed.isUnbounded with
  | true =>
    have hcontext : pushed.isContext = false := by
      by_contra hne
      simp [hpushed (by simpa using hne)] at hunbounded
    simp [Frame.not_expiredAt_of_isUnbounded hunbounded, hcontext]
  | false =>
    cases hcontext : pushed.isContext <;> cases hexpired : pushed.expiredAt later <;>
      simp [hcontext, hexpired, Bool.and_comm]

end GuardStack

end LineGuard
