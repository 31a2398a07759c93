/-
# From tags to regions

The lines of a document are walked in order, once for each target. On each line,
frames that are no longer in force leave the stack, then the tags whose scopes
start there are pushed, and what is on top governs; under an empty stack the
default does. Blank lines are lines like any other. Lines that follow each other
and are governed alike make a region.
-/

import LineGuard.Region.Activation
import LineGuard.Region.Basic

namespace LineGuard

/-- What governs a line for a target. -/
structure Rule where
  permission : Permission
  /-- The line of the governing tag. -/
  sourceLine : Option Nat
  isContext : Bool
deriving DecidableEq, Repr

namespace Rule

/-- The rule where no tag governs. -/
def ofDefault (permission : Permission) : Rule := ⟨permission, none, false⟩

/-- The rule a frame makes. -/
def ofFrame (frame : Frame) : Rule := ⟨frame.permission, some frame.tagLine, frame.isContext⟩

/-- The rule under a stack of frames. -/
def ofStack (default : Permission) (stack : GuardStack) : Rule :=
  (stack.top?.map ofFrame).getD (ofDefault default)

/-- The region a rule makes of one line. -/
def region (rule : Rule) (target : Target) (line : Nat) : Region :=
  ⟨line, line, target, rule.permission, rule.sourceLine, rule.isContext⟩

/-- Whether a region is governed by the rule. -/
def governs (rule : Rule) (r : Region) : Bool :=
  r.permission == rule.permission && r.sourceLine == rule.sourceLine &&
    r.isContext == rule.isContext

end Rule

namespace Region

/-- The rules of `count` lines from a line on, given the stack before them and
the activations still to come. -/
def rulesFrom (default : Permission) :
    (stack : GuardStack) → (pending : List Activation) → (line count : Nat) → List Rule
  | _, _, _, 0 => []
  | stack, pending, line, count + 1 =>
    let started := pending.takeWhile (·.startLine ≤ line)
    let stack := (started.map (·.frame)).foldl GuardStack.push (stack.expire line)
    Rule.ofStack default stack ::
      rulesFrom default stack (pending.drop started.length) (line + 1) count

/-- Makes regions of rules for consecutive lines, joining lines that are governed
alike. -/
def ofRules (target : Target) : (line : Nat) → List Rule → List Region
  | _, [] => []
  | line, rule :: rest =>
    match ofRules target (line + 1) rest with
    | next :: more =>
      if rule.governs next then { next with startLine := line } :: more
      else rule.region target line :: next :: more
    | [] => [rule.region target line]

/-- The regions of a document for a target. -/
def buildFor (d : Document) (tags : List Tag) (scopes : List Scope) (defaults : Defaults)
    (target : Target) : List Region :=
  ofRules target 0 <|
    rulesFrom (defaults.get target) [] (Activation.inOrder d tags scopes target) 0 d.lineCount

/-- The regions of a document for both targets, given its tags and, in the same
order, their scopes. -/
def build (d : Document) (tags : List Tag) (scopes : List Scope) (defaults : Defaults) :
    List Region :=
  (Target.all.flatMap (buildFor d tags scopes defaults)).mergeSort listedBefore

/-- There is one rule for each line. -/
@[simp]
theorem length_rulesFrom (default : Permission) (stack : GuardStack) (pending : List Activation)
    (line count : Nat) : (rulesFrom default stack pending line count).length = count := by
  induction count generalizing stack pending line with
  | zero => rfl
  | succ count ih => simp [rulesFrom, ih]

/-- Regions begin with the line that the rules begin with. -/
theorem startLine_of_head?_ofRules {target : Target} {line : Nat} {rules : List Rule}
    {r : Region} (h : (ofRules target line rules).head? = some r) : r.startLine = line := by
  cases rules with
  | nil => simp [ofRules] at h
  | cons rule rest =>
    rw [ofRules] at h
    split at h
    · split at h <;> simp only [List.head?_cons, Option.some.injEq] at h <;> subst h <;> rfl
    · simp only [List.head?_cons, Option.some.injEq] at h
      subst h
      rfl

end Region

end LineGuard
