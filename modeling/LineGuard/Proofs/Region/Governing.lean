/-
# The last tag in force governs

The walk over the lines keeps a stack of frames, and the stack forgets: what
expires is taken off, documentation leaves when something is pushed on it, and an
unbounded frame clears everything below. This module shows that nothing forgotten
could have mattered. On every line the frame on top is that of the last tag in
force, looked up among all tags from scratch.

A tag is in force from the start of its scope to its end, and documentation only
as long as no later tag of the target has started. The frames of the stack need
not be nested, so no single stack describes what was pushed. The invariant says
instead what the stack would show on every line still to come.
-/

import LineGuard.Proofs.Pending
import LineGuard.Proofs.Region.Partition
import LineGuard.Tag.Grammar

namespace LineGuard

theorem getLast?_filter_cons {α : Type} {p : α → Bool} {a : α} {rest : List α} :
    ((a :: rest).filter p).getLast? =
      (rest.filter p).getLast?.or (if p a then some a else none) := by
  rw [List.filter_cons]
  split
  · rw [List.getLast?_cons]
    cases List.getLast? _ <;> rfl
  · rw [Option.or_none]

namespace Activation

/-! ## Activations in force -/

/-- Whether an activation is in force on a line, given those that come after it.
Documentation is in force only as long as none of them has started. -/
def inForce (a : Activation) (later : List Activation) (line : Nat) : Bool :=
  a.startLine ≤ line && !a.frame.expiredAt line &&
    !(a.frame.isContext && later.any (·.startLine ≤ line))

/-- The last activation in force on a line. -/
def lastInForce? (line : Nat) : List Activation → Option Activation
  | [] => none
  | a :: later => (lastInForce? line later).or (if a.inForce later line then some a else none)

/-- The last activation that would be in force if one more had started behind
all: documentation is out of the question. -/
def lastLasting? (line : Nat) (activations : List Activation) : Option Activation :=
  (activations.filter fun a => !a.frame.expiredAt line && !a.frame.isContext).getLast?

variable {line : Nat} {a : Activation} {activations pending : List Activation}

theorem lastLasting?_cons :
    lastLasting? line (a :: activations) = (lastLasting? line activations).or
      (if !a.frame.expiredAt line && !a.frame.isContext then some a else none) :=
  getLast?_filter_cons

theorem lastLasting?_append_singleton :
    lastLasting? line (activations ++ [a]) =
      if !a.frame.expiredAt line && !a.frame.isContext then some a
      else lastLasting? line activations := by
  simp only [lastLasting?, List.filter_append, List.filter_cons, List.filter_nil]
  split
  · rw [List.getLast?_append]
    rfl
  · rw [List.append_nil]

theorem lastInForce?_eq_none_of_lt (h : ∀ a ∈ pending, line < a.startLine) :
    lastInForce? line pending = none := by
  induction pending with
  | nil => rfl
  | cons a rest ih =>
    have ha : line < a.startLine := h a List.mem_cons_self
    rw [lastInForce?, ih fun b hb => h b (List.mem_cons_of_mem _ hb)]
    simp [inForce, Nat.not_le_of_lt ha]

/-- Activations that start behind a line do not matter to it. -/
theorem lastInForce?_append_of_lt (h : ∀ a ∈ pending, line < a.startLine) :
    lastInForce? line (activations ++ pending) = lastInForce? line activations := by
  have hpending : pending.any (·.startLine ≤ line) = false := by
    simpa using h
  induction activations with
  | nil => exact lastInForce?_eq_none_of_lt h
  | cons a rest ih =>
    have ha : a.inForce (rest ++ pending) line = a.inForce rest line := by
      simp [inForce, hpending]
    rw [List.cons_append, lastInForce?, lastInForce?, ih, ha]

/-- The last activation is in force until it expires; then only lasting ones are
left, because the last one has interrupted all documentation in front of it. -/
theorem lastInForce?_append_singleton (hstarted : ∀ b ∈ activations ++ [a], b.startLine ≤ line) :
    lastInForce? line (activations ++ [a]) =
      if a.frame.expiredAt line then lastLasting? line activations else some a := by
  have ha : a.startLine ≤ line := hstarted a (by simp)
  induction activations with
  | nil =>
    cases hexpired : a.frame.expiredAt line <;>
      simp [lastInForce?, lastLasting?, inForce, ha, hexpired]
  | cons b rest ih =>
    have hb : b.startLine ≤ line := hstarted b (by simp)
    rw [List.cons_append, lastInForce?, ih fun c hc => hstarted c (List.mem_cons_of_mem _ hc)]
    cases hexpired : a.frame.expiredAt line with
    | false => rfl
    | true => simp [lastLasting?_cons, inForce, ha, hb]

end Activation

namespace Region

/-! ## What the stack remembers -/

/-- A stack shows, on every line from one on, what the activations that have taken
place call for: the last in force, and the last lasting one to whoever is about to
push another frame. -/
structure Remembers (line : Nat) (done : List Activation) (stack : GuardStack) : Prop where
  started : ∀ a ∈ done, a.startLine ≤ line
  shows : ∀ later, line ≤ later → stack.find? (!·.expiredAt later) =
    (Activation.lastInForce? later done).map (·.frame)
  showsLasting : ∀ later, line ≤ later →
    stack.find? (fun frame => !frame.expiredAt later && !frame.isContext) =
      (Activation.lastLasting? later done).map (·.frame)
  contextOnTop : stack.ContextOnTop

theorem remembers_nil : Remembers 0 [] [] where
  started _ h := nomatch h
  shows _ _ := rfl
  showsLasting _ _ := rfl
  contextOnTop _ h := nomatch h

variable {line : Nat} {done : List Activation} {stack : GuardStack}

theorem Remembers.mono (h : Remembers line done stack) {next : Nat} (hnext : line ≤ next) :
    Remembers next done stack where
  started a ha := Nat.le_trans (h.started a ha) hnext
  shows later hlater := h.shows later (Nat.le_trans hnext hlater)
  showsLasting later hlater := h.showsLasting later (Nat.le_trans hnext hlater)
  contextOnTop := h.contextOnTop

/-- The invariant is kept when the expired frames are taken off. -/
theorem Remembers.expire (h : Remembers line done stack) {next : Nat} (hnext : line ≤ next) :
    Remembers next done (stack.expire next) where
  started := (h.mono hnext).started
  shows later hlater := by
    rw [GuardStack.find?_expire hlater (by simp)]
    exact (h.mono hnext).shows later hlater
  showsLasting later hlater := by
    rw [GuardStack.find?_expire hlater (by simp +contextual)]
    exact (h.mono hnext).showsLasting later hlater
  contextOnTop := h.contextOnTop.expire next

/-- The invariant is kept when an activation takes place. -/
theorem Remembers.push (h : Remembers line done stack) {a : Activation}
    (hstart : a.startLine ≤ line) (ha : a.WellFormed) :
    Remembers line (done ++ [a]) (stack.push a.frame) := by
  have hstarted : ∀ b ∈ done ++ [a], b.startLine ≤ line := by
    intro b hb
    rcases List.mem_append.mp hb with hdone | hlast
    · exact h.started b hdone
    · exact List.mem_singleton.mp hlast ▸ hstart
  refine ⟨hstarted, fun later hlater => ?_, fun later hlater => ?_, h.contextOnTop.push a.frame⟩
  · have hlast := Activation.lastInForce?_append_singleton
      fun b hb => Nat.le_trans (hstarted b hb) hlater
    rw [h.contextOnTop.find?_push, hlast, h.showsLasting later hlater]
    split <;> rfl
  · rw [h.contextOnTop.find?_lasting_push ha.bounded_of_isContext,
      Activation.lastLasting?_append_singleton, h.showsLasting later hlater]
    split <;> rfl

theorem Remembers.foldl_push {started : List Activation} (h : Remembers line done stack)
    (hstart : ∀ a ∈ started, a.startLine ≤ line) (hwell : ∀ a ∈ started, a.WellFormed) :
    Remembers line (done ++ started) ((started.map (·.frame)).foldl GuardStack.push stack) := by
  induction started generalizing done stack with
  | nil => simpa using h
  | cons a rest ih =>
    have hnext := h.push (hstart a List.mem_cons_self) (hwell a List.mem_cons_self)
    have hrest := ih hnext (fun b hb => hstart b (List.mem_cons_of_mem _ hb))
      fun b hb => hwell b (List.mem_cons_of_mem _ hb)
    simpa using hrest

theorem top?_foldl_push {P : Frame → Prop} {frames : List Frame}
    (hstack : ∀ frame, stack.top? = some frame → P frame) (hframes : ∀ frame ∈ frames, P frame) :
    ∀ frame, (frames.foldl GuardStack.push stack).top? = some frame → P frame := by
  induction frames generalizing stack with
  | nil => exact hstack
  | cons pushed rest ih =>
    refine ih ?_ fun frame hframe => hframes frame (List.mem_cons_of_mem _ hframe)
    intro frame htop
    rw [GuardStack.top?_push] at htop
    exact Option.some.inj htop ▸ hframes pushed List.mem_cons_self

theorem top?_eq_find? (h : ∀ frame, stack.top? = some frame → frame.expiredAt line = false) :
    stack.top? = stack.find? (!·.expiredAt line) := by
  cases stack with
  | nil => rfl
  | cons top below => simp [GuardStack.top?, h top rfl]

/-! ## The rules of the lines -/

/-- The rule that an activation makes, or the default without one. -/
def ruleOf (default : Permission) (a? : Option Activation) : Rule :=
  (a?.map (Rule.ofFrame ·.frame)).getD (Rule.ofDefault default)

/-- Each rule of the walk is made by the last activation in force on its line,
among those that have taken place and those still to come. -/
theorem getElem?_rulesFrom (default : Permission) {pending : List Activation} {count index : Nat}
    (h : Remembers line done stack) (hsorted : pending.Pairwise (·.startLine ≤ ·.startLine))
    (hpending : ∀ a ∈ pending, line ≤ a.startLine) (hwell : ∀ a ∈ pending, a.WellFormed)
    (hindex : index < count) :
    (rulesFrom default stack pending line count)[index]? =
      some (ruleOf default (Activation.lastInForce? (line + index) (done ++ pending))) := by
  induction count generalizing line done stack pending index with
  | zero => omega
  | succ count ih =>
    obtain ⟨started, remaining, rfl, htake, hstarted, hremaining⟩ :=
      exists_started_remaining Activation.startLine hsorted line
    rw [rulesFrom, htake, List.drop_left]
    have hnext : Remembers line (done ++ started)
        ((started.map (·.frame)).foldl GuardStack.push (stack.expire line)) :=
      (h.expire (Nat.le_refl line)).foldl_push hstarted
        fun a ha => hwell a (List.mem_append_left _ ha)
    cases index with
    | zero =>
      -- What is on top has not expired: it has survived, or it starts on this line.
      have htop : ∀ frame, ((started.map (·.frame)).foldl GuardStack.push
          (stack.expire line)).top? = some frame → frame.expiredAt line = false := by
        refine top?_foldl_push (fun _ => GuardStack.not_expiredAt_of_top?) ?_
        intro frame hframe
        obtain ⟨a, ha, rfl⟩ := List.mem_map.mp hframe
        exact (hwell a (List.mem_append_left _ ha)).not_expiredAt
          (hpending a (List.mem_append_left _ ha))
      rw [List.getElem?_cons_zero, Rule.ofStack, top?_eq_find? htop,
        hnext.shows line (Nat.le_refl line), Nat.add_zero, ← List.append_assoc,
        Activation.lastInForce?_append_of_lt hremaining, Option.map_map]
      rfl
    | succ index =>
      -- What has started by now has taken place when the next line is reached.
      have hlater : Remembers (line + 1) (done ++ started) _ := hnext.mono (Nat.le_succ line)
      rw [List.getElem?_cons_succ, ih hlater (hsorted.sublist (List.sublist_append_right _ _))
        hremaining (fun a ha => hwell a (List.mem_append_right _ ha)) (by omega),
        List.append_assoc, show line + 1 + index = line + (index + 1) by omega]

variable {d : Document} {tags : List Tag} {scopes : List Scope}

/-- The region of a target that holds a line states what the last activation in
force on the line does. -/
theorem exists_filter_build_eq (defaults : Defaults) (target : Target)
    (hscopes : ∀ p ∈ tags.zip scopes, ∀ last, p.2.endLine = some last → p.2.startLine ≤ last)
    (hline : line < d.lineCount) :
    ∃ r, (build d tags scopes defaults).filter
        (fun r => r.target == target && r.contains line) = [r] ∧
      Rule.ofRegion r = ruleOf (defaults.get target)
        (Activation.lastInForce? line (Activation.inOrder d tags scopes target)) := by
  obtain ⟨r, hr⟩ := (tiles_buildFor d tags scopes defaults target).exists_filter_contains
    (Nat.zero_le line) hline
  refine ⟨r, (filter_contains_build d tags scopes defaults target line).trans hr, ?_⟩
  obtain ⟨hmem, hcontains⟩ := List.mem_filter.mp (hr ▸ List.mem_singleton_self r)
  have hrule := (rule_of_mem_ofRules hmem).2 line hcontains
  have hwell : ∀ a ∈ Activation.inOrder d tags scopes target, a.WellFormed := by
    intro a ha
    obtain ⟨tag, scope, hzip, _, rfl⟩ := Activation.mem_inOrder.mp ha
    exact Activation.wellFormed_ofTag d tags tag (hscopes (tag, scope) hzip)
  have hwalk := getElem?_rulesFrom (defaults.get target) remembers_nil
    Activation.pairwise_startLine_inOrder (fun _ _ => Nat.zero_le _) hwell hline
  rw [Nat.sub_zero, hwalk] at hrule
  simpa using (Option.some.inj hrule).symm

end Region

/-! ## The governing tag -/

namespace Tag

/-- The tags of a target with their scopes, in the order in which they take
effect: by the start of the scope, at one start by the line of the tag, and as
listed where both agree. -/
def inOrder (tags : List Tag) (scopes : List Scope) (target : Target) : List (Tag × Scope) :=
  ((tags.zip scopes).filter fun p => p.1.target == target).mergeSort fun p q =>
    p.2.startLine < q.2.startLine || (p.2.startLine == q.2.startLine && p.1.line ≤ q.1.line)

/-- A tag with its scope is in force on a line, given those that take effect
after it. -/
structure InForce (d : Document) (tags : List Tag) (line : Nat) (placed : Tag × Scope)
    (later : List (Tag × Scope)) : Prop where
  started : placed.2.startLine ≤ line
  /-- The end of a tag is that of its scope, or of its documentation block. -/
  lasting : ∀ last,
    (if placed.1.permission = .context then some (Activation.contextEnd d tags placed.2)
      else placed.2.endLine) = some last → line ≤ last
  uninterrupted : placed.1.permission = .context → ∀ next ∈ later, line < next.2.startLine

/-- Wherever a list is cut, the tag behind the cut is not in force. -/
def NoneInForce (d : Document) (tags : List Tag) (line : Nat) (order : List (Tag × Scope)) : Prop :=
  ∀ before placed later, order = before ++ placed :: later → ¬ InForce d tags line placed later

/-- What governs a line: the last tag in force, or the default where there is none. -/
inductive Governs (d : Document) (tags : List Tag) (default : Permission) (line : Nat) :
    List (Tag × Scope) → Rule → Prop
  | tag {before later : List (Tag × Scope)} {placed : Tag × Scope}
      (inForce : InForce d tags line placed later)
      (isLast : NoneInForce d tags line later) :
      Governs d tags default line (before ++ placed :: later)
        ⟨placed.1.permission, some placed.1.line, placed.1.permission.isContext⟩
  | default {order : List (Tag × Scope)} (noneInForce : NoneInForce d tags line order) :
      Governs d tags default line order ⟨default, none, false⟩

variable {d : Document} {tags : List Tag} {line : Nat} {placed : Tag × Scope}
  {order later : List (Tag × Scope)}

/-- Activations that start with the scopes of their tags are ordered as the tags are. -/
theorem mergeSort_map_stated {f : Tag × Scope → Activation}
    (hf : ∀ p, (f p).startLine = p.2.startLine ∧ (f p).frame.tagLine = p.1.line)
    (tags : List Tag) (scopes : List Scope) (target : Target) :
    (((tags.zip scopes).filter fun p => p.1.target == target).map f).mergeSort
        Activation.noLaterThan =
      (inOrder tags scopes target).map f := by
  refine (List.map_mergeSort fun p _ q _ => ?_).symm
  rw [Activation.noLaterThan, (hf p).1, (hf p).2, (hf q).1, (hf q).2]

theorem inOrder_activations (d : Document) (tags : List Tag) (scopes : List Scope)
    (target : Target) : Activation.inOrder d tags scopes target =
      (inOrder tags scopes target).map fun p => Activation.ofTag d tags p.1 p.2 :=
  mergeSort_map_stated (fun _ => ⟨rfl, rfl⟩) tags scopes target

theorem inForce_ofTag_iff : (Activation.ofTag d tags placed.1 placed.2).inForce
      (later.map fun p => Activation.ofTag d tags p.1 p.2) line = true ↔
    InForce d tags line placed later := by
  have hlasting : (Activation.ofTag d tags placed.1 placed.2).frame.expiredAt line = false ↔
      ∀ last, (if placed.1.permission = .context then
        some (Activation.contextEnd d tags placed.2) else placed.2.endLine) = some last →
          line ≤ last := by
    simp only [Frame.expiredAt, Activation.bound_ofTag, Option.any_eq_false,
      decide_eq_false_iff_not, Nat.not_lt]
  have huninterrupted : (later.map fun p => Activation.ofTag d tags p.1 p.2).any
      (·.startLine ≤ line) = false ↔ ∀ next ∈ later, line < next.2.startLine := by
    simp [Activation.ofTag]
  rw [Activation.inForce, Bool.and_eq_true, Bool.and_eq_true, decide_eq_true_eq,
    Bool.not_eq_true', hlasting]
  constructor
  · rintro ⟨⟨hstarted, hlasts⟩, hfree⟩
    refine ⟨hstarted, hlasts, fun hpermission => huninterrupted.mp ?_⟩
    simpa [Activation.ofTag, Permission.isContext_iff.mpr hpermission] using hfree
  · rintro ⟨hstarted, hlasts, hfree⟩
    refine ⟨⟨hstarted, hlasts⟩, ?_⟩
    by_cases hpermission : placed.1.permission = .context
    · rw [huninterrupted.mpr (hfree hpermission), Bool.and_false, Bool.not_false]
    · have hplain : placed.1.permission.isContext = false := by
        simpa using mt Permission.isContext_iff.mp hpermission
      simp [Activation.ofTag, hplain]

theorem noneInForce_cons : NoneInForce d tags line (placed :: order) ↔
    ¬ InForce d tags line placed order ∧ NoneInForce d tags line order := by
  constructor
  · intro h
    refine ⟨h [] placed order rfl, fun before next later heq => ?_⟩
    exact h (placed :: before) next later (by rw [heq, List.cons_append])
  · rintro ⟨hfirst, hrest⟩ before next later heq
    rcases List.cons_eq_append_iff.mp heq with ⟨rfl, hcons⟩ | ⟨before, rfl, happend⟩
    · obtain ⟨rfl, rfl⟩ := List.cons.inj hcons
      exact hfirst
    · exact hrest before next later happend

theorem lastInForce?_eq_none_iff :
    Activation.lastInForce? line (order.map fun p => Activation.ofTag d tags p.1 p.2) = none ↔
      NoneInForce d tags line order := by
  induction order with
  | nil => simp [Activation.lastInForce?, NoneInForce]
  | cons placed rest ih =>
    rw [List.map_cons, Activation.lastInForce?, Option.or_eq_none_iff, ih, noneInForce_cons,
      ← inForce_ofTag_iff, and_comm]
    simp

theorem exists_of_lastInForce? {a : Activation} (h : Activation.lastInForce? line
      (order.map fun p => Activation.ofTag d tags p.1 p.2) = some a) :
    ∃ before placed later, order = before ++ placed :: later ∧
      a = Activation.ofTag d tags placed.1 placed.2 ∧
      InForce d tags line placed later ∧ NoneInForce d tags line later := by
  induction order with
  | nil => cases h
  | cons placed rest ih =>
    rw [List.map_cons, Activation.lastInForce?] at h
    cases hrest : Activation.lastInForce? line
        (rest.map fun p => Activation.ofTag d tags p.1 p.2) with
    | some b =>
      rw [hrest, Option.some_or] at h
      obtain ⟨before, next, later, heq, ha, hnext⟩ := ih (hrest.trans h)
      exact ⟨placed :: before, next, later, by rw [heq, List.cons_append], ha, hnext⟩
    | none =>
      rw [hrest, Option.none_or] at h
      split at h
      · next hforce =>
        exact ⟨[], placed, rest, rfl, (Option.some.inj h).symm, inForce_ofTag_iff.mp hforce,
          lastInForce?_eq_none_iff.mp hrest⟩
      · cases h

/-- The last activation in force makes the rule that governs. -/
theorem governs_lastInForce? (default : Permission) :
    Governs d tags default line order (Region.ruleOf default
      (Activation.lastInForce? line (order.map fun p => Activation.ofTag d tags p.1 p.2))) := by
  cases hlast : Activation.lastInForce? line
      (order.map fun p => Activation.ofTag d tags p.1 p.2) with
  | none => exact .default (lastInForce?_eq_none_iff.mp hlast)
  | some a =>
    obtain ⟨before, placed, later, rfl, rfl, hforce, hnone⟩ := exists_of_lastInForce? hlast
    exact .tag hforce hnone

end Tag

/-- What a region states is what governs each of its lines. -/
theorem Region.governs_of_contains {scopes : List Scope} {defaults : Defaults} {r : Region}
    (hscopes : ∀ scope ∈ scopes, ∀ last, scope.endLine = some last → scope.startLine ≤ last)
    (hr : r ∈ build d tags scopes defaults) (hline : r.contains line = true) :
    Tag.Governs d tags (defaults.get r.target) line (Tag.inOrder tags scopes r.target)
      (Rule.ofRegion r) := by
  obtain ⟨s, hs, hrule⟩ := exists_filter_build_eq defaults r.target
    (fun p hp => hscopes p.2 (List.of_mem_zip hp).2) (lt_lineCount_of_contains hr hline)
  obtain rfl : r = s := List.mem_singleton.mp (hs ▸ List.mem_filter.mpr ⟨hr, by simp [hline]⟩)
  rw [hrule, Tag.inOrder_activations]
  exact Tag.governs_lastInForce? (defaults.get r.target)

/-- On every line of a document the region of a target states what the last tag in
force does, whether or not the scopes are nested. -/
theorem Region.exists_governed_by_last (d : Document) (tags : List Tag) (scopes : List Scope)
    (defaults : Defaults) (target : Target) (line : Nat)
    (hscopes : ∀ scope ∈ scopes, ∀ last, scope.endLine = some last → scope.startLine ≤ last)
    (hline : line < d.lineCount) :
    ∃ r, (build d tags scopes defaults).filter
        (fun r => r.target == target && r.contains line) = [r] ∧
      Tag.Governs d tags (defaults.get target) line (Tag.inOrder tags scopes target)
        ⟨r.permission, r.sourceLine, r.isContext⟩ := by
  obtain ⟨r, hr, hrule⟩ := exists_filter_build_eq defaults target
    (fun p hp => hscopes p.2 (List.of_mem_zip hp).2) hline
  refine ⟨r, hr, ?_⟩
  rw [show Rule.mk r.permission r.sourceLine r.isContext = Rule.ofRegion r from rfl, hrule,
    Tag.inOrder_activations]
  exact Tag.governs_lastInForce? (defaults.get target)

/-- Documentation inside a grant that a later grant crosses. -/
def crossingDocument : Document :=
  Document.ofText ("# @guard:ai:w.5\n# @guard:ai:context\n# why\nx = 1\n".toList ++
    "# @guard:ai:r.2\ny = 2\nz = 3\nw = 4".toList) (some "python".toList)

/-- The scopes of its tags. -/
def crossingScopes : List Scope :=
  [.bounded 0 ⟨0, 5, by decide⟩ .lineCount, .openEnded 1 .unbounded,
    .bounded 4 ⟨4, 6, by decide⟩ .lineCount]

theorem Region.exists_governed_by_last_crossing :
    (∀ scope ∈ crossingScopes, ∀ last, scope.endLine = some last → scope.startLine ≤ last) ∧
      2 < crossingDocument.lineCount ∧
      ∃ r, (build crossingDocument crossingDocument.tags crossingScopes .standard).filter
          (fun r => r.target == .ai && r.contains 2) = [r] ∧
        Tag.Governs crossingDocument crossingDocument.tags .read 2
          (Tag.inOrder crossingDocument.tags crossingScopes .ai)
          ⟨r.permission, r.sourceLine, r.isContext⟩ :=
  ⟨by decide, by decide +kernel,
    exists_governed_by_last crossingDocument crossingDocument.tags crossingScopes .standard .ai 2
      (by decide) (by decide +kernel)⟩

end LineGuard
