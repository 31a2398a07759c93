/-
# The grammar of tags as relations

`LineGuard.Tag.Grammar` reads a tag part by part, each part as long as it can. Here the
parts are described by what the text looks like: which pieces it is put together from,
and what may not come next. A reader and its description agree in both directions, so
whether a text holds a tag, and which, can be settled without following the reader.

The words up to the permission grant something to a target. What follows them decides
how far that goes, and whether the match makes sense at all.
-/

import LineGuard.Proofs.Tag.Reach
import Mathlib.Data.List.Basic

namespace LineGuard.Tag

variable {t rest word : Text} {line column : Nat}

/-! ## Words in any case -/

/-- Comparing without regard to case looks for a piece that is the word in lower case. -/
theorem afterWord?_eq_some_iff :
    afterWord? word t = some rest ↔ ∃ piece, t = piece ++ rest ∧ Text.lower piece = word := by
  induction word generalizing t with
  | nil =>
    constructor
    · intro h
      exact ⟨[], Option.some.inj h, rfl⟩
    · rintro ⟨piece, rfl, hpiece⟩
      rw [List.map_eq_nil_iff.mp hpiece]
      rfl
  | cons c word ih =>
    cases t with
    | nil =>
      constructor
      · intro h
        cases h
      · rintro ⟨piece, happend, hpiece⟩
        rw [(List.append_eq_nil_iff.mp happend.symm).1] at hpiece
        cases hpiece
    | cons d t =>
      rw [afterWord?]
      constructor
      · intro h
        split_ifs at h with hd
        obtain ⟨piece, rfl, hpiece⟩ := ih.mp h
        exact ⟨d :: piece, rfl, by rw [Text.lower, List.map_cons, hd, ← hpiece]; rfl⟩
      · rintro ⟨piece, happend, hpiece⟩
        cases piece with
        | nil => cases hpiece
        | cons e piece =>
          obtain ⟨rfl, rfl⟩ := List.cons.inj happend
          obtain ⟨he, hpiece⟩ := List.cons.inj hpiece
          rw [if_pos he]
          exact ih.mpr ⟨piece, rfl, hpiece⟩

theorem afterWord?_append {piece : Text} (h : Text.lower piece = word) :
    afterWord? word (piece ++ rest) = some rest :=
  afterWord?_eq_some_iff.mpr ⟨piece, rfl, h⟩

/-- What a word starts with is what the text starts with, in lower case. -/
theorem head?_of_afterWord? (hword : word ≠ []) (h : afterWord? word t = some rest) :
    t.head?.map Char.toLower = word.head? := by
  obtain ⟨piece, rfl, rfl⟩ := afterWord?_eq_some_iff.mp h
  cases piece with
  | nil => exact absurd rfl hword
  | cons c piece => rfl

/-- If only one element can give an answer, that is the first answer. -/
theorem findSome?_eq_some_of_unique {α β : Type} {f : α → Option β} {l : List α} {a : α} {b : β}
    (ha : a ∈ l) (hb : f a = some b) (hunique : ∀ x ∈ l, ∀ y, f x = some y → x = a) :
    l.findSome? f = some b := by
  cases hfound : l.findSome? f with
  | none =>
    have := List.findSome?_eq_none_iff.mp hfound a ha
    rw [hb] at this
    cases this
  | some y =>
    obtain ⟨x, hx, hy⟩ := List.exists_of_findSome?_eq_some hfound
    obtain rfl := hunique x hx y hy
    exact hy.symm.trans hb

/-- Of words told apart by their first letters at most one is there to be read. -/
theorem findSome?_afterWord?_eq_some_iff {α : Type} {all : List α} {name : α → Text} {a : α}
    (hall : ∀ a, a ∈ all) (hname : ∀ a, name a ≠ [])
    (hfirst : ∀ a b, (name a).head? = (name b).head? → a = b) :
    (all.findSome? fun a => (afterWord? (name a) t).map (a, ·)) = some (a, rest) ↔
      afterWord? (name a) t = some rest := by
  constructor
  · intro h
    obtain ⟨other, _, hother⟩ := List.exists_of_findSome?_eq_some h
    obtain ⟨left, hleft, heq⟩ := Option.map_eq_some_iff.mp hother
    obtain ⟨rfl, rfl⟩ := Prod.mk.inj heq
    exact hleft
  · intro h
    refine findSome?_eq_some_of_unique (hall a) (Option.map_eq_some_iff.mpr ⟨rest, h, rfl⟩) ?_
    intro other _ found hfound
    obtain ⟨left, hleft, _⟩ := Option.map_eq_some_iff.mp hfound
    apply hfirst
    rw [← head?_of_afterWord? (hname other) hleft, head?_of_afterWord? (hname a) h]

theorem readTarget?_eq_some_iff {target : Target} :
    readTarget? t = some (target, rest) ↔ afterWord? target.name t = some rest := by
  apply findSome?_afterWord?_eq_some_iff Target.mem_all
  · intro target
    cases target <;> decide
  · intro target other
    cases target <;> cases other <;> decide

theorem readPermission?_eq_some_iff {permission : Permission} :
    readPermission? t = some (permission, rest) ↔
      ∃ inner, t = ':' :: inner ∧ afterWord? permission.name inner = some rest := by
  have hread (inner : Text) :
      (Permission.all.findSome? fun permission =>
        (afterWord? permission.name inner).map (permission, ·)) = some (permission, rest) ↔
        afterWord? permission.name inner = some rest := by
    apply findSome?_afterWord?_eq_some_iff
    · intro permission
      cases permission <;> decide
    · intro permission
      cases permission <;> decide
    · intro permission other
      cases permission <;> cases other <;> decide
  unfold readPermission?
  split
  · next inner =>
    rw [hread]
    constructor
    · intro h
      exact ⟨inner, rfl, h⟩
    · rintro ⟨_, heq, h⟩
      obtain rfl := (List.cons.inj heq).2
      exact h
  · next hcolon =>
    constructor
    · intro h
      cases h
    · rintro ⟨inner, heq, _⟩
      exact absurd heq (hcolon inner)

/-! ## Identifiers -/

/-- An identifier in brackets, or nothing. -/
def brackets : Option Text → Text
  | some identifier => '[' :: identifier ++ [']']
  | none => []

/-- What may stand in brackets: something, up to the first bracket that closes. -/
def IsBracketed (bracketed : Option Text) : Prop :=
  ∀ identifier, bracketed = some identifier → identifier ≠ [] ∧ ']' ∉ identifier

/-- Nothing is lost in front of what follows the brackets. -/
theorem readBracketed_spec (t : Text) :
    t = brackets (readBracketed t).1 ++ (readBracketed t).2 ∧ IsBracketed (readBracketed t).1 := by
  have hnone : t = brackets none ++ t ∧ IsBracketed none := ⟨rfl, fun _ h => nomatch h⟩
  unfold readBracketed
  split
  · next inner =>
    split
    · next c identifier rest htake hdrop =>
      have hinner := List.takeWhile_append_dropWhile (p := (· != ']')) (l := inner)
      rw [htake, hdrop] at hinner
      refine ⟨by simp [brackets, ← hinner], fun id hid => ?_⟩
      obtain rfl := Option.some.inj hid
      refine ⟨by simp, fun hmem => ?_⟩
      rw [← htake] at hmem
      have := List.mem_takeWhile_imp hmem
      simp at this
    · exact hnone
  · exact hnone

/-- A bracket that opens is read as far as it goes, since a colon has to follow. -/
theorem readBracketed_append {bracketed : Option Text} (h : IsBracketed bracketed) :
    readBracketed (brackets bracketed ++ ':' :: rest) = (bracketed, ':' :: rest) := by
  cases bracketed with
  | none => rfl
  | some identifier =>
    obtain ⟨hne, hclosed⟩ := h identifier rfl
    have hopen : ∀ c ∈ identifier, (c != ']') = true := by
      intro c hc
      have hne : c ≠ ']' := fun heq => hclosed (heq ▸ hc)
      simpa using hne
    have hstops : Text.Stops (· != ']') (']' :: ':' :: rest) := by simp [Text.stops_cons]
    have htake := Text.takeWhile_append_of_stops hopen hstops
    have hdrop := Text.dropWhile_append_of_stops hopen hstops
    cases identifier with
    | nil => exact absurd rfl hne
    | cons c identifier =>
      have hshape : brackets (some (c :: identifier)) ++ ':' :: rest =
          '[' :: (c :: identifier ++ ']' :: ':' :: rest) := by
        simp [brackets]
      rw [hshape]
      simp only [readBracketed, htake, hdrop]

/-! ## Target, identifier and permission -/

/-- A text grants something: it goes on with the words of a tag in any case, up to the
permission. -/
inductive Grants : Text → Target → Option Text → Permission → Text → Prop
  | intro {opening targetWord permissionWord behind : Text} {target : Target}
      {bracketed : Option Text} {permission : Permission}
      (opening_eq : Text.lower opening = "@guard:".toList)
      (targetWord_eq : Text.lower targetWord = target.name)
      (isBracketed : IsBracketed bracketed)
      (permissionWord_eq : Text.lower permissionWord = permission.name) :
      Grants (opening ++ (targetWord ++ (brackets bracketed ++ ':' :: (permissionWord ++ behind))))
        target bracketed permission behind

variable {target : Target} {bracketed : Option Text} {permission : Permission} {behind : Text}

/-- The words of a tag are read one after the other. -/
theorem grants_iff : Grants t target bracketed permission behind ↔
    ∃ afterOpening afterTarget afterBrackets, afterWord? "@guard:".toList t = some afterOpening ∧
      readTarget? afterOpening = some (target, afterTarget) ∧
      readBracketed afterTarget = (bracketed, afterBrackets) ∧
      readPermission? afterBrackets = some (permission, behind) := by
  constructor
  · rintro ⟨hopening, htarget, hbracketed, hpermission⟩
    exact ⟨_, _, _, afterWord?_append hopening,
      readTarget?_eq_some_iff.mpr (afterWord?_append htarget), readBracketed_append hbracketed,
      readPermission?_eq_some_iff.mpr ⟨_, rfl, afterWord?_append hpermission⟩⟩
  · rintro ⟨afterOpening, afterTarget, afterBrackets, hread, htarget, hbrackets, hpermission⟩
    obtain ⟨opening, rfl, hopening⟩ := afterWord?_eq_some_iff.mp hread
    obtain ⟨targetWord, rfl, hword⟩ :=
      afterWord?_eq_some_iff.mp (readTarget?_eq_some_iff.mp htarget)
    obtain ⟨inner, rfl, hinner⟩ := readPermission?_eq_some_iff.mp hpermission
    obtain ⟨permissionWord, rfl, hname⟩ := afterWord?_eq_some_iff.mp hinner
    obtain ⟨hshape, hbracketed⟩ := readBracketed_spec afterTarget
    rw [hbrackets] at hshape hbracketed
    rw [hshape]
    exact .intro hopening hword hbracketed hname

/-- A text grants one thing at most. -/
theorem Grants.unique {target' : Target} {bracketed' : Option Text} {permission' : Permission}
    {behind' : Text} (h : Grants t target bracketed permission behind)
    (h' : Grants t target' bracketed' permission' behind') :
    target = target' ∧ bracketed = bracketed' ∧ permission = permission' ∧ behind = behind' := by
  obtain ⟨t₁, t₂, t₃, hopening, htarget, hbrackets, hpermission⟩ := grants_iff.mp h
  obtain ⟨u₁, u₂, u₃, hopening', htarget', hbrackets', hpermission'⟩ := grants_iff.mp h'
  obtain rfl := Option.some.inj (hopening.symm.trans hopening')
  obtain ⟨rfl, rfl⟩ := Prod.mk.inj (Option.some.inj (htarget.symm.trans htarget'))
  obtain ⟨rfl, rfl⟩ := Prod.mk.inj (hbrackets.symm.trans hbrackets')
  obtain ⟨rfl, rfl⟩ := Prod.mk.inj (Option.some.inj (hpermission.symm.trans hpermission'))
  exact ⟨rfl, rfl, rfl, rfl⟩

/-! ## Matches -/

/-- A match begins here: a mark, blanks, and the words of a tag. -/
def Opens (t : Text) (target : Target) (bracketed : Option Text) (permission : Permission)
    (behind : Text) : Prop :=
  ∃ mark ∈ marks, ∃ blanks words, t = mark ++ (blanks ++ words) ∧
    (∀ c ∈ blanks, Text.isBlank c = true) ∧ Grants words target bracketed permission behind

/-- The words of a tag begin with their at sign. -/
theorem Grants.exists_eq_cons (h : Grants t target bracketed permission behind) :
    ∃ more, t = '@' :: (more ++ behind) := by
  cases h with
  | @intro opening targetWord permissionWord _ _ _ _ hopening _ _ _ =>
    cases opening with
    | nil => cases hopening
    | cons c word =>
      obtain rfl : c = '@' := Text.eq_of_toLower_eq (List.cons.inj hopening).1 (by decide)
      exact ⟨word ++ (targetWord ++ (brackets bracketed ++ ':' :: permissionWord)), by simp⟩

/-- No mark begins another, so a text begins with one mark at most. -/
theorem eq_of_prefix_of_mem_marks :
    ∀ mark ∈ marks, ∀ other ∈ marks, mark <+: other → mark = other := by
  decide

theorem findSome?_marks_eq_some_iff :
    marks.findSome? (Text.after? · t) = some rest ↔ ∃ mark ∈ marks, t = mark ++ rest := by
  constructor
  · intro h
    obtain ⟨mark, hmark, hafter⟩ := List.exists_of_findSome?_eq_some h
    exact ⟨mark, hmark, (List.isPrefixOf?_eq_some_iff_append_eq.mp hafter).symm⟩
  · rintro ⟨mark, hmark, rfl⟩
    refine findSome?_eq_some_of_unique hmark (List.isPrefixOf?_eq_some_iff_append_eq.mpr rfl) ?_
    intro other hother left hleft
    have happend : other ++ left = mark ++ rest := List.isPrefixOf?_eq_some_iff_append_eq.mp hleft
    rcases List.prefix_or_prefix_of_prefix (happend ▸ List.prefix_append other left)
      (List.prefix_append mark rest) with hprefix | hprefix
    · exact eq_of_prefix_of_mem_marks other hother mark hmark hprefix
    · exact (eq_of_prefix_of_mem_marks mark hmark other hother hprefix).symm

/-- Reading a match takes its parts one after the other. -/
theorem readCandidate?_eq_some_iff {c : Candidate} {left : Text} :
    readCandidate? t = some (c, left) ↔ ∃ behind afterSuffix afterAdded,
      Opens t c.target c.bracketed c.permission behind ∧
        readSuffix behind = (c.suffix, afterSuffix) ∧
        readModifiers '+' afterSuffix = (c.added, afterAdded) ∧
        readModifiers '-' afterAdded = (c.removed, left) := by
  constructor
  · intro h
    simp only [readCandidate?, Option.bind_eq_bind, Option.bind_eq_some_iff] at h
    obtain ⟨inner, hmark, afterOpening, hopening, ⟨target, afterTarget⟩, htarget,
      ⟨permission, behind⟩, hpermission, heq⟩ := h
    obtain ⟨rfl, rfl⟩ := Prod.mk.inj (Option.some.inj heq)
    obtain ⟨mark, hmem, rfl⟩ := findSome?_marks_eq_some_iff.mp hmark
    refine ⟨behind, _, _, ⟨mark, hmem, inner.takeWhile Text.isBlank, inner.dropWhile Text.isBlank,
      ?_, fun c hc => List.mem_takeWhile_imp hc, ?_⟩, rfl, rfl, rfl⟩
    · rw [List.takeWhile_append_dropWhile]
    · exact grants_iff.mpr ⟨afterOpening, afterTarget, _, hopening, htarget, rfl, hpermission⟩
  · rintro ⟨behind, afterSuffix, afterAdded, hopens, hsuffix, hadded, hremoved⟩
    obtain ⟨mark, hmem, blanks, words, rfl, hblanks, hgrants⟩ := hopens
    obtain ⟨more, hat⟩ := hgrants.exists_eq_cons
    obtain ⟨afterOpening, afterTarget, afterBrackets, hopening, htarget, hbrackets, hpermission⟩ :=
      grants_iff.mp hgrants
    -- The blanks end at the at sign.
    have hwords : (blanks ++ words).dropWhile Text.isBlank = words :=
      Text.dropWhile_append_of_stops hblanks (hat ▸ Text.stops_cons.mpr (by decide))
    simp only [readCandidate?, findSome?_marks_eq_some_iff.mpr ⟨mark, hmem, rfl⟩, hwords, hopening,
      htarget, hbrackets, hpermission, hsuffix, hadded, hremoved, Option.bind_eq_bind,
      Option.bind_some, Option.pure_def]

/-! ## Tags -/

/-- A text begins with a tag, its place on the line aside. What the brackets hold is
trimmed, and nothing between blanks is no identifier. -/
def Reads (t : Text) (tag : Tag) : Prop :=
  ∃ bracketed behind, Opens t tag.target bracketed tag.permission behind ∧
    tag.identifier = (bracketed.map Text.trim).filter (!·.isEmpty) ∧ Reaches behind tag.reach

theorem Candidate.identifier_eq (c : Candidate) :
    c.identifier = (c.bracketed.map Text.trim).filter (!·.isEmpty) := by
  rw [Candidate.identifier]
  cases c.bracketed with
  | none => rfl
  | some raw =>
    rw [Option.bind_some, Option.map_some, Option.filter_some]
    cases Text.trim raw with
    | nil => rfl
    | cons d rest => rfl

theorem Candidate.tag?_eq_some_iff {c : Candidate} {tag : Tag} :
    c.tag? line column = some tag ↔ tag.line = line ∧ tag.column = column ∧
      tag.target = c.target ∧ tag.identifier = c.identifier ∧ tag.permission = c.permission ∧
      c.reach? = some tag.reach := by
  rw [Candidate.tag?, Option.map_eq_some_iff]
  constructor
  · rintro ⟨reach, hreach, rfl⟩
    exact ⟨rfl, rfl, rfl, rfl, rfl, hreach⟩
  · rintro ⟨rfl, rfl, htarget, hidentifier, hpermission, hreach⟩
    refine ⟨tag.reach, hreach, ?_⟩
    rw [← htarget, ← hidentifier, ← hpermission]

/-- Matches that make sense are the tags a text begins with. -/
theorem reads_iff {tag : Tag} : Reads t tag ↔
    ∃ c left, readCandidate? t = some (c, left) ∧ c.tag? tag.line tag.column = some tag := by
  constructor
  · rintro ⟨bracketed, behind, hopens, hidentifier, hreaches⟩
    let c : Candidate :=
      { target := tag.target, bracketed, permission := tag.permission
        suffix := (readSuffix behind).1
        added := (readModifiers '+' (readSuffix behind).2).1
        removed := (readModifiers '-' (readModifiers '+' (readSuffix behind).2).2).1 }
    refine ⟨c, _, readCandidate?_eq_some_iff.mpr ⟨behind, _, _, hopens, rfl, rfl, rfl⟩, ?_⟩
    have hreach : c.reach? = some tag.reach := (reach?_eq_some_iff rfl rfl rfl).mpr hreaches
    exact Candidate.tag?_eq_some_iff.mpr
      ⟨rfl, rfl, rfl, hidentifier.trans c.identifier_eq.symm, rfl, hreach⟩
  · rintro ⟨c, left, hread, htag⟩
    obtain ⟨behind, _, _, hopens, hsuffix, hadded, hremoved⟩ := readCandidate?_eq_some_iff.mp hread
    obtain ⟨-, -, htarget, hidentifier, hpermission, hreach⟩ := Candidate.tag?_eq_some_iff.mp htag
    rw [← htarget, ← hpermission] at hopens
    exact ⟨c.bracketed, behind, hopens, hidentifier.trans c.identifier_eq,
      (reach?_eq_some_iff hsuffix hadded hremoved).mp hreach⟩

/-- A text begins with one tag at most. -/
theorem Reads.eq {tag tag' : Tag} (h : Reads t tag) (h' : Reads t tag')
    (hline : tag.line = tag'.line) (hcolumn : tag.column = tag'.column) : tag = tag' := by
  obtain ⟨c, left, hread, htag⟩ := reads_iff.mp h
  obtain ⟨c', left', hread', htag'⟩ := reads_iff.mp h'
  obtain ⟨rfl, rfl⟩ := Prod.mk.inj (Option.some.inj (hread.symm.trans hread'))
  rw [hline, hcolumn, htag'] at htag
  exact (Option.some.inj htag).symm

end LineGuard.Tag
