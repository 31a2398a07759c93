/-
# What is written can be read

A value is written as a row of tokens with blanks in between. Scanning forgets the
blanks and gives the row back; reading the row builds the value. Both halves are said
for a value in front of anything else, since that is how values stand inside others:
the scan goes on with what follows, and the reader goes on with the containers that
were open before.

Numbers that are not natural are kept as they were written and never written anew by
this library, so the values here have only natural ones.
-/

import LineGuard.Json.Reader
import LineGuard.Proofs.Json.Scan

namespace LineGuard.Json

open Token (scan)

/-- A value in which every number is a natural number. -/
inductive IsPlain : Json → Prop where
  | null : IsPlain .null
  | bool (value : Bool) : IsPlain (.bool value)
  | natural (n : Nat) : IsPlain (.number (.natural n))
  | string (s : Option Text) : IsPlain (.string s)
  | array {items : List Json} (items_isPlain : ∀ item ∈ items, IsPlain item) :
      IsPlain (.array items)
  | object {members : List (Option Text × Json)}
      (members_isPlain : ∀ member ∈ members, IsPlain member.2) : IsPlain (.object members)

theorem isPlain_nat (n : Nat) : (nat n).IsPlain := .natural n

theorem isPlain_text (t : Text) : (text t).IsPlain := .string (some t)

theorem IsPlain.record {members : List (String × Json)}
    (h : ∀ member ∈ members, member.2.IsPlain) : (record members).IsPlain := by
  refine .object fun member hmember => ?_
  obtain ⟨named, hnamed, rfl⟩ := List.mem_map.mp hmember
  exact h named hnamed

mutual

/-- The tokens of a value. -/
def tokens : Json → List Token
  | null => [.null]
  | bool true => [.true]
  | bool false => [.false]
  | number n => [.number n]
  | string s => [.string s]
  | array [] => [.openBracket, .closeBracket]
  | array (item :: items) => .openBracket :: tokens item ++ itemTokens items ++ [.closeBracket]
  | object [] => [.openBrace, .closeBrace]
  | object ((name, value) :: members) =>
    .openBrace :: .string name :: .colon :: tokens value ++ memberTokens members ++ [.closeBrace]

/-- The tokens of the items behind the first. -/
def itemTokens : List Json → List Token
  | [] => []
  | item :: items => .comma :: tokens item ++ itemTokens items

/-- The tokens of the members behind the first. -/
def memberTokens : List (Option Text × Json) → List Token
  | [] => []
  | (name, value) :: members =>
    .comma :: .string name :: .colon :: tokens value ++ memberTokens members

end

/-! ## Scanning what is written -/

/-- In front of anything that ends it, a piece of text is scanned as some tokens. -/
def ScansAs (piece : Text) (tokens : List Token) : Prop :=
  ∀ rest, Ends rest → scan (piece ++ rest) = (scan rest).map (tokens ++ ·)

variable {depth : Nat} {items : List Json} {members : List (Option Text × Json)} {rest : Text}

theorem ends_newline_append (depth : Nat) (t : Text) : Ends (newline depth ++ t) :=
  ends_cons rfl rfl

theorem ends_prettyItems_append (depth : Nat) (items : List Json) (h : Ends rest) :
    Ends (prettyItems depth items ++ rest) := by
  cases items with
  | nil => exact h
  | cons item items => exact ends_cons rfl rfl

theorem ends_prettyMembers_append (depth : Nat) (members : List (Option Text × Json))
    (h : Ends rest) : Ends (prettyMembers depth members ++ rest) := by
  cases members with
  | nil => exact h
  | cons member members => exact ends_cons rfl rfl

theorem scansAs_prettyItems
    (h : ∀ item ∈ items, ScansAs (prettyAt depth item) item.tokens) :
    ScansAs (prettyItems depth items) (itemTokens items) := by
  induction items with
  | nil => exact fun rest _ => by simp [prettyItems, itemTokens]
  | cons item items ih =>
    intro rest hrest
    have hitem := h item List.mem_cons_self _ (ends_prettyItems_append depth items hrest)
    have hitems := ih (fun other hother => h other (List.mem_cons_of_mem _ hother)) rest hrest
    simp only [prettyItems, itemTokens, List.cons_append, List.append_assoc]
    rw [scan_cons rfl rfl, scan_newline_append, hitem, hitems]
    simp [Option.map_map, Function.comp_def]

/-- The colon and the space behind a name. -/
theorem scan_colon_append (t : Text) :
    scan (": ".toList ++ t) = (scan t).map (.colon :: ·) := by
  have hcolon : ": ".toList ++ t = ':' :: ([' '] ++ t) := rfl
  rw [hcolon, scan_cons rfl rfl, scan_append_of_isBlank (List.forall_mem_singleton.mpr rfl)]

theorem scansAs_prettyMembers
    (h : ∀ member ∈ members, ScansAs (prettyAt depth member.2) member.2.tokens) :
    ScansAs (prettyMembers depth members) (memberTokens members) := by
  induction members with
  | nil => exact fun rest _ => by simp [prettyMembers, memberTokens]
  | cons member members ih =>
    obtain ⟨name, value⟩ := member
    intro rest hrest
    have hvalue := h (name, value) List.mem_cons_self _
      (ends_prettyMembers_append depth members hrest)
    have hmembers := ih (fun other hother => h other (List.mem_cons_of_mem _ hother)) rest hrest
    simp only [prettyMembers, memberTokens, List.cons_append, List.append_assoc]
    rw [scan_cons rfl rfl, scan_newline_append, scan_quote_append, scan_colon_append, hvalue,
      hmembers]
    simp [Option.map_map, Function.comp_def]

/-- Scanning what a value is written as gives its tokens. -/
theorem IsPlain.scansAs_prettyAt {j : Json} (h : j.IsPlain) (depth : Nat) :
    ScansAs (prettyAt depth j) j.tokens := by
  induction h generalizing depth with
  | null => exact fun rest hrest => scan_word_append rfl rfl rfl hrest
  | bool value =>
    cases value with
    | true => exact fun rest hrest => scan_word_append rfl rfl rfl hrest
    | false => exact fun rest hrest => scan_word_append rfl rfl rfl hrest
  | natural n => exact fun rest hrest => scan_numeral_append n hrest
  | string s => exact fun rest _ => scan_quote_append s rest
  | @array items _ ih =>
    intro rest hrest
    cases items with
    | nil =>
      have hbrackets : prettyAt depth (Json.array []) ++ rest = '[' :: ']' :: rest := rfl
      rw [hbrackets, scan_cons rfl rfl, scan_cons rfl rfl, Option.map_map]
      rfl
    | cons item items =>
      have hclose := ends_newline_append depth (']' :: rest)
      have hitem := ih item List.mem_cons_self (depth + 1) _
        (ends_prettyItems_append (depth + 1) items hclose)
      have hitems := scansAs_prettyItems
        (fun other hother => ih other (List.mem_cons_of_mem _ hother) (depth + 1)) _ hclose
      simp only [prettyAt, tokens, List.cons_append, List.append_assoc, List.nil_append]
      rw [scan_cons rfl rfl, scan_newline_append, hitem, hitems, scan_newline_append,
        scan_cons rfl rfl]
      simp [Option.map_map, Function.comp_def]
  | @object members _ ih =>
    intro rest hrest
    cases members with
    | nil =>
      have hbraces : prettyAt depth (Json.object []) ++ rest = '{' :: '}' :: rest := rfl
      rw [hbraces, scan_cons rfl rfl, scan_cons rfl rfl, Option.map_map]
      rfl
    | cons member members =>
      obtain ⟨name, value⟩ := member
      have hclose := ends_newline_append depth ('}' :: rest)
      have hvalue := ih (name, value) List.mem_cons_self (depth + 1) _
        (ends_prettyMembers_append (depth + 1) members hclose)
      have hmembers := scansAs_prettyMembers
        (fun other hother => ih other (List.mem_cons_of_mem _ hother) (depth + 1)) _ hclose
      simp only [prettyAt, tokens, List.cons_append, List.append_assoc, List.nil_append]
      rw [scan_cons rfl rfl, scan_newline_append, scan_quote_append, scan_colon_append, hvalue,
        hmembers, scan_newline_append, scan_cons rfl rfl]
      simp [Option.map_map, Function.comp_def]

/-! ## Reading the tokens of a value -/

open Progress (step)

/-- Where a value is expected, reading some tokens makes the value. -/
def Makes (tokens : List Token) (j : Json) : Prop :=
  ∀ containers more, (tokens ++ more).foldlM step ⟨.value, containers⟩ =
    more.foldlM step ⟨.next j, containers⟩

/-- No value begins with the bracket that would end an empty array. -/
theorem exists_tokens_eq_cons (j : Json) : ∃ token more,
    j.tokens = token :: more ∧ token ≠ .closeBracket := by
  unfold tokens
  split <;> exact ⟨_, _, rfl, by simp⟩

/-- The first item of an array is read like any value. -/
theorem foldlM_firstItem (item : Json) (more : List Token) (containers : List Container) :
    (item.tokens ++ more).foldlM step ⟨.firstItem, containers⟩ =
      (item.tokens ++ more).foldlM step ⟨.value, .array [] :: containers⟩ := by
  obtain ⟨token, others, heq, hne⟩ := item.exists_tokens_eq_cons
  rw [heq, List.cons_append, List.foldlM_cons, List.foldlM_cons]
  cases token with
  | closeBracket => exact absurd rfl hne
  | _ => rfl

theorem foldlM_itemTokens (h : ∀ item ∈ items, Makes item.tokens item) (done : Json)
    (before : List Json) (containers : List Container) (more : List Token) :
    (itemTokens items ++ .closeBracket :: more).foldlM step
        ⟨.next done, .array before :: containers⟩ =
      more.foldlM step ⟨.next (.array ((done :: before).reverse ++ items)), containers⟩ := by
  induction items generalizing done before with
  | nil =>
    rw [List.append_nil]
    rfl
  | cons item items ih =>
    have hitems := ih (fun other hother => h other (List.mem_cons_of_mem _ hother)) item
      (done :: before)
    rw [itemTokens, List.cons_append, List.cons_append, List.append_assoc]
    refine (h item List.mem_cons_self (.array (done :: before) :: containers) _).trans ?_
    rw [hitems, List.reverse_cons, List.append_assoc, List.singleton_append]

theorem foldlM_memberTokens (h : ∀ member ∈ members, Makes member.2.tokens member.2)
    (name : Option Text) (done : Json) (before : List (Option Text × Json))
    (containers : List Container) (more : List Token) :
    (memberTokens members ++ .closeBrace :: more).foldlM step
        ⟨.next done, .object before name :: containers⟩ =
      more.foldlM step
        ⟨.next (.object (((name, done) :: before).reverse ++ members)), containers⟩ := by
  induction members generalizing name done before with
  | nil =>
    rw [List.append_nil]
    rfl
  | cons member members ih =>
    obtain ⟨next, value⟩ := member
    have hmembers := ih (fun other hother => h other (List.mem_cons_of_mem _ hother)) next value
      ((name, done) :: before)
    rw [memberTokens]
    simp only [List.cons_append, List.append_assoc]
    refine (h (next, value) List.mem_cons_self
      (.object ((name, done) :: before) next :: containers) _).trans ?_
    rw [hmembers, List.reverse_cons, List.append_assoc, List.singleton_append]

/-- Reading the tokens of a value makes the value. -/
theorem IsPlain.makes {j : Json} (h : j.IsPlain) : Makes j.tokens j := by
  induction h with
  | null => exact fun _ _ => rfl
  | bool value => cases value <;> exact fun _ _ => rfl
  | natural n => exact fun _ _ => rfl
  | string s => exact fun _ _ => rfl
  | @array items _ ih =>
    intro containers more
    cases items with
    | nil => rfl
    | cons item items =>
      have hitems := foldlM_itemTokens
        (fun other hother => ih other (List.mem_cons_of_mem _ hother)) item [] containers more
      simp only [tokens, List.cons_append, List.append_assoc, List.nil_append]
      refine (foldlM_firstItem item _ containers).trans ?_
      exact (ih item List.mem_cons_self _ _).trans hitems
  | @object members _ ih =>
    intro containers more
    cases members with
    | nil => rfl
    | cons member members =>
      obtain ⟨name, value⟩ := member
      have hmembers := foldlM_memberTokens
        (fun other hother => ih other (List.mem_cons_of_mem _ hother)) name value [] containers more
      simp only [tokens, List.cons_append, List.append_assoc, List.nil_append]
      exact (ih (name, value) List.mem_cons_self (.object [] name :: containers) _).trans hmembers

/-- A value that was written is read back. -/
theorem IsPlain.parse?_pretty {j : Json} (h : j.IsPlain) : parse? j.pretty = some j := by
  have hscan := h.scansAs_prettyAt 0 [] ends_nil
  have hmakes := h.makes [] []
  rw [List.append_nil] at hscan hmakes
  have hend : scan [] = some [] := rfl
  rw [hend, Option.map_some, List.append_nil] at hscan
  rw [parse?, pretty, hscan, Option.bind_some, ofTokens?, hmakes]
  rfl

end LineGuard.Json
