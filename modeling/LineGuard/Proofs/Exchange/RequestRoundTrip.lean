/-
# Requests survive being written down

A request that is written and read again is the same request, whatever its texts hold
and as long as its numbers fit a machine word. The document is put together as JSON, so
two facts make this up: JSON that is written is read back, and the fields of a record
are found again in the members that were written for them.

Readers need not insist on the written form. Members that a reader knows may come in
any order, and members it does not know may stand anywhere, in the request and in each
of its entries: it is the same request all the same.
-/

import LineGuard.Exchange.Request
import LineGuard.Proofs.Json.Record
import LineGuard.Proofs.Json.RoundTrip

namespace LineGuard.Exchange

/-- The numbers of an entry are machine words. -/
structure Entry.Fits (e : Entry) : Prop where
  index_lt : e.index < Nat.pow 2 64
  declarationLine_lt : e.declarationLine < Nat.pow 2 64
  startLine_lt : e.startLine < Nat.pow 2 64
  endLine_lt : e.endLine < Nat.pow 2 64

/-- The numbers of a request are machine words. -/
structure Request.Fits (r : Request) : Prop where
  totalLines_lt : r.totalLines < Nat.pow 2 64
  entries_fit : ∀ e ∈ r.entries, e.Fits

/-! ## What is written -/

theorem Entry.isPlain_json (e : Entry) : e.json.IsPlain := by
  refine .record ?_
  cases e.identifier <;> simp [Json.isPlain_nat, Json.isPlain_text]

theorem Request.isPlain_json (r : Request) : r.json.IsPlain := by
  refine .record ?_
  have hentries : (Json.array (r.entries.map (·.json))).IsPlain := by
    refine .array fun item hitem => ?_
    obtain ⟨e, _, rfl⟩ := List.mem_map.mp hitem
    exact e.isPlain_json
  simp [Json.isPlain_nat, Json.isPlain_text, hentries]

/-! ## What is read -/

theorem Entry.fields?_json (e : Entry) : e.json.fields? fieldNames =
    some [some (.nat e.index), some (.text e.target.name), e.identifier.map .text,
      some (.text e.permission.name), some (.text e.reach), some (.nat e.declarationLine),
      some (.nat e.startLine), some (.nat e.endLine)] := by
  obtain ⟨index, target, identifier, permission, reach, declarationLine, startLine, endLine⟩ := e
  cases identifier <;> rfl

theorem Request.fields?_json (r : Request) : r.json.fields? fieldNames =
    some [some (.text r.version), some (.text r.filePath), some (.nat r.totalLines),
      some (.array (r.entries.map (·.json)))] := rfl

theorem Entry.ofJson?_json {e : Entry} (h : e.Fits) : ofJson? e.json = some e := by
  rw [ofJson?, fields?_json]
  obtain ⟨index, target, identifier, permission, reach, declarationLine, startLine, endLine⟩ := e
  obtain ⟨hindex, hdeclaration, hstart, hend⟩ := h
  cases identifier <;>
    simp [Json.nat?_nat, Json.text?_text, Json.nullable?_text, Json.constant?_text,
      Target.ofName?_name, Permission.ofName?_name, hindex, hdeclaration, hstart, hend]

theorem Request.ofJson?_json {r : Request} (h : r.Fits) : ofJson? r.json = some r := by
  rw [ofJson?, fields?_json]
  have hentries : (Json.array (r.entries.map (·.json))).list? Entry.ofJson? = some r.entries :=
    mapM_map_of_forall fun e he => Entry.ofJson?_json (h.entries_fit e he)
  simp [Json.nat?_nat, Json.text?_text, h.totalLines_lt, hentries]

theorem Request.parse_print {r : Request} (h : r.Fits) : parse r.print = .ok r := by
  rw [parse, print, r.isPlain_json.parse?_pretty, Option.bind_some, ofJson?_json h]

/-! ## The same request in other words -/

/-- Two ways of writing down one request: the members a reader knows are the same up to
their order, in the request and in its entries. -/
inductive SameRequest : Json → Json → Prop where
  | record {j j' : Json} (h : Json.SameRecord Request.fieldNames j j') : SameRequest j j'
  | entries (before after : List (Text × Json)) {items items' : List Json}
      (h : List.Forall₂ (Json.SameRecord Entry.fieldNames) items items') :
      SameRequest
        (Json.objectOf (before ++ ("guard_regions".toList, .array items) :: after))
        (Json.objectOf (before ++ ("guard_regions".toList, .array items') :: after))
  | trans {j j' j'' : Json} (first : SameRequest j j') (second : SameRequest j' j'') :
      SameRequest j j''

theorem Entry.ofJson?_eq_of_sameRecord {j j' : Json} (h : Json.SameRecord fieldNames j j') :
    ofJson? j = ofJson? j' := by
  rw [ofJson?, ofJson?, h.fields?_eq]

theorem mapM_ofJson?_eq {items items' : List Json}
    (h : List.Forall₂ (Json.SameRecord Entry.fieldNames) items items') :
    items.mapM Entry.ofJson? = items'.mapM Entry.ofJson? := by
  induction h with
  | nil => rfl
  | cons hitem _ ih =>
    rw [List.mapM_cons, List.mapM_cons, Entry.ofJson?_eq_of_sameRecord hitem, ih]

/-- Only the entries of two requests may differ as values, and then not as entries. -/
theorem ofJson?_objectOf_eq {members members' : List (Text × Json)}
    (hothers : ∀ name ≠ "guard_regions".toList,
      Json.field? members name = Json.field? members' name)
    (hentries : (Json.field? members "guard_regions".toList = none ∧
        Json.field? members' "guard_regions".toList = none) ∨
      ∃ j j', Json.field? members "guard_regions".toList = some (some j) ∧
        Json.field? members' "guard_regions".toList = some (some j') ∧
        j.list? Entry.ofJson? = j'.list? Entry.ofJson?) :
    Request.ofJson? (Json.objectOf members) = Request.ofJson? (Json.objectOf members') := by
  have hversion := hothers "version".toList (by decide)
  have hpath := hothers "file_path".toList (by decide)
  have htotal := hothers "total_lines".toList (by decide)
  simp only [Request.ofJson?, Json.fields?_objectOf, Request.fieldNames, List.map_cons,
    List.map_nil, List.mapM_cons, List.mapM_nil, hversion, hpath, htotal]
  rcases hentries with ⟨hnone, hnone'⟩ | ⟨j, j', hj, hj', hlist⟩
  · rw [hnone, hnone']
  · rw [hj, hj']
    cases Json.field? members' "version".toList with
    | none => rfl
    | some version =>
      cases Json.field? members' "file_path".toList with
      | none => rfl
      | some filePath =>
        cases Json.field? members' "total_lines".toList with
        | none => rfl
        | some totalLines =>
          cases filePath <;> cases totalLines <;> simp [hlist]

/-- A request has the same meaning however it is written down. -/
theorem SameRequest.ofJson?_eq {j j' : Json} (h : SameRequest j j') :
    Request.ofJson? j = Request.ofJson? j' := by
  induction h with
  | record h => rw [Request.ofJson?, Request.ofJson?, h.fields?_eq]
  | entries before after hitems =>
    refine ofJson?_objectOf_eq (fun name hname => Json.field?_replace_of_ne hname.symm) ?_
    rcases Json.field?_replace before after "guard_regions".toList with hnone | hsome
    · exact .inl ⟨hnone _, hnone _⟩
    · exact .inr ⟨_, _, hsome _, hsome _, mapM_ofJson?_eq hitems⟩
  | trans _ _ ih ih' => exact ih.trans ih'

/-- A request that is written is read back unchanged, and it is read as the same request
from every text that spells the same in other words. -/
theorem Request.parse_print_and_restated :
    (∀ r : Request, r.Fits → parse r.print = .ok r) ∧
    ∀ t t' j j', Json.parse? t = some j → Json.parse? t' = some j' → SameRequest j j' →
      parse t = parse t' := by
  refine ⟨fun _ => parse_print, fun t t' j j' hj hj' hsame => ?_⟩
  rw [parse, parse, hj, hj', Option.bind_some, Option.bind_some, hsame.ofJson?_eq]

/-- An entry without an identifier. -/
def unnamedEntry : Entry := ⟨7, .human, none, .write, "none".toList, 0, 3, 2⟩

/-- A request with texts that have to be escaped, the greatest numbers, and an entry
without an identifier. -/
def escapedRequest : Request where
  version := "2".toList
  filePath := "a\"b\\c\n\x01é.py".toList
  totalLines := 18446744073709551615
  entries :=
    [⟨0, .ai, some "x]\t".toList, .context, "block+class".toList, 1, 1, 18446744073709551615⟩,
      unnamedEntry]

/-- An object from behind, with a note in front. -/
def noted (members : List (Text × Json)) : Json :=
  .objectOf (("note".toList, .array [.null, .bool true]) :: members.reverse)

theorem sameRecord_noted {names : List Text} (h : "note".toList ∉ names)
    (members : List (Text × Json)) : Json.SameRecord names (.objectOf members) (noted members) := by
  refine .object ?_
  rw [Json.known, Json.known, List.filter_cons_of_neg (by simpa using h), List.filter_reverse]
  exact (List.reverse_perm _).symm

theorem isPlain_noted {members : List (Text × Json)} (h : ∀ member ∈ members, member.2.IsPlain) :
    (noted members).IsPlain := by
  refine .object fun member hmember => ?_
  obtain ⟨named, hnamed, rfl⟩ := List.mem_map.mp hmember
  rcases List.mem_cons.mp hnamed with rfl | hnamed
  · exact .array (by simp [Json.IsPlain.null, Json.IsPlain.bool])
  · exact h named (List.mem_reverse.mp hnamed)

/-- The members of the first entry. -/
def entryMembers : List (Text × Json) :=
  [("index".toList, .nat 0), ("target".toList, .text "ai".toList),
    ("identifier".toList, .text "x]\t".toList), ("permission".toList, .text "context".toList),
    ("scope".toList, .text "block+class".toList), ("declaration_line".toList, .nat 1),
    ("start_line".toList, .nat 1), ("end_line".toList, .nat 18446744073709551615)]

/-- The request with notes in it and in its first entry, and the members of both in
another order. -/
def notedRequest : Json :=
  noted [("version".toList, .text "2".toList),
    ("file_path".toList, .text "a\"b\\c\n\x01é.py".toList),
    ("total_lines".toList, .nat 18446744073709551615),
    ("guard_regions".toList, .array [noted entryMembers, unnamedEntry.json])]

theorem isPlain_notedRequest : notedRequest.IsPlain := by
  have hentries : (Json.array [noted entryMembers, unnamedEntry.json]).IsPlain := by
    refine .array ?_
    have hentry : (noted entryMembers).IsPlain :=
      isPlain_noted (by simp [entryMembers, Json.isPlain_nat, Json.isPlain_text])
    simp [hentry, Entry.isPlain_json]
  exact isPlain_noted (by simp [Json.isPlain_nat, Json.isPlain_text, hentries])

theorem sameRequest_notedRequest : SameRequest escapedRequest.json notedRequest := by
  have hentry : Json.SameRecord Entry.fieldNames (.objectOf entryMembers) (noted entryMembers) :=
    sameRecord_noted (by decide) entryMembers
  have hentries := SameRequest.entries
    [("version".toList, .text escapedRequest.version),
      ("file_path".toList, .text escapedRequest.filePath),
      ("total_lines".toList, .nat escapedRequest.totalLines)] []
    (.cons hentry (.cons (.refl unnamedEntry.json) .nil))
  exact hentries.trans (.record (sameRecord_noted (by decide) _))

theorem Request.parse_print_and_restated_noted :
    escapedRequest.Fits ∧ parse escapedRequest.print = .ok escapedRequest ∧
      Json.parse? escapedRequest.print = some escapedRequest.json ∧
      Json.parse? notedRequest.pretty = some notedRequest ∧
      SameRequest escapedRequest.json notedRequest ∧
      parse escapedRequest.print = parse notedRequest.pretty := by
  have hfits : escapedRequest.Fits := by
    refine ⟨by decide, fun e he => ?_⟩
    simp only [escapedRequest, List.mem_cons, List.not_mem_nil, or_false] at he
    rcases he with rfl | rfl <;> exact ⟨by decide, by decide, by decide, by decide⟩
  have hread := escapedRequest.isPlain_json.parse?_pretty
  have hnoted := isPlain_notedRequest.parse?_pretty
  exact ⟨hfits, parse_print_and_restated.1 _ hfits, hread, hnoted, sameRequest_notedRequest,
    parse_print_and_restated.2 _ _ _ _ hread hnoted sameRequest_notedRequest⟩

end LineGuard.Exchange
