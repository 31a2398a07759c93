/-
# Bodies by layout

Two shapes of bodies need no braces. Behind a header that ends in a colon the body is the run
of lines that are indented deeper, whatever they are: comments belong to it, and blank lines
inside it neither count nor end it. Behind a header that starts a keyword block the body goes
up to a line that reads `end` at the header's own indentation, and here only lines of code are
looked at.

Either way the ends are exact. In a list of lines in order, the run that is taken ends where
the first line outside it begins, and a line that is found has none like it in front.
-/

import LineGuard.Proofs.Construct.Measuring
import LineGuard.Proofs.Line.Kind
import LineGuard.Proofs.Text.Piece

namespace LineGuard

/-- A line is not blank throughout. -/
def Document.IsVisible (d : Document) (line : Nat) : Prop :=
  ∃ c ∈ d.line line, Text.isBlank c = false

theorem Text.isSome_firstVisible?_iff {t : Text} :
    (Text.firstVisible? t).isSome = true ↔ ∃ c ∈ t, isBlank c = false := by
  induction t with
  | nil => simp [firstVisible?]
  | cons c rest ih =>
    rw [firstVisible?]
    by_cases hc : isBlank c = true
    · simp [hc, ih]
    · simp [hc]

theorem Document.IsVisible.lt_lineCount {d : Document} {line : Nat} (h : d.IsVisible line) :
    line < d.lineCount := by
  obtain ⟨c, hc, -⟩ := h
  exact lt_lineCount_of_line_ne_nil (List.ne_nil_of_mem hc)

namespace Construct

/-- From one line to another run the lines behind a header line that are indented deeper than
`base`, up to the next that is not. Blank lines do not count. -/
structure IsDeeperRun (d : Document) (line base first last : Nat) : Prop where
  lt_first : line < first
  first_le_last : first ≤ last
  blank_before : ∀ l, line < l → l < first → ¬ d.IsVisible l
  visible_first : d.IsVisible first
  visible_last : d.IsVisible last
  deeper : ∀ l, first ≤ l → l ≤ last → d.IsVisible l → base < d.indentation l
  ends : ∀ next, last < next → d.IsVisible next →
    (∀ l, last < l → l < next → ¬ d.IsVisible l) → d.indentation next ≤ base

namespace Listing

variable {s : Listing} {header line base first last close : Nat}

/-- The lines behind a line that are not blank. -/
def visibleAfter (s : Listing) (line : Nat) : List Nat :=
  (s.linesAfter line).filter fun l => (s.document.firstVisible? l).isSome

theorem mem_visibleAfter {l : Nat} :
    l ∈ s.visibleAfter line ↔ line < l ∧ s.document.IsVisible l := by
  rw [visibleAfter, List.mem_filter]
  constructor
  · rintro ⟨hmem, hvisible⟩
    exact ⟨(mem_linesAfter.mp hmem).1, Text.isSome_firstVisible?_iff.mp hvisible⟩
  · rintro ⟨hlt, hvisible⟩
    exact ⟨mem_linesAfter.mpr ⟨hlt, hvisible.lt_lineCount⟩,
      Text.isSome_firstVisible?_iff.mpr hvisible⟩

theorem pairwise_visibleAfter (s : Listing) (line : Nat) :
    (s.visibleAfter line).Pairwise (· < ·) :=
  List.Pairwise.filter _ List.pairwise_lt_range'

/-- The lines that are not blank are taken as long as they are deeper. -/
theorem exists_of_indentedBody? (h : s.indentedBody? line base = some (first, last)) :
    ∃ body rest, s.visibleAfter line = body ++ rest ∧
      body.head? = some first ∧ body.getLast? = some last ∧
      (∀ l ∈ body, base < s.document.indentation l) ∧
      ∀ l, rest.head? = some l → s.document.indentation l ≤ base := by
  rw [indentedBody?, ← visibleAfter] at h
  obtain ⟨head, hhead, h⟩ := Option.bind_eq_some_iff.mp h
  obtain ⟨tail, htail, h⟩ := Option.map_eq_some_iff.mp h
  obtain ⟨rfl, rfl⟩ := Prod.mk.inj h
  refine ⟨_, _, List.takeWhile_append_dropWhile.symm, hhead, htail, fun l hl => ?_, fun l hl => ?_⟩
  · simpa using List.mem_takeWhile_imp hl
  · have hstop := List.head?_dropWhile_not
      (fun l => decide (base < s.document.indentation l)) (s.visibleAfter line)
    rw [hl] at hstop
    simpa using hstop

/-- An indented body is just the run of deeper lines. -/
theorem isDeeperRun_of_indentedBody? (h : s.indentedBody? line base = some (first, last)) :
    IsDeeperRun s.document line base first last := by
  obtain ⟨body, rest, hvisible, hfirst, hlast, hdeeper, hrest⟩ := exists_of_indentedBody? h
  have hordered := s.pairwise_visibleAfter line
  obtain ⟨tail, rfl⟩ := List.head?_eq_some_iff.mp hfirst
  obtain ⟨front, hfront⟩ := List.getLast?_eq_some_iff.mp hlast
  have hbehindFirst : s.visibleAfter line = [] ++ first :: (tail ++ rest) := hvisible
  have hbehindLast : s.visibleAfter line = front ++ last :: rest := by
    rw [hvisible, hfront, List.append_assoc, List.singleton_append]
  have hmemFirst : first ∈ s.visibleAfter line := by simp [hbehindFirst]
  have hmemLast : last ∈ s.visibleAfter line := by simp [hbehindLast]
  have hltLast := (mem_visibleAfter.mp hmemLast).1
  refine ⟨(mem_visibleAfter.mp hmemFirst).1, ?_, fun l hlt hbefore hl => ?_,
    (mem_visibleAfter.mp hmemFirst).2, (mem_visibleAfter.mp hmemLast).2,
    fun l hle hupTo hl => ?_, fun next hlt hnext hbetween => ?_⟩
  · by_contra hbefore
    exact List.not_mem_nil
      (mem_front_of_lt hordered hbehindFirst hmemLast (Nat.lt_of_not_le hbefore))
  · exact List.not_mem_nil
      (mem_front_of_lt hordered hbehindFirst (mem_visibleAfter.mpr ⟨hlt, hl⟩) hbefore)
  · refine hdeeper l ?_
    rw [hfront]
    rcases Nat.lt_or_eq_of_le hupTo with hbefore | rfl
    · have hline := Nat.lt_of_lt_of_le (mem_visibleAfter.mp hmemFirst).1 hle
      exact List.mem_append_left _
        (mem_front_of_lt hordered hbehindLast (mem_visibleAfter.mpr ⟨hline, hl⟩) hbefore)
    · exact List.mem_append_right _ List.mem_cons_self
  · have hline := Nat.lt_trans hltLast hlt
    have hmem := mem_behind_of_lt hordered hbehindLast (mem_visibleAfter.mpr ⟨hline, hnext⟩) hlt
    -- The first line that is left is not blank, so nothing but the next line can be it.
    obtain ⟨stop, more, rfl⟩ := List.exists_cons_of_ne_nil (List.ne_nil_of_mem hmem)
    obtain ⟨-, hbehind, -⟩ := List.pairwise_append.mp (hbehindLast ▸ hordered)
    obtain ⟨hafter, hstops⟩ := List.pairwise_cons.mp hbehind
    have hstop : s.document.IsVisible stop :=
      (mem_visibleAfter.mp (by simp [hbehindLast] : stop ∈ s.visibleAfter line)).2
    rcases List.mem_cons.mp hmem with rfl | hmore
    · exact hrest next rfl
    · exact absurd hstop (hbetween stop (hafter stop List.mem_cons_self)
        ((List.pairwise_cons.mp hstops).1 next hmore))

/-- Where the next line that is not blank is deeper, a body starts with it. -/
theorem exists_indentedBody?_eq (hlt : line < first) (hvisible : s.document.IsVisible first)
    (hblank : ∀ l, line < l → l < first → ¬ s.document.IsVisible l)
    (hdeeper : base < s.document.indentation first) :
    ∃ last, s.indentedBody? line base = some (first, last) := by
  have hmem := mem_visibleAfter.mpr ⟨hlt, hvisible⟩
  obtain ⟨head, rest, hlines⟩ := List.exists_cons_of_ne_nil (List.ne_nil_of_mem hmem)
  have hhead := mem_visibleAfter.mp (hlines ▸ List.mem_cons_self : head ∈ s.visibleAfter line)
  obtain rfl : head = first := by
    by_contra hne
    have hbehind := (List.mem_cons.mp (hlines ▸ hmem)).resolve_left (Ne.symm hne)
    have hordered := s.pairwise_visibleAfter line
    rw [hlines] at hordered
    exact hblank head hhead.1 ((List.pairwise_cons.mp hordered).1 first hbehind) hhead.2
  have hbody := List.takeWhile_cons_of_pos (l := rest)
    (p := fun l => decide (base < s.document.indentation l)) (decide_eq_true hdeeper)
  rw [indentedBody?, ← visibleAfter, hlines, hbody,
    List.getLast?_eq_some_getLast (List.cons_ne_nil _ _)]
  exact ⟨_, rfl⟩

/-! ## Closed by a keyword -/

/-- A text starts with the word `end`. -/
def ReadsEnd (t : Text) : Prop := ∃ rest, t = "end".toList ++ rest ∧ Text.Stops Text.isWordChar rest

theorem startsWithEnd_iff {t : Text} : startsWithEnd t = true ↔ ReadsEnd t := by
  have hword : (some 'd').any Text.isWordChar = true := by decide +kernel
  have hedge (rest : Text) :
      (Place.mk (some 'd') rest).atWordEdge = true ↔ Text.Stops Text.isWordChar rest := by
    rw [Place.atWordEdge, hword]
    cases rest <;> simp [Text.Stops]
  rw [startsWithEnd, Pattern.heads, Pattern.ends_both, Pattern.ends, Pattern.literalEnd?, ReadsEnd]
  simp only [Place.start]
  cases hafter : Text.after? "end".toList t with
  | none =>
    have hnot (rest : Text) : t ≠ "end".toList ++ rest := fun ht => by
      cases hafter.symm.trans (Text.after?_eq_some_iff.mpr ht)
    refine iff_of_false (by simp) ?_
    rintro ⟨rest, ht, -⟩
    exact hnot rest ht
  | some rest =>
    obtain rfl := Text.after?_eq_some_iff.mp hafter
    have hends : Pattern.wordEdge.ends ⟨some 'd', rest⟩ ≠ [] ↔ Text.Stops Text.isWordChar rest := by
      rw [← hedge, Pattern.ends]
      simp
    simpa using hends

/-- A line of code reads `end` at the indentation of a header, and no line of code before it is
indented less or does so too. -/
structure IsFirstEnd (s : Listing) (header base close : Nat) : Prop where
  lt_close : header < close
  isCode : s.document.isCode close = true
  indentation_eq : s.document.indentation close = base
  readsEnd : ReadsEnd (Text.trim (s.text close))
  deep : ∀ l, header < l → l < close → s.document.isCode l = true →
    base ≤ s.document.indentation l
  first : ∀ l, header < l → l < close → s.document.isCode l = true →
    s.document.indentation l = base → ¬ ReadsEnd (Text.trim (s.text l))

/-- A keyword block is closed by the first line that reads `end` for it. -/
theorem isFirstEnd_of_keywordEnd? (h : s.keywordEnd? header base = some close) :
    s.IsFirstEnd header base close := by
  obtain ⟨hfind, hbase⟩ := Option.filter_eq_some_iff.mp h
  obtain ⟨hstop, front, behind, hlines, hfront⟩ := List.find?_eq_some_iff_append.mp hfind
  rw [beq_iff_eq] at hbase
  obtain ⟨hclose, hcode⟩ := List.mem_filter.mp (List.mem_of_find?_eq_some hfind)
  obtain ⟨hlt, hcount⟩ := mem_linesAfter.mp hclose
  have hpasses {l : Nat} (hl : header < l) (hbefore : l < close)
      (hcode : s.document.isCode l = true) :
      ¬ s.document.indentation l < base ∧
        (s.document.indentation l = base → ¬ ReadsEnd (Text.trim (s.text l))) := by
    have hmem : l ∈ s.codeAfter header :=
      List.mem_filter.mpr ⟨mem_linesAfter.mpr ⟨hl, Nat.lt_trans hbefore hcount⟩, hcode⟩
    have hnot := hfront l (mem_front_of_lt (s.pairwise_codeAfter header) hlines hmem hbefore)
    simp only [Bool.not_eq_true', Bool.or_eq_false_iff, decide_eq_false_iff_not] at hnot
    refine ⟨hnot.1, fun hsame hreads => ?_⟩
    have hends := startsWithEnd_iff.mpr hreads
    simp [hsame, hends] at hnot
  refine ⟨hlt, hcode, hbase, ?_, fun l hl hbefore hcode => ?_, fun l hl hbefore hcode => ?_⟩
  · simpa [hbase, startsWithEnd_iff] using hstop
  · exact Nat.le_of_not_lt (hpasses hl hbefore hcode).1
  · exact (hpasses hl hbefore hcode).2

/-! ## What is measured -/

/-- A body that needs no braces comes from a line that measuring stops at. -/
theorem exists_stopsAt_of_body {body : Body} (hbody : (s.measure header).body = some body)
    (hlayout : body.isBraces = false) :
    ∃ line, s.StopsAt header line ∧ s.SettlesAs header line (s.bare line) (s.measure header) := by
  have hends := s.endsAs_measure header
  generalize s.measure header = c at hbody hends
  cases hends with
  | settles hlines hpasses hbare hread hsettled hsettle =>
    exact ⟨_, hpasses.stopsAt hlines hbare hread hsettled hsettle, settlesAs_of_settle? hsettle⟩
  | closes => cases hbody; cases hlayout
  | runsOutInBody => cases hbody; cases hlayout
  | runsOut => cases hbody

theorem isDeeperRun_measure (hbody : (s.measure header).body = some (.indented first last)) :
    ∃ line, s.measure header = ⟨header, line, some (.indented first last), last⟩ ∧
      s.StopsAt header line ∧ (s.bare line).getLast? = some ':' ∧
      IsOutside (s.readUpTo header line) ∧
      IsDeeperRun s.document line (s.document.indentation header) first last := by
  obtain ⟨line, hstops, hsettles⟩ := exists_stopsAt_of_body hbody rfl
  generalize s.measure header = c at hbody hsettles
  cases hsettles with
  | indented hcolon hrun =>
    cases hbody
    refine ⟨line, rfl, hstops, hcolon, ?_, isDeeperRun_of_indentedBody? hrun⟩
    by_contra hopen
    exact hstops.not_goesOn (.inr (.inl hopen))
  | keyword => cases hbody
  | statement => cases hbody

theorem isFirstEnd_measure (hbody : (s.measure header).body = some (.keyword close)) :
    s.measure header = ⟨header, header, some (.keyword close), close⟩ ∧
      s.IsFirstEnd header (s.document.indentation header) close := by
  obtain ⟨line, -, hsettles⟩ := exists_stopsAt_of_body hbody rfl
  generalize s.measure header = c at hbody hsettles
  cases hsettles with
  | indented => cases hbody
  | keyword hline hclose =>
    cases hbody
    subst hline
    exact ⟨rfl, isFirstEnd_of_keywordEnd? hclose⟩
  | statement => cases hbody

theorem StopsAt.measure_eq_indented (hstops : s.StopsAt header line)
    (hcolon : (s.bare line).getLast? = some ':')
    (hrun : s.indentedBody? line (s.document.indentation header) = some (first, last)) :
    s.measure header = ⟨header, line, some (.indented first last), last⟩ := by
  have hsettle := hstops.settle?_eq
  rw [settle?, if_pos hcolon, hrun] at hsettle
  exact (Option.some.inj hsettle).symm

/-- A body that is indented or closed by a keyword has just the lines that the layout gives it,
and where measuring stops at a colon with deeper lines behind it, they are the body. -/
theorem extents_measure (s : Listing) (header : Nat) :
    (∀ first last, (s.measure header).body = some (.indented first last) →
      ∃ line, s.measure header = ⟨header, line, some (.indented first last), last⟩ ∧
        s.StopsAt header line ∧ (s.bare line).getLast? = some ':' ∧
        IsOutside (s.readUpTo header line) ∧
        IsDeeperRun s.document line (s.document.indentation header) first last) ∧
    (∀ line next, s.StopsAt header line → (s.bare line).getLast? = some ':' →
      line < next → s.document.IsVisible next →
      (∀ l, line < l → l < next → ¬ s.document.IsVisible l) →
      s.document.indentation header < s.document.indentation next →
      ∃ last, s.measure header = ⟨header, line, some (.indented next last), last⟩) ∧
    ∀ close, (s.measure header).body = some (.keyword close) →
      s.measure header = ⟨header, header, some (.keyword close), close⟩ ∧
        s.IsFirstEnd header (s.document.indentation header) close := by
  refine ⟨fun first last => isDeeperRun_measure, fun line next hstops hcolon hlt hvisible hblank
    hdeeper => ?_, fun close => isFirstEnd_measure⟩
  obtain ⟨last, hrun⟩ := exists_indentedBody?_eq hlt hvisible hblank hdeeper
  exact ⟨last, hstops.measure_eq_indented hcolon hrun⟩

/-- Bodies of both shapes, with blank lines and comments in them. -/
def layoutListing : Listing where
  document := .ofText
    ("def f(a,\n  b):\n\n".toList ++ "  # c\n    x\n\n".toList ++ "  y\n \nz\n".toList ++
      "def g\n  end\n# end\n".toList ++ "x\nend_of\nend.h\nend".toList) none
  cut := none

theorem extents_measure_layoutListing :
    (layoutListing.measure 0 = ⟨0, 1, some (.indented 3 6), 6⟩ ∧
      layoutListing.measure 9 = ⟨9, 9, some (.keyword 14), 14⟩) ∧
      (∃ last, layoutListing.measure 0 = ⟨0, 1, some (.indented 3 last), last⟩) ∧
      IsDeeperRun layoutListing.document 1 0 3 6 ∧ layoutListing.IsFirstEnd 9 0 14 := by
  have hindented : layoutListing.measure 0 = ⟨0, 1, some (.indented 3 6), 6⟩ := by decide +kernel
  have hkeyword : layoutListing.measure 9 = ⟨9, 9, some (.keyword 14), 14⟩ := by decide +kernel
  have hbase : layoutListing.document.indentation 0 = 0 := by decide +kernel
  have hbase' : layoutListing.document.indentation 9 = 0 := by decide +kernel
  obtain ⟨hrun, hconverse, -⟩ := layoutListing.extents_measure 0
  obtain ⟨-, -, hend⟩ := layoutListing.extents_measure 9
  obtain ⟨line, hmeasure, hstops, hcolon, -, hdeeper⟩ := hrun 3 6 (by rw [hindented])
  obtain ⟨-, hfirstEnd⟩ := hend 14 (by rw [hkeyword])
  obtain ⟨-, rfl, -⟩ := Construct.mk.inj (hindented.symm.trans hmeasure)
  rw [hbase] at hdeeper
  rw [hbase'] at hfirstEnd
  refine ⟨⟨hindented, hkeyword⟩, ?_, hdeeper, hfirstEnd⟩
  exact hconverse 1 3 hstops hcolon hdeeper.lt_first hdeeper.visible_first hdeeper.blank_before
    (hbase ▸ hdeeper.deeper 3 (Nat.le_refl _) hdeeper.first_le_last hdeeper.visible_first)

end Listing

end Construct

end LineGuard
