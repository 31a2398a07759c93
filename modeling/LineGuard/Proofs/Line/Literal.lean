/-
# String literals and trailing comments

A line of code is searched for marks that open a block, and the search takes the line as it
is. It finds the marks inside a string literal and behind the slashes of a trailing comment
too, where they open nothing.

So the text of a literal and of a comment decides how the lines behind are read. What the text
has to be for them to be read as if the line were not there is said here, for lines of plain
code with one literal and with or without a comment at the end: triple quotes are paired in
the comment, and the last mark of a block comment has its closing mark behind it.
-/

import LineGuard.Proofs.Line.Block

namespace LineGuard

namespace LineKind

/-- A character that neither quotes nor marks of block comments are made of. -/
def IsPlain (c : Char) : Prop := c ∉ ['"', '\'', '/', '*']

/-- A line of code with one string literal in it: plain code that begins with a letter, or with
anything else that does not begin a comment, then a literal without quotes inside, plain code
again, and possibly a comment. -/
structure LiteralLine where
  first : Char
  before : Text
  literal : Text
  behind : Text
  trailing : Text
  visible : Text.isBlank first = false
  first_notMem : first ∉ ['#', '-', '<']
  plain : ∀ c ∈ first :: (before ++ behind), IsPlain c
  unquoted : '"' ∉ literal ∧ '\'' ∉ literal
  comment : trailing = [] ∨ ∃ rest, trailing = '/' :: '/' :: rest

/-- Whether the last mark that opens a block comment has a closing mark behind it. -/
def closesComments (t : Text) : Bool :=
  (Text.afterLast? "/*".toList t).all (Text.includes "*/".toList)

namespace LiteralLine

/-- The line up to the end of the literal. -/
def quoted (l : LiteralLine) : Text := l.first :: (l.before ++ '"' :: (l.literal ++ ['"']))

/-- The whole line. -/
def text (l : LiteralLine) : Text := l.quoted ++ (l.behind ++ l.trailing)

/-- The literal and the comment leave nothing open if they are read as code. -/
structure ReadsClosed (l : LiteralLine) : Prop where
  quotes : ∀ quotes ∈ tripleQuotes, Text.occurrences quotes l.trailing % 2 = 0
  comment : closesComments (l.literal ++ '"' :: l.trailing) = true

end LiteralLine

/-! ## What a line of code leaves open -/

variable {comments : CommentSyntax} {c : Char} {quotes s t behind : Text}

theorem openedByCode_eq_outside_iff : openedByCode t = .outside ↔
    (∀ quotes ∈ tripleQuotes, Text.occurrences quotes t % 2 = 0) ∧ closesComments t = true := by
  rw [openedByCode, closesComments]
  cases hfind : tripleQuotes.find? fun quotes => Text.occurrences quotes t % 2 == 1 with
  | some quotes =>
    have hodd : Text.occurrences quotes t % 2 = 1 := by simpa using List.find?_some hfind
    constructor
    · intro h
      cases h
    · intro h
      have heven := h.1 quotes (List.mem_of_find?_eq_some hfind)
      omega
  | none =>
    have heven : ∀ quotes ∈ tripleQuotes, Text.occurrences quotes t % 2 = 0 := by
      intro quotes hquotes
      have := List.find?_eq_none.mp hfind quotes hquotes
      simp only [beq_iff_eq] at this
      omega
    rw [and_iff_right heven]
    cases Text.afterLast? "/*".toList t with
    | none => simp
    | some rest => simp

theorem closesComments_cons (hc : c ∉ "/*".toList) : closesComments (c :: t) = closesComments t := by
  rw [closesComments, Text.afterLast?_cons_of_notMem (by decide) hc, closesComments]

theorem closesComments_trim (t : Text) : closesComments (Text.trim t) = closesComments t := by
  refine Text.apply_trim (p := fun c => c ∉ "/*".toList) ?_ ?_ ?_ t
  · exact Text.notMem_of_isBlank (by decide)
  · intro s tail htail
    have htail' : ∀ c ∈ tail, c ∉ "*/".toList := fun c hc hmem =>
      htail c hc (by revert hmem; simp [or_comm])
    rw [closesComments, Text.afterLast?_append_right (by decide) htail, Option.all_map,
      closesComments]
    congr 1
    funext rest
    exact Text.includes_append_right (by decide) htail'
  · exact fun c t hc => closesComments_cons hc

theorem IsPlain.notMem {mark : Text} (h : IsPlain c) (hmark : mark ⊆ ['"', '\'', '/', '*']) :
    c ∉ mark := fun hc => h (hmark hc)

theorem subset_of_mem_tripleQuotes (h : quotes ∈ tripleQuotes) : quotes ⊆ ['"', '\'', '/', '*'] := by
  rcases mem_tripleQuotes.mp h with rfl | rfl <;> decide

/-- Plain text behind a quote is not looked at. -/
theorem closesComments_append_plain (hplain : ∀ c ∈ behind, IsPlain c) :
    closesComments (s ++ '"' :: (behind ++ t)) = closesComments (s ++ '"' :: t) := by
  have hlast : Text.afterLast? "/*".toList ('"' :: (behind ++ t)) =
      Text.afterLast? "/*".toList ('"' :: t) := by
    rw [Text.afterLast?_cons_of_notMem (by decide) (by decide),
      Text.apply_append_of_ignored (p := (· ∉ "/*".toList))
        (fun c t hc => Text.afterLast?_cons_of_notMem (by decide) hc)
        (fun c hc => (hplain c hc).notMem (by decide)),
      Text.afterLast?_cons_of_notMem (by decide) (by decide)]
  have hcloses : Text.includes "*/".toList ('"' :: (behind ++ t)) =
      Text.includes "*/".toList ('"' :: t) := by
    rw [Text.includes_cons_of_notMem (by decide) (by decide),
      Text.apply_append_of_ignored (p := (· ∉ "*/".toList))
        (fun c t hc => Text.includes_cons_of_notMem (by decide) hc)
        (fun c hc => (hplain c hc).notMem (by decide)),
      Text.includes_cons_of_notMem (by decide) (by decide)]
  have hseam (t : Text) : Text.Stops ("/*".toList).contains ('"' :: t) :=
    Text.stops_cons.mpr (by decide)
  have hseam' (t : Text) : Text.Stops ("*/".toList).contains ('"' :: t) :=
    Text.stops_cons.mpr (by decide)
  rw [closesComments, closesComments, Text.afterLast?_append (by decide) (hseam _),
    Text.afterLast?_append (by decide) (hseam _), hlast]
  cases Text.afterLast? "/*".toList ('"' :: t) with
  | some rest => rfl
  | none =>
    rw [Option.none_or, Option.none_or, Option.all_map, Option.all_map]
    congr 1
    funext rest
    simp only [Text.includes_append (by decide : "*/".toList ≠ []) (hseam' _), hcloses]

/-- Only outside any block is an empty line blank. -/
theorem classify_nil_eq_blank_iff {state : BlockState} :
    (classify comments state []).1 = blank ↔ state = .outside := by
  cases state with
  | outside => simp [classify, classifyOutside, Text.trim, Text.trimStart]
  | documentation | string => simp [classify]

/-! ## The line -/

namespace LiteralLine

variable (l : LiteralLine)

theorem plain_before (hc : c ∈ l.first :: l.before) : IsPlain c :=
  l.plain c (by rw [← List.cons_append]; exact List.mem_append_left _ hc)

theorem plain_behind (hc : c ∈ l.behind) : IsPlain c :=
  l.plain c (by rw [← List.cons_append]; exact List.mem_append_right _ hc)

/-- Up to the end of the literal there are two quotes, and three are looked for. -/
theorem includes_quoted (hquotes : quotes ∈ tripleQuotes) :
    Text.includes quotes l.quoted = false := by
  have hbefore (c : Char) (hc : ¬ IsPlain c) : (l.first :: l.before).count c = 0 :=
    List.count_eq_zero.mpr fun hmem => hc (l.plain_before hmem)
  have hquoted (c : Char) : l.quoted.count c =
      (l.first :: l.before).count c + (['"'].count c + (l.literal.count c + ['"'].count c)) := by
    rw [quoted, ← List.cons_append, List.count_append, ← List.singleton_append (x := '"'),
      List.count_append, List.count_append]
  rcases mem_tripleQuotes.mp hquotes with rfl | rfl
  · apply Text.includes_eq_false_of_count_lt (c := '"')
    rw [hquoted, hbefore _ (by simp [IsPlain]), List.count_eq_zero.mpr l.unquoted.1]
    decide
  · apply Text.includes_eq_false_of_count_lt (c := '\'')
    rw [hquoted, hbefore _ (by simp [IsPlain]), List.count_eq_zero.mpr l.unquoted.2]
    decide

/-- What follows the literal does not go on with quotes. -/
theorem stops_behind (hquotes : quotes ∈ tripleQuotes) :
    Text.Stops quotes.contains (l.behind ++ l.trailing) := by
  have hslash : '/' ∉ quotes := by
    rcases mem_tripleQuotes.mp hquotes with rfl | rfl <;> decide
  cases hbehind : l.behind with
  | nil =>
    rcases l.comment with hnone | ⟨rest, hcomment⟩
    · rw [hnone]
      exact Text.stops_nil
    · rw [hcomment]
      exact Text.stops_cons.mpr (by simpa using hslash)
  | cons c more =>
    have hplain : IsPlain c := l.plain_behind (by rw [hbehind]; exact List.mem_cons_self)
    have hc := hplain.notMem (subset_of_mem_tripleQuotes hquotes)
    exact Text.stops_cons.mpr (by simpa using hc)

theorem occurrences_text (hquotes : quotes ∈ tripleQuotes) :
    Text.occurrences quotes l.text = Text.occurrences quotes l.trailing := by
  have hne := (visible_of_mem_tripleQuotes hquotes).1
  rw [text, Text.occurrences_append (l.stops_behind hquotes),
    Text.occurrences_eq_zero (l.includes_quoted hquotes), Nat.zero_add,
    Text.apply_append_of_ignored (p := (· ∉ quotes))
      (fun c t hc => Text.occurrences_cons_of_notMem hne hc)
      (fun c hc => (l.plain_behind hc).notMem (subset_of_mem_tripleQuotes hquotes))]

theorem closesComments_text :
    closesComments l.text = closesComments (l.literal ++ '"' :: l.trailing) := by
  have htext : l.text = (l.first :: l.before) ++
      '"' :: (l.literal ++ '"' :: (l.behind ++ l.trailing)) := by
    simp [text, quoted]
  rw [htext, Text.apply_append_of_ignored (p := (· ∉ "/*".toList))
      (fun c t hc => closesComments_cons hc)
      (fun c hc => (l.plain_before hc).notMem (by decide)),
    closesComments_cons (by decide), closesComments_append_plain fun c => l.plain_behind]

theorem openedByCode_text : openedByCode (Text.trim l.text) = .outside ↔ l.ReadsClosed := by
  have hquotes : (∀ quotes ∈ tripleQuotes, Text.occurrences quotes (Text.trim l.text) % 2 = 0) ↔
      ∀ quotes ∈ tripleQuotes, Text.occurrences quotes l.trailing % 2 = 0 :=
    forall₂_congr fun quotes hquotes => by
      rw [occurrences_trim_of_mem_tripleQuotes hquotes, l.occurrences_text hquotes]
  rw [openedByCode_eq_outside_iff, hquotes, closesComments_trim, closesComments_text]
  exact ⟨fun h => ⟨h.1, h.2⟩, fun h => ⟨h.quotes, h.comment⟩⟩

/-- Behind its first character the line does not begin with triple quotes. -/
theorem trim_text : ∃ rest, Text.trim l.text = l.first :: rest ∧
    ∀ quotes ∈ tripleQuotes, Text.startsWith quotes rest = false := by
  refine ⟨Text.trimEnd (l.quoted.tail ++ (l.behind ++ l.trailing)), ?_, ?_⟩
  · exact Text.trim_append (show [l.first] ≠ [] by simp) (by simp [l.visible])
  · intro quotes hquotes
    have hquoted : Text.startsWith quotes l.quoted.tail = false := by
      have hnone := l.includes_quoted hquotes
      rw [quoted, Text.includes, Bool.or_eq_false_iff] at hnone
      exact Text.startsWith_eq_false_of_includes hnone.2
    rw [← Text.startsWith_append (l.stops_behind hquotes), Text.startsWith_eq_false_iff] at hquoted
    rw [Text.startsWith_eq_false_iff]
    exact fun hstarts => hquoted (hstarts.trans (Text.trimEnd_isPrefix _))

theorem first_ne (hc : ¬ IsPlain c) : l.first ≠ c := by
  rintro rfl
  exact hc (l.plain_before List.mem_cons_self)

theorem blockOpening?_text : blockOpening? (Text.trim l.text) = none := by
  obtain ⟨rest, htrim, hrest⟩ := l.trim_text
  rw [Option.eq_none_iff_forall_ne_some]
  rintro ⟨close, behind⟩ hopening
  rw [blockOpening?_eq_some_iff, htrim] at hopening
  generalize htext : l.first :: rest = text at hopening
  cases hopening with
  | comment =>
    have hslash : l.first = '/' := (List.cons.inj htext).1
    exact l.first_ne (by simp [IsPlain]) hslash
  | markup =>
    have hangle : l.first = '<' := (List.cons.inj htext).1
    exact l.first_notMem (by simp [hangle])
  | docstring hmark hquotes =>
    rcases hmark with rfl | ⟨c, -, rfl⟩
    · rcases mem_tripleQuotes.mp hquotes with rfl | rfl <;>
        exact l.first_ne (by simp [IsPlain]) (List.cons.inj htext).1
    · have hstarts : Text.startsWith close rest = true :=
        Text.startsWith_iff.mpr ⟨behind, (List.cons.inj htext).2.symm⟩
      rw [hrest close hquotes] at hstarts
      cases hstarts

theorem startsComment_text : comments.startsComment (Text.trim l.text) = false := by
  obtain ⟨rest, htrim, -⟩ := l.trim_text
  have hfirst := l.first_notMem
  simp only [List.mem_cons, List.not_mem_nil, or_false, not_or] at hfirst
  rw [htrim, CommentSyntax.startsComment_cons, if_neg (l.first_ne (by simp [IsPlain])),
    if_neg hfirst.2.1, if_neg hfirst.1]

theorem classify_text :
    classify comments .outside l.text = (code, openedByCode (Text.trim l.text)) := by
  obtain ⟨rest, htrim, -⟩ := l.trim_text
  have hnonempty : (Text.trim l.text).isEmpty = false := by
    rw [htrim]
    rfl
  rw [classify, classifyOutside, hnonempty, l.blockOpening?_text, l.startsComment_text]
  rfl

/-- A line with a literal and a comment is code. Nothing is open behind it, and all later lines
are read as if it were not there, exactly if its literal and its comment read as code would leave
nothing open. -/
theorem classifyAll_text_iff (comments : CommentSyntax) (l : LiteralLine) :
    (classify comments .outside l.text).1 = code ∧
    ((classify comments .outside l.text).2 = .outside ↔ l.ReadsClosed) ∧
    ((∀ later, classifyAll comments .outside (l.text :: later) =
      code :: classifyAll comments .outside later) ↔ l.ReadsClosed) := by
  refine ⟨by rw [classify_text], by rw [classify_text, openedByCode_text], ?_⟩
  rw [← l.openedByCode_text]
  constructor
  · intro hlater
    -- A single empty line behind tells what is open.
    have hblank := hlater [[]]
    simp only [classifyAll, classify_text, List.cons.injEq, and_true, true_and] at hblank
    rw [classify_nil_eq_blank_iff.mpr rfl] at hblank
    exact classify_nil_eq_blank_iff.mp hblank
  · intro houtside later
    rw [classifyAll, classify_text, houtside]

/-- An assignment of a literal that spells the mark of a block comment. -/
def markLiteral : LiteralLine where
  first := 'x'
  before := " = ".toList
  literal := "/*".toList
  behind := []
  trailing := []
  visible := by decide
  first_notMem := by decide
  plain := by simp [IsPlain]
  unquoted := by decide
  comment := .inl rfl

/-- A call with a comment behind it that spells triple quotes. -/
def quotesComment : LiteralLine where
  first := 'f'
  before := ['(']
  literal := ['a']
  behind := [')']
  trailing := "// \"\"\"".toList
  visible := by decide
  first_notMem := by decide
  plain := by simp [IsPlain]
  unquoted := by decide
  comment := .inr ⟨_, rfl⟩

/-- The line behind either of them is read differently than by itself: behind the literal, code is
documentation, and behind the comment, an empty line is code. -/
theorem classifyAll_markLiteral :
    let javascript := CommentSyntax.ofLanguage (some "javascript".toList)
    markLiteral.text = "x = \"/*\"".toList ∧
    classifyAll javascript .outside [markLiteral.text, "y = 1".toList] = [code, docBlock] ∧
    classifyAll javascript .outside ["y = 1".toList] = [code] ∧
    classifyAll javascript .outside [quotesComment.text, []] = [code, code] ∧
    classifyAll javascript .outside [[]] = [blank] := by
  decide +kernel

end LiteralLine

end LineKind

end LineGuard
