/-
# What is left out of a line

The bare code of a line is made in one pass, a character at a time. What is kept of a character
is decided by where reading stands and by what comes next, so the bare code of a line in two
parts is that of its parts as soon as nothing is read across the seam. Only marks of comments
are; a quote is no part of any, so the text in front of a literal is read as if it stood alone.

Inside a literal nothing but a backslash and the closing quote is looked at, and in a comment
nothing but its closing mark. Their text therefore never matters. A slash at the end of the code
is the one thing to beware of, since it takes the first slash of a comment and makes a line
comment of it.
-/

import LineGuard.Construct.Listing
import LineGuard.Proofs.Line.Kind
import Mathlib.Data.Bool.AllAny

namespace LineGuard

/-! ## Marks of comments across a seam -/

/-- Whether a character may go on with a mark that begins in front of it, or tell a directive
from a comment. The slash is not among them: it goes on with nothing but another slash. -/
def goesOnWithMark (c : Char) : Bool := CommentSyntax.tellsDirective c || "<-* ".toList.contains c

variable {c quote : Char} {rest t : Text}

theorem CommentSyntax.startsComment_append {comments : CommentSyntax}
    (hseam : Text.Stops goesOnWithMark t)
    (hslash : c = '/' → rest = [] → t.head? ≠ some '/') :
    comments.startsComment (c :: rest ++ t) = comments.startsComment (c :: rest) := by
  have hdirective : Text.Stops tellsDirective t := hseam.mono fun c hc => by
    simp [goesOnWithMark, hc]
  have hdash : Text.startsWith ['-'] (rest ++ t) = Text.startsWith ['-'] rest :=
    Text.startsWith_append (hseam.contains (by decide))
  rw [List.cons_append, startsComment_cons, startsComment_cons, isDirective_append hdirective,
    hdash]
  by_cases hc : c = '/'
  · rw [if_pos hc, if_pos hc]
    cases rest with
    | nil =>
      cases t with
      | nil => rfl
      | cons d t =>
        have hd : d ≠ '/' := by simpa using hslash hc rfl
        simp [Text.startsWith, List.isPrefixOf, hd.symm]
    | cons d rest => simp [Text.startsWith, List.isPrefixOf]
  · rw [if_neg hc, if_neg hc]

namespace Construct

variable {lexis : Lexis} {reading next : Reading} {before kept : Text}

theorem Lexis.startsComment_eq (lexis : Lexis) (t : Text) :
    lexis.startsComment t =
      if Text.startsWith "--".toList t then
        Text.startsWith "-- ".toList t && lexis.comments.startsComment t
      else Text.startsWith "<!--".toList t || lexis.comments.startsComment t := by
  by_cases hdashes : Text.startsWith "--".toList t = true
  · obtain ⟨rest, rfl⟩ := Text.startsWith_iff.mp hdashes
    rw [if_pos hdashes]
    rfl
  · rw [if_neg hdashes, Lexis.startsComment]
    rintro rest rfl
    exact hdashes rfl

theorem Lexis.startsComment_append (hseam : Text.Stops goesOnWithMark t)
    (hslash : c = '/' → rest = [] → t.head? ≠ some '/') :
    lexis.startsComment (c :: rest ++ t) = lexis.startsComment (c :: rest) := by
  rw [startsComment_eq, startsComment_eq, CommentSyntax.startsComment_append hseam hslash,
    Text.startsWith_append (hseam.contains (by decide)),
    Text.startsWith_append (hseam.contains (by decide)),
    Text.startsWith_append (hseam.contains (by decide))]

/-! ## One character -/

/-- What is kept of a character, and where reading stands behind it. There is nothing behind a
comment that goes on to the end of the line. -/
def step (lexis : Lexis) : Reading → Char → Text → Option (Text × Reading)
  | .code (skip + 1), _, _ => some ([], .code skip)
  | .literal quote true, _, _ => some ([], .literal quote false)
  | .literal quote false, c, _ =>
    if c = '\\' then some ([], .literal quote true)
    else if c = quote then some ([c], .code 0)
    else some ([], .literal quote false)
  | .code 0, c, rest =>
    if lexis.startsComment (c :: rest) then none
    else
      match Text.after? "/*".toList (c :: rest) with
      | some inner =>
        (Text.afterFirst? "*/".toList inner).map fun left =>
          ([], .code (rest.length - left.length))
      | none =>
        if c = '"' || c = '\x60' then some ([c], .literal c false)
        else if c = '\'' then
          if lexis.hasLifetimes then
            match afterCharLiteral? (c :: rest) with
            | some left => some (['\'', '\''], .code (rest.length - left.length))
            | none => some ([c], .code 0)
          else some ([c], .literal c false)
        else some ([c], .code 0)

/-- The bare code of a line is made step by step. -/
theorem bareFrom_cons (lexis : Lexis) (reading : Reading) (c : Char) (rest : Text) :
    bareFrom lexis reading (c :: rest) =
      match step lexis reading c rest with
      | some (kept, next) => kept ++ bareFrom lexis next rest
      | none => [] := by
  match reading with
  | .code (skip + 1) => rfl
  | .literal quote true => rfl
  | .literal quote false =>
    rw [bareFrom, step]
    split_ifs <;> rfl
  | .code 0 =>
    rw [bareFrom, step]
    by_cases hline : lexis.startsComment (c :: rest) = true
    · rw [if_pos hline, if_pos hline]
    · rw [if_neg hline, if_neg hline]
      cases Text.after? "/*".toList (c :: rest) with
      | some inner =>
        dsimp only
        cases Text.afterFirst? "*/".toList inner <;> rfl
      | none =>
        dsimp only
        split_ifs
        · rfl
        · cases afterCharLiteral? (c :: rest) <;> rfl
        · rfl
        · rfl

theorem bareFrom_of_step (h : step lexis reading c rest = some (kept, next)) :
    bareFrom lexis reading (c :: rest) = kept ++ bareFrom lexis next rest := by
  rw [bareFrom_cons, h]

/-- Characters that comments and literals begin with. -/
def lexicalMarks : List Char := ['/', '-', '#', '<', '"', '\x60', '\'']

theorem step_code_of_notMem (lexis : Lexis) (hc : c ∉ lexicalMarks) (rest : Text) :
    step lexis (.code 0) c rest = some ([c], .code 0) := by
  simp only [lexicalMarks, List.mem_cons, not_or] at hc
  obtain ⟨hslash, hdash, hhash, hangle, hdouble, hback, hsingle, -⟩ := hc
  have hline : lexis.startsComment (c :: rest) = false := by
    simp [Lexis.startsComment, CommentSyntax.startsComment, Text.startsWith, List.isPrefixOf,
      hslash, hdash, hhash, Ne.symm hangle]
  have hblock : Text.after? "/*".toList (c :: rest) = none := by
    simp [Text.after?, List.isPrefixOf?, Ne.symm hslash]
  rw [step, hline, hblock]
  simp [hdouble, hback, hsingle]

theorem bare_cons (lexis : Lexis) (hc : c ∉ lexicalMarks) (rest : Text) :
    bare lexis (c :: rest) = c :: bare lexis rest :=
  bareFrom_of_step (step_code_of_notMem lexis hc rest)

theorem bare_append (lexis : Lexis) {run : Text} (hrun : ∀ c ∈ run, c ∉ lexicalMarks)
    (rest : Text) : bare lexis (run ++ rest) = run ++ bare lexis rest := by
  induction run with
  | nil => rfl
  | cons c run ih =>
    obtain ⟨hc, hmore⟩ := List.forall_mem_cons.mp hrun
    rw [List.cons_append, bare_cons lexis hc, ih hmore, List.cons_append]

theorem after?_slashStar_append (hseam : Text.Stops goesOnWithMark t) :
    Text.after? "/*".toList (c :: rest ++ t) =
      (Text.after? "/*".toList (c :: rest)).map (· ++ t) := by
  cases hblock : Text.after? "/*".toList (c :: rest) with
  | some inner =>
    rw [Text.after?_eq_some_iff] at hblock
    rw [Option.map_some, Text.after?_eq_some_iff, hblock, List.append_assoc]
  | none =>
    rw [Text.after?_eq_none_iff, Text.startsWith_eq_false_iff] at hblock
    rw [Option.map_none, Text.after?_eq_none_iff, Text.startsWith_eq_false_iff]
    intro hstarts
    rcases Text.prefix_append_cases hstarts with hin | ⟨d, across, hmark, others, rfl⟩
    · exact hblock hin
    · -- The star would be the first character behind the seam.
      have hstar : d = '*' := by
        obtain ⟨-, hmark⟩ := List.cons.inj hmark
        cases rest with
        | nil => exact (List.cons.inj hmark).1.symm
        | cons e rest => simp at hmark
      have hstops := Text.stops_cons.mp hseam
      rw [hstar] at hstops
      revert hstops
      decide

/-- What is decided of a character in front of a seam is decided by the text in front of it. -/
theorem step_append (hlexis : lexis.hasLifetimes = false) (hseam : Text.Stops goesOnWithMark t)
    (hslash : reading = .code 0 → c = '/' → rest = [] → t.head? ≠ some '/')
    (h : step lexis reading c rest = some (kept, next)) :
    step lexis reading c (rest ++ t) = some (kept, next) := by
  match reading with
  | .code (skip + 1) => exact h
  | .literal quote true => exact h
  | .literal quote false => exact h
  | .code 0 =>
    rw [step] at h ⊢
    rw [← List.cons_append, Lexis.startsComment_append hseam (hslash rfl),
      after?_slashStar_append hseam, hlexis]
    rw [hlexis] at h
    by_cases hline : lexis.startsComment (c :: rest) = true
    · rw [if_pos hline] at h
      cases h
    rw [if_neg hline] at h ⊢
    cases hblock : Text.after? "/*".toList (c :: rest) with
    | some inner =>
      rw [hblock] at h
      obtain ⟨left, hleft, htaken⟩ := Option.map_eq_some_iff.mp h
      rw [Option.map_some]
      dsimp only
      rw [Text.afterFirst?_append_of_eq_some hleft, Option.map_some, List.length_append,
        List.length_append, Nat.add_sub_add_right, htaken]
    | none =>
      rw [hblock] at h
      simp only [Bool.false_eq_true, if_false] at h
      simpa only [Option.map_none, Bool.false_eq_true, if_false] using h

/-! ## A whole text -/

/-- Where reading stands behind a text, if no comment in it goes on to its end. -/
def readingBehind (lexis : Lexis) : Reading → Text → Option Reading
  | reading, [] => some reading
  | reading, c :: rest =>
    (step lexis reading c rest).bind fun taken => readingBehind lexis taken.2 rest

/-- A line may stop here: no literal is open, and no comment has begun that is not closed. -/
def Settles (lexis : Lexis) (before : Text) : Prop :=
  readingBehind lexis (.code 0) before = some (.code 0)

instance (lexis : Lexis) (before : Text) : Decidable (Settles lexis before) :=
  inferInstanceAs (Decidable (_ = _))

theorem exists_of_readingBehind_cons (h : readingBehind lexis reading (c :: rest) = some next) :
    ∃ kept behind, step lexis reading c rest = some (kept, behind) ∧
      readingBehind lexis behind rest = some next := by
  obtain ⟨⟨kept, behind⟩, hstep, hrest⟩ := Option.bind_eq_some_iff.mp h
  exact ⟨kept, behind, hstep, hrest⟩

theorem bareFrom_nil (lexis : Lexis) (reading : Reading) : bareFrom lexis reading [] = [] := by
  rw [bareFrom]

/-- A slash that begins no comment is code. -/
theorem step_slash (lexis : Lexis) : step lexis (.code 0) '/' [] = some (['/'], .code 0) := rfl

/-- What follows some code is not read together with it. -/
structure ReadsApart (code t : Text) : Prop where
  stops : Text.Stops goesOnWithMark t
  slash : code.getLast? = some '/' → t.head? ≠ some '/'

/-- The bare code of a line in two parts is that of its parts. -/
theorem bareFrom_append (hlexis : lexis.hasLifetimes = false)
    (hbefore : readingBehind lexis reading before = some next)
    (hapart : ReadsApart (bareFrom lexis reading before) t) :
    bareFrom lexis reading (before ++ t) =
      bareFrom lexis reading before ++ bareFrom lexis next t := by
  induction before generalizing reading with
  | nil =>
    obtain rfl := Option.some.inj hbefore
    rw [bareFrom_nil, List.nil_append, List.nil_append]
  | cons c rest ih =>
    obtain ⟨kept, behind, hstep, hrest⟩ := exists_of_readingBehind_cons hbefore
    rw [bareFrom_of_step hstep] at hapart
    have hslash : reading = .code 0 → c = '/' → rest = [] → t.head? ≠ some '/' := by
      rintro rfl rfl rfl
      obtain ⟨rfl, -⟩ := Prod.mk.inj (Option.some.inj ((step_slash lexis).symm.trans hstep))
      exact hapart.slash (by rw [bareFrom_nil]; rfl)
    have hlater : ReadsApart (bareFrom lexis behind rest) t :=
      ⟨hapart.stops, fun hlast => hapart.slash (by rw [List.getLast?_append, hlast, Option.some_or])⟩
    rw [List.cons_append, bareFrom_of_step (step_append hlexis hapart.stops hslash hstep),
      bareFrom_of_step hstep, ih hrest hlater, List.append_assoc]

/-- Texts that begin with a slash, and of which the same is left when they stand alone, leave the
same behind any text. If that ends in a slash itself, then a line comment begins there, and
nothing is left of either. -/
theorem bareFrom_append_slash_congr (hlexis : lexis.hasLifetimes = false)
    (hbefore : readingBehind lexis reading before = some (.code 0)) {other : Text}
    (hsame : bare lexis ('/' :: t) = bare lexis ('/' :: other)) :
    bareFrom lexis reading (before ++ '/' :: t) = bareFrom lexis reading (before ++ '/' :: other) := by
  induction before generalizing reading with
  | nil =>
    obtain rfl := Option.some.inj hbefore
    exact hsame
  | cons c rest ih =>
    obtain ⟨kept, behind, hstep, hrest⟩ := exists_of_readingBehind_cons hbefore
    by_cases hslash : reading = .code 0 ∧ c = '/' ∧ rest = []
    · -- Two slashes make a line comment, and both lines end.
      obtain ⟨rfl, rfl, rfl⟩ := hslash
      rfl
    · have happend (t : Text) : step lexis reading c (rest ++ '/' :: t) = some (kept, behind) :=
        step_append hlexis (Text.stops_cons.mpr (by decide))
          (fun hreading hc hrest => absurd ⟨hreading, hc, hrest⟩ hslash) hstep
      rw [List.cons_append, List.cons_append, bareFrom_of_step (happend t),
        bareFrom_of_step (happend other), ih hrest]

/-! ## Literals and comments -/

/-- The quotes of literals. -/
def quoteMarks : List Char := ['"', '\x60', '\'']

/-- Text that a literal may hold: characters behind a backslash, and others that are neither a
backslash nor the quote. -/
inductive IsQuotable (quote : Char) : Text → Prop where
  | nil : IsQuotable quote []
  | plain {c : Char} {t : Text} (hc : c ≠ quote ∧ c ≠ '\\') (ht : IsQuotable quote t) :
      IsQuotable quote (c :: t)
  | escaped {c : Char} {t : Text} (ht : IsQuotable quote t) : IsQuotable quote ('\\' :: c :: t)

theorem isQuotable_of_notMem (hquote : quote ∉ t) (hbackslash : '\\' ∉ t) :
    IsQuotable quote t := by
  induction t with
  | nil => exact .nil
  | cons c t ih =>
    rw [List.mem_cons, not_or] at hquote hbackslash
    exact .plain ⟨Ne.symm hquote.1, Ne.symm hbackslash.1⟩ (ih hquote.2 hbackslash.2)

/-- In a literal everything is passed over up to the quote that closes it. -/
theorem IsQuotable.bareFrom_append (h : IsQuotable quote t) (hquote : quote ≠ '\\') (rest : Text) :
    bareFrom lexis (.literal quote false) (t ++ quote :: rest) = quote :: bare lexis rest := by
  induction h with
  | nil => rw [List.nil_append, bareFrom, if_neg hquote, if_pos rfl, bare]
  | plain hc _ ih => rw [List.cons_append, bareFrom, if_neg hc.2, if_neg hc.1, ih]
  | escaped _ ih => rw [List.cons_append, List.cons_append, bareFrom, if_pos rfl, bareFrom, ih]

theorem bare_quote_cons (hlexis : lexis.hasLifetimes = false) (hquote : quote ∈ quoteMarks)
    (rest : Text) :
    bare lexis (quote :: rest) = quote :: bareFrom lexis (.literal quote false) rest := by
  have hstep : step lexis (.code 0) quote rest = some ([quote], .literal quote false) := by
    simp only [quoteMarks, List.mem_cons, List.not_mem_nil, or_false] at hquote
    rcases hquote with rfl | rfl | rfl
    · rfl
    · rfl
    · rw [step, hlexis]
      rfl
  rw [bare, bareFrom_of_step hstep, List.singleton_append]

/-- A comment that is closed is passed over. -/
theorem bare_slashStar_of_afterFirst? (lexis : Lexis) {inner : Text}
    (hclose : Text.afterFirst? "*/".toList inner = some rest) :
    bare lexis ('/' :: '*' :: inner) = bare lexis rest := by
  have hstep : step lexis (.code 0) '/' ('*' :: inner) =
      (Text.afterFirst? "*/".toList inner).map fun left =>
        ([], .code (('*' :: inner).length - left.length)) := rfl
  rw [hclose, Option.map_some] at hstep
  obtain ⟨front, rfl⟩ := Text.exists_eq_append_of_afterFirst? hclose
  have hdrop : ('*' :: (front ++ ("*/".toList ++ rest))).drop
      (('*' :: (front ++ ("*/".toList ++ rest))).length - rest.length) = rest := by
    rw [← List.append_assoc, ← List.cons_append, List.length_append, Nat.add_sub_cancel_right,
      List.drop_left]
  rw [bare, bareFrom_of_step hstep, bareFrom_code, hdrop, List.nil_append]

theorem bare_slashSlash_append (lexis : Lexis) (comment : Text) :
    bare lexis ("//".toList ++ comment) = [] := rfl

/-- A comment between its marks. -/
def blockComment (comment : Text) : Text := "/*".toList ++ (comment ++ "*/".toList)

theorem bare_blockComment_append (lexis : Lexis) {comment : Text}
    (hcomment : Text.includes "*/".toList comment = false) (rest : Text) :
    bare lexis (blockComment comment ++ rest) = bare lexis rest := by
  have hclose : Text.afterFirst? "*/".toList (comment ++ ("*/".toList ++ rest)) = some rest :=
    Text.afterFirst?_append (by decide) hcomment
  rw [blockComment, List.append_assoc, List.append_assoc]
  exact bare_slashStar_of_afterFirst? lexis hclose

theorem ne_of_mem_quoteMarks (hquote : quote ∈ quoteMarks) :
    quote ≠ '\\' ∧ quote ≠ '/' ∧ goesOnWithMark quote = false := by
  revert quote
  rw [← List.all_iff_forall_prop]
  decide

theorem readsApart_quote (hquote : quote ∈ quoteMarks) (code rest : Text) :
    ReadsApart code (quote :: rest) := by
  obtain ⟨-, hslash, hmark⟩ := ne_of_mem_quoteMarks hquote
  exact ⟨Text.stops_cons.mpr hmark, fun _ hhead => hslash (Option.some.inj hhead)⟩

/-- A slash of a comment is read apart from code that does not end in one. -/
theorem readsApart_slash {code : Text} (hcode : code.getLast? ≠ some '/') (rest : Text) :
    ReadsApart code ('/' :: rest) :=
  ⟨Text.stops_cons.mpr (by decide), fun hlast => absurd hlast hcode⟩

namespace Settles

variable (hbefore : Settles lexis before) (hlexis : lexis.hasLifetimes = false)
include hbefore hlexis

theorem bare_append_literal (hquote : quote ∈ quoteMarks) {literal : Text}
    (hliteral : IsQuotable quote literal) (behind : Text) :
    bare lexis (before ++ quote :: (literal ++ quote :: behind)) =
      bare lexis before ++ quote :: quote :: bare lexis behind := by
  calc
    bare lexis (before ++ quote :: (literal ++ quote :: behind))
      = bare lexis before ++ bare lexis (quote :: (literal ++ quote :: behind)) :=
        bareFrom_append hlexis hbefore (readsApart_quote hquote _ _)
    _ = bare lexis before ++ quote :: quote :: bare lexis behind := by
        rw [bare_quote_cons hlexis hquote,
          hliteral.bareFrom_append (ne_of_mem_quoteMarks hquote).1]

theorem bare_append_blockComment {comment : Text}
    (hcomment : Text.includes "*/".toList comment = false) (behind : Text)
    (hslash : (bare lexis before).getLast? ≠ some '/') :
    bare lexis (before ++ (blockComment comment ++ behind)) =
      bare lexis before ++ bare lexis behind := by
  calc
    bare lexis (before ++ (blockComment comment ++ behind))
      = bare lexis before ++ bare lexis (blockComment comment ++ behind) :=
        bareFrom_append hlexis hbefore (readsApart_slash hslash _)
    _ = bare lexis before ++ bare lexis behind := by
        rw [bare_blockComment_append lexis hcomment]

theorem bare_append_lineComment (comment : Text)
    (hslash : (bare lexis before).getLast? ≠ some '/') :
    bare lexis (before ++ ("//".toList ++ comment)) = bare lexis before := by
  calc
    bare lexis (before ++ ("//".toList ++ comment))
      = bare lexis before ++ bare lexis ("//".toList ++ comment) :=
        bareFrom_append hlexis hbefore (readsApart_slash hslash _)
    _ = bare lexis before := by rw [bare_slashSlash_append, List.append_nil]

theorem bare_append_blockComment_congr {comment other : Text}
    (hcomment : Text.includes "*/".toList comment = false)
    (hother : Text.includes "*/".toList other = false) (behind : Text) :
    bare lexis (before ++ (blockComment comment ++ behind)) =
      bare lexis (before ++ (blockComment other ++ behind)) := by
  apply bareFrom_append_slash_congr hlexis hbefore
  exact (bare_blockComment_append lexis hcomment behind).trans
    (bare_blockComment_append lexis hother behind).symm

theorem bare_append_lineComment_congr (comment other : Text) :
    bare lexis (before ++ ("//".toList ++ comment)) =
      bare lexis (before ++ ("//".toList ++ other)) :=
  bareFrom_append_slash_congr hlexis hbefore rfl

end Settles

namespace Listing

variable {s : Listing} {line : Nat}

theorem text_of_cut_ne (hcut : ∀ column, s.cut ≠ some (line, column)) :
    s.text line = s.document.line line := by
  rw [text]
  split
  · next cutLine column hsome =>
    rw [if_neg]
    rintro rfl
    exact hcut column hsome
  · rfl

theorem hasLifetimes_lexis : s.lexis.hasLifetimes = (s.document.language == some "rust".toList) :=
  rfl

/-- In a language without lifetimes, and on a line that no inline tag cuts short, what literals
and comments hold has no part in the bare code. Of a literal behind some text that leaves nothing
open there are the two quotes, between the bare code in front of it and that behind it. What a
comment holds can be replaced, and nothing is left of it, unless the code in front of it ends in
a slash; together with that one its first slash begins a line comment. -/
theorem bare_of_settles (hlanguage : s.document.language ≠ some "rust".toList)
    (hcut : ∀ column, s.cut ≠ some (line, column)) (hbefore : Settles s.lexis before) :
    let code := Construct.bare s.lexis
    (∀ quote ∈ quoteMarks, ∀ literal behind, IsQuotable quote literal →
      s.document.line line = before ++ quote :: (literal ++ quote :: behind) →
      code (s.text line) = code before ++ quote :: quote :: code behind) ∧
    (∀ comment behind, Text.includes "*/".toList comment = false →
      s.document.line line = before ++ (blockComment comment ++ behind) →
      (∀ other, Text.includes "*/".toList other = false →
        code (s.text line) = code (before ++ (blockComment other ++ behind))) ∧
      ((code before).getLast? ≠ some '/' → code (s.text line) = code before ++ code behind)) ∧
    ∀ comment, s.document.line line = before ++ ("//".toList ++ comment) →
      (∀ other, code (s.text line) = code (before ++ ("//".toList ++ other))) ∧
      ((code before).getLast? ≠ some '/' → code (s.text line) = code before) := by
  intro code
  have hlexis : s.lexis.hasLifetimes = false := by
    rw [hasLifetimes_lexis]
    exact beq_eq_false_iff_ne.mpr hlanguage
  rw [text_of_cut_ne hcut]
  refine ⟨fun quote hquote literal behind hliteral hline => ?_,
    fun comment behind hcomment hline => ?_, fun comment hline => ?_⟩
  · rw [hline]
    exact hbefore.bare_append_literal hlexis hquote hliteral behind
  · rw [hline]
    exact ⟨fun other hother => hbefore.bare_append_blockComment_congr hlexis hcomment hother behind,
      hbefore.bare_append_blockComment hlexis hcomment behind⟩
  · rw [hline]
    exact ⟨hbefore.bare_append_lineComment_congr hlexis comment,
      hbefore.bare_append_lineComment hlexis comment⟩

/-- A call with a comment and a literal among its arguments, a quotient with a comment in front
of its slash, and a literal that reads like a comment with a comment behind it. -/
def commentedListing : Listing where
  document := .ofText ("x = f(a /* ( */, \"\\\"\x7b\", b)\ny = 4 /* \x7b */ / 2\n" ++
    "z = '//' // ([\n").toList (some "javascript".toList)
  cut := none

theorem bare_of_settles_commentedListing :
    let s := commentedListing
    let code := Construct.bare s.lexis
    (s.document.language ≠ some "rust".toList ∧ (∀ line column, s.cut ≠ some (line, column)) ∧
      Settles s.lexis "x = f(a /* ( */, ".toList ∧ IsQuotable '"' "\\\"\x7b".toList ∧
      Settles s.lexis "y = 4 ".toList ∧ Settles s.lexis "z = '//' ".toList) ∧
    code (s.text 0) = "x = f(a , \"\", b)".toList ∧ code (s.text 1) = "y = 4  / 2".toList ∧
    code (s.text 2) = "z = '' ".toList := by
  intro s code
  have hlanguage : s.document.language ≠ some "rust".toList := by decide
  have hcut (line : Nat) : ∀ column, s.cut ≠ some (line, column) := fun _ => nofun
  have hcall : Settles s.lexis "x = f(a /* ( */, ".toList := by decide +kernel
  have hquotient : Settles s.lexis "y = 4 ".toList := by decide +kernel
  have hslashes : Settles s.lexis "z = '//' ".toList := by decide +kernel
  have hbrace : IsQuotable '"' "\\\"\x7b".toList :=
    .escaped (isQuotable_of_notMem (by decide) (by decide))
  refine ⟨⟨hlanguage, hcut, hcall, hbrace, hquotient, hslashes⟩, ?_, ?_, ?_⟩
  · have hbare := (bare_of_settles hlanguage (hcut 0) hcall).1 '"' (by decide) _ ", b)".toList
      hbrace (by decide +kernel)
    exact hbare.trans (by decide +kernel)
  · have hbare := ((bare_of_settles hlanguage (hcut 1) hquotient).2.1 " \x7b ".toList
      " / 2".toList (by decide) (by decide +kernel)).2 (by decide +kernel)
    exact hbare.trans (by decide +kernel)
  · have hbare := ((bare_of_settles hlanguage (hcut 2) hslashes).2.2 " ([".toList
      (by decide +kernel)).2 (by decide +kernel)
    exact hbare.trans (by decide +kernel)

end Listing

end Construct

end LineGuard
