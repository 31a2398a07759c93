/-
# Bare code

Brackets are counted in what is left of a line once the contents of strings and
the comments are taken out. The quotes themselves stay, so that a value is still
something. Strings are not followed across lines.

Where a single quote also starts a lifetime, as in Rust, it opens a literal only
when it is closed again soon enough to be a character.
-/

import LineGuard.Line.CommentSyntax
import LineGuard.Text.Columns

namespace LineGuard.Construct

/-- What the literals and comments of a language look like. -/
structure Lexis where
  comments : CommentSyntax
  /-- Whether a single quote may start a lifetime. -/
  hasLifetimes : Bool
deriving DecidableEq, Repr

/-- Where reading a line stands. -/
inductive Reading where
  /-- In code, of which the next `skip` characters are left out. -/
  | code (skip : Nat)
  /-- In a literal with this quote; `escaped` behind a backslash. -/
  | literal (quote : Char) (escaped : Bool)
deriving DecidableEq, Repr

/-- Whether a line comment starts here, in the middle of a line. Two dashes need
a space behind them, so that a decrement stays code. -/
def Lexis.startsComment (lexis : Lexis) (t : Text) : Bool :=
  match t with
  | '-' :: '-' :: rest => Text.startsWith [' '] rest && lexis.comments.startsComment t
  | _ => Text.startsWith "<!--".toList t || lexis.comments.startsComment t

/-- What follows the first single quote, if it comes within so many bytes. -/
def closeWithin? : (bytes : Nat) → Text → Option Text
  | _, [] => none
  | bytes, c :: rest =>
    if c = '\'' then some rest
    else if c.utf8Size ≤ bytes then closeWithin? (bytes - c.utf8Size) rest
    else none

/-- What follows a character literal, if one starts here: a character between
single quotes, or a backslash and at most eight bytes more. -/
def afterCharLiteral? (t : Text) : Option Text :=
  match t with
  | '\'' :: '\\' :: rest => closeWithin? 8 rest
  | '\'' :: _ :: '\'' :: rest => some rest
  | _ => none

/-- The bare code of a line from where reading stands. -/
def bareFrom (lexis : Lexis) : Reading → Text → Text
  | _, [] => []
  | .code (skip + 1), _ :: rest => bareFrom lexis (.code skip) rest
  | .literal quote true, _ :: rest => bareFrom lexis (.literal quote false) rest
  | .literal quote false, c :: rest =>
    if c = '\\' then bareFrom lexis (.literal quote true) rest
    else if c = quote then c :: bareFrom lexis (.code 0) rest
    else bareFrom lexis (.literal quote false) rest
  | .code 0, c :: rest =>
    if lexis.startsComment (c :: rest) then []
    else
      match Text.after? "/*".toList (c :: rest) with
      | some inner =>
        match Text.afterFirst? "*/".toList inner with
        | some left => bareFrom lexis (.code (rest.length - left.length)) rest
        | none => []
      | none =>
        if c = '"' || c = '\x60' then c :: bareFrom lexis (.literal c false) rest
        else if c = '\'' then
          if lexis.hasLifetimes then
            match afterCharLiteral? (c :: rest) with
            | some left =>
              '\'' :: '\'' :: bareFrom lexis (.code (rest.length - left.length)) rest
            | none => c :: bareFrom lexis (.code 0) rest
          else c :: bareFrom lexis (.literal c false) rest
        else c :: bareFrom lexis (.code 0) rest

/-- The bare code of a line. -/
def bare (lexis : Lexis) (line : Text) : Text := bareFrom lexis (.code 0) line

/-- Characters that are left out do not matter. -/
theorem bareFrom_code (lexis : Lexis) (skip : Nat) (t : Text) :
    bareFrom lexis (.code skip) t = bare lexis (t.drop skip) := by
  induction skip generalizing t with
  | zero => rfl
  | succ skip ih =>
    cases t with
    | nil => simp [bare, bareFrom]
    | cons c rest => simpa [bareFrom] using ih rest

end LineGuard.Construct
