/-
# Comment syntax of languages

Which marks start a line comment depends on the language. Two slashes do so
everywhere. A hash does in Python or shell; in C or Rust it starts a directive
or an attribute, which is code. Where the language is not known, a hash counts
unless it looks like an attribute or a directive, and two dashes count as well.
-/

import LineGuard.Text.Basic

namespace LineGuard

/-- What a hash at the start of a comment candidate means. -/
inductive HashRule where
  /-- It always starts a comment. -/
  | always
  /-- It starts a comment unless it opens an attribute or a directive. -/
  | unlessDirective
  /-- It never starts a comment. -/
  | never
deriving DecidableEq, Repr

/-- The line comment marks of one language. -/
structure CommentSyntax where
  /-- What a hash means. -/
  hash : HashRule
  /-- Whether two dashes start a comment. -/
  doubleDash : Bool
deriving DecidableEq, Repr

namespace CommentSyntax

/-- Languages where every line that starts with a hash is a comment. -/
def hashCommentLanguages : List Text :=
  ["python", "ruby", "shell", "bash", "sh", "zsh", "perl", "r", "yaml", "toml", "elixir",
    "julia", "powershell", "make", "dockerfile", "nim", "coffeescript"].map (·.toList)

/-- Languages where a hash only ever starts an attribute, a directive or code. -/
def hashCodeLanguages : List Text :=
  ["javascript", "typescript", "tsx", "jsx", "rust", "go", "java", "kotlin", "scala",
    "swift", "dart", "c", "cpp", "csharp", "objc"].map (·.toList)

/-- Languages with comments that start with two dashes. -/
def doubleDashLanguages : List Text :=
  ["sql", "lua", "haskell", "ada", "elm", "vhdl"].map (·.toList)

/-- Words that make a hash in front of them a directive. -/
def directives : List Text :=
  ["include", "import", "define", "undef", "if", "ifdef", "ifndef", "elif", "else", "endif",
    "pragma", "error", "warning", "line", "region", "endregion"].map (·.toList)

/-- The syntax assumed when the language is not known. -/
def unknown : CommentSyntax := ⟨.unlessDirective, true⟩

/-- The syntax of a language, looked up without regard to ASCII case. A
language in neither of the hash lists gets the rules of an unknown one. -/
def ofLanguage : Option Text → CommentSyntax
  | none => unknown
  | some language =>
    let id := Text.lower language
    let isHashComment := hashCommentLanguages.contains id
    let isHashCode := hashCodeLanguages.contains id
    { hash :=
        if isHashComment then .always
        else if isHashCode then .never
        else .unlessDirective
      doubleDash := doubleDashLanguages.contains id || !(isHashComment || isHashCode) }

/-- Whether what follows a hash makes it an attribute or a directive. -/
def isDirective (rest : Text) : Bool :=
  Text.startsWith "[".toList rest || Text.startsWith "![".toList rest ||
    directives.contains (rest.takeWhile Char.isAlpha)

/-- Whether a text begins with a line comment. -/
def startsComment (comments : CommentSyntax) (t : Text) : Bool :=
  match t with
  | '/' :: '/' :: _ => true
  | '-' :: '-' :: _ => comments.doubleDash
  | '#' :: rest =>
    match comments.hash with
    | .always => true
    | .unlessDirective => !isDirective rest
    | .never => false
  | _ => false

end CommentSyntax

end LineGuard
