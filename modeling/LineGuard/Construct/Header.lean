/-
# Recognising headers

Without a syntax tree, constructs are recognised by how their first line reads:
modifiers and a keyword, a name that is given a function, a return type with a
name and an opening bracket. The patterns cover the common languages at once, so
that they work when the language is not known.
-/

import LineGuard.Text.Pattern

namespace LineGuard.Construct

open Pattern

/-- A character an identifier can start with. -/
private def isNameStart (c : Char) : Bool := c.isAlpha || c == '_' || c == '$'

/-- A character inside an identifier, or one of some extra characters. -/
private def isNamePart (extra : List Char) (c : Char) : Bool :=
  Text.isWordChar c || extra.contains c

/-- Anything in round brackets up to the first that closes. -/
private def bracketed : Pattern := sequence [char '(', upTo ')', char ')']

/-- The word `pub`, possibly with a bracketed restriction. -/
private def publicMark : Pattern := both (literal "pub".toList) (optional bracketed)

/-- Any number of the given words, each with blanks behind it. -/
private def modifiers (words : List Pattern) : Pattern := many (both (oneOf words) gap)

/-- Headers that start a function by a keyword. -/
def functionKeyword : Pattern :=
  sequence [blanks,
    modifiers [oneOfWords ["export", "default", "public", "private", "protected", "internal",
      "static", "async", "abstract", "final", "override", "virtual", "inline", "extern",
      "unsafe", "const", "open", "suspend", "synchronized", "local"], publicMark],
    oneOf [oneOfWords ["def", "fn", "func"],
      both (literal "function".toList) (optional (char '*')),
      oneOfWords ["fun", "sub", "proc"]],
    wordEdge]

/-- Headers that give a name a function, as in `const f = (a) => …` or
`g: function (…) …`. -/
def functionValue : Pattern :=
  sequence [blanks,
    optional (both (literal "export".toList) gap),
    optional (both (oneOfWords ["const", "let", "var"]) gap),
    one isNameStart, many (one (isNamePart ['$', '.'])), blanks,
    either (both (optional (sequence [char ':', atLeastOne (one (· != '='))])) (char '='))
      (char ':'),
    blanks,
    optional (both (literal "async".toList) gap),
    either (both (literal "function".toList) wordEdge)
      (sequence [
        either bracketed (both (one isNameStart) (many (one (isNamePart ['$'])))),
        blanks,
        optional (sequence [char ':', atLeastOne (one (· != '='))]),
        literal "=>".toList])]

/-- What stands before the name in a definition that starts with its type. -/
private def typeWords : Pattern :=
  sequence [blanks,
    many (sequence [one isNameStart,
      many (one (isNamePart ['$', ':', '<', '>', ',', '*', '&', '[', ']'])), gap]),
    many (one fun c => c == '*' || c == '&')]

/-- The name in a definition that starts with its type. -/
private def definedName : Pattern :=
  both (one fun c => isNameStart c || c == '~') (many (one (isNamePart ['$', ':'])))

/-- The name that a line defines with an argument list, in the manner of C: some
type words, the name, and an opening bracket. -/
def namedWithArguments? (line : Text) : Option Text :=
  ((typeWords.ends (Place.start line)).flatMap fun start =>
    (definedName.ends start).filterMap fun finish =>
      if ((both blanks (char '(')).ends finish).isEmpty then none
      else some (start.rest.take (start.rest.length - finish.rest.length))).head?

/-- Headers of classes and whatever else has members. -/
def classHeader : Pattern :=
  sequence [blanks,
    modifiers [oneOfWords ["export", "default", "public", "private", "protected", "internal",
      "static", "abstract", "final", "sealed", "partial", "data", "open", "unsafe"], publicMark],
    oneOfWords ["class", "struct", "interface", "trait", "enum", "impl", "object", "module",
      "type", "union", "record", "namespace"],
    oneOf [blank, char '<', lineEnd]]

/-- Lines that decorate what follows them: decorators and attributes. -/
def decorator : Pattern :=
  both blanks
    (either
      (sequence [char '@', one (fun c => c.isAlpha || c == '_'), many (one (isNamePart ['.']))])
      (sequence [char '#', optional (char '!'), char '[']))

/-- Headers whose construct a line reading `end` closes, by the word they start
with. -/
private def keywordHeader : Pattern :=
  sequence [
    modifiers [oneOfWords ["local", "public", "private", "protected"]],
    oneOfWords ["def", "class", "module", "function", "if", "unless", "while", "until", "case",
      "begin", "for"],
    wordEdge]

/-- A line that ends in `do`, possibly with the names it binds. -/
private def trailingDo : Pattern :=
  sequence [wordEdge, literal "do".toList,
    optional (sequence [blanks, char '|', upTo '|', char '|']), lineEnd]

/-- Whether a construct that a line reading `end` closes may start with this
line. -/
def opensKeywordBlock (line : Text) : Bool := keywordHeader.heads line || trailingDo.occurs line

/-- Whether a line starts with the word `end`. -/
def startsWithEnd (line : Text) : Bool := (both (literal "end".toList) wordEdge).heads line

/-- Words that are followed by a bracket without being the name of anything
defined there. -/
def controlWords : List Text :=
  ["if", "elif", "else", "for", "foreach", "while", "until", "unless", "switch", "match", "case",
    "catch", "return", "do", "new", "throw", "sizeof", "typeof", "await", "yield", "with",
    "using", "lock", "print", "assert", "delete"].map (·.toList)

end LineGuard.Construct
