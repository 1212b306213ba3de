/-!
# Token kinds

The closed set of lexical categories of a manifest. Blank kinds are the only
ones a gap between two tokens may be rewritten in; trivia are the kinds that
carry no code.
-/

namespace ManifestSpacing

/-- The lexical category of a token. -/
inductive TokenKind where
  | openBrace
  | closeBrace
  | openBracket
  | closeBracket
  | openParen
  | closeParen
  | comma
  | period
  /-- The start of an interpolated string, through its first `$` and brace. -/
  | quoteOpen
  /-- The text between two interpolations of one string. -/
  | quoteMid
  /-- The end of an interpolated string, from the brace that closes its last interpolation. -/
  | quoteClose
  | whitespace
  | newline
  | comment
  | name
  | classRef
  | inheritsWord
  | ifWord
  | elsifWord
  | elseWord
  | unlessWord
  /-- Any other reserved word. -/
  | keyword
  | variableRef
  /-- A quoted string without interpolation. -/
  | string
  | number
  | equals
  | farArrow
  | other
  deriving DecidableEq, Repr

namespace TokenKind

/-- Every kind, in declaration order. -/
def all : List TokenKind :=
  [openBrace, closeBrace, openBracket, closeBracket, openParen, closeParen, comma, period,
    quoteOpen, quoteMid, quoteClose, whitespace, newline, comment, name, classRef,
    inheritsWord, ifWord, elsifWord, elseWord, unlessWord, keyword, variableRef, string,
    number, equals, farArrow, other]

/-- The name under which messages mention a kind. -/
def label : TokenKind → String
  | openBrace => "OpenBrace"
  | closeBrace => "CloseBrace"
  | openBracket => "OpenBracket"
  | closeBracket => "CloseBracket"
  | openParen => "OpenParen"
  | closeParen => "CloseParen"
  | comma => "Comma"
  | period => "Period"
  | quoteOpen => "QuoteOpen"
  | quoteMid => "QuoteMid"
  | quoteClose => "QuoteClose"
  | whitespace => "Whitespace"
  | newline => "Newline"
  | comment => "Comment"
  | name => "Name"
  | classRef => "ClassRef"
  | inheritsWord => "Inherits"
  | ifWord => "If"
  | elsifWord => "Elsif"
  | elseWord => "Else"
  | unlessWord => "Unless"
  | keyword => "Keyword"
  | variableRef => "Variable"
  | string => "String"
  | number => "Number"
  | equals => "Equals"
  | farArrow => "FarArrow"
  | other => "Other"

/-- The kind with a given label. -/
def ofLabel? (text : String) : Option TokenKind := all.find? fun kind => kind.label == text

/-- Spaces, tabs and line ends: what a gap may be made of. -/
def isBlank : TokenKind → Bool
  | whitespace | newline => true
  | _ => false

/-- Blanks and comments. -/
def isTrivia (kind : TokenKind) : Bool := kind.isBlank || kind == comment

/-- Whether the kind opens a brace, bracket or parenthesis. -/
def isOpener : TokenKind → Bool
  | openBrace | openBracket | openParen => true
  | _ => false

/-- Whether the kind closes a brace, bracket or parenthesis. -/
def isCloser : TokenKind → Bool
  | closeBrace | closeBracket | closeParen => true
  | _ => false

/-- The list of all kinds misses none. -/
theorem mem_all (kind : TokenKind) : kind ∈ all := by cases kind <;> decide

/-- Exactly whitespace and line ends are blank. -/
theorem isBlank_iff (kind : TokenKind) :
    kind.isBlank = true ↔ kind = whitespace ∨ kind = newline := by
  cases kind <;> decide

/-- Exactly blanks and comments are trivia. -/
theorem isTrivia_iff (kind : TokenKind) :
    kind.isTrivia = true ↔ kind = whitespace ∨ kind = newline ∨ kind = comment := by
  cases kind <;> decide

end TokenKind

end ManifestSpacing
