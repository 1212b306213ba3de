import ManifestSpacing.Lexical.Regex
import ManifestSpacing.Token.Kind

/-!
# The lexical grammar of manifests

Each rule pairs a regular expression with what its text begins or is. At every
place the longest match over all rules wins. Where no rule matches, a single
quote takes everything up to where its string breaks off, and any other
character stands alone.
-/

namespace ManifestSpacing

/-- What a matched text is, before its surroundings are taken into account. -/
inductive Lexeme where
  /-- A complete token of a fixed kind. -/
  | plain (kind : TokenKind)
  /-- A lower-case name or a reserved word. -/
  | word
  /-- The start of a block comment. -/
  | commentStart
  /-- The double quote that opens a string. -/
  | quote
  /-- An opening brace, which may stand inside an interpolation. -/
  | openBrace
  /-- A closing brace, which may end an interpolation. -/
  | closeBrace
  deriving DecidableEq, Repr

/-- A pattern of the grammar with the lexeme that it recognises. -/
structure LexicalRule where
  /-- What the matched text is. -/
  lexeme : Lexeme
  /-- The texts that the rule matches. -/
  pattern : Regex
  deriving DecidableEq, Repr

namespace Grammar

open Regex

/-- An identifier with a given kind of first character. -/
def identifier (start : CharSet) : Regex := .seq (.chars start) (.star (.chars .identifier))

/-- A qualified name: identifiers joined by double colons, perhaps with leading ones. -/
def qualified (start : CharSet) : Regex :=
  sequence [optional (literal "::"), identifier start,
    .star (.seq (literal "::") (identifier start))]

/-- The inside of a single-quoted string: plain characters, and escapes that do not span a line. -/
def singleQuotedBody : Regex :=
  .star (.alt (.chars (.exceptText "'\\"))
    (.seq (.chars (.ofText "\\")) (.chars (.exceptText "\n"))))

/-- A complete single-quoted string. -/
def singleQuoted : Regex := sequence [literal "'", singleQuotedBody, literal "'"]

/-- A single quote and what its string holds before it breaks off. -/
def brokenSingleQuoted : Regex := .seq (literal "'") singleQuotedBody

/-- A decimal number with optional fraction and exponent. -/
def decimal : Regex :=
  sequence [plus (.chars .digit),
    optional (.seq (literal ".") (plus (.chars .digit))),
    optional (sequence [.chars (.ofText "eE"), optional (.chars (.ofText "+-")),
      plus (.chars .digit)])]

/-- A hexadecimal number. -/
def hexadecimal : Regex :=
  sequence [literal "0", .chars (.ofText "xX"), plus (.chars .hexDigit)]

/-- Operators and stray punctuation. -/
def operator : Regex :=
  choice [literal "==", literal "!=", literal "=~", literal "!~", literal "<=", literal ">=",
    literal "->", literal "~>", literal "<-", literal "<~", literal "<<", literal ">>",
    literal "+=", literal "-=", .chars (.ofText "+-*/%<>!|?:;@&^~")]

/-- Every rule of the grammar. -/
def rules : List LexicalRule :=
  [⟨.plain .whitespace, plus (.chars (.ofText " \t"))⟩,
    ⟨.plain .newline, .seq (optional (literal "\r")) (literal "\n")⟩,
    ⟨.plain .comment, .seq (literal "#") (.star (.chars (.exceptText "\r\n")))⟩,
    ⟨.commentStart, literal "/*"⟩,
    ⟨.openBrace, literal "\x7b"⟩,
    ⟨.closeBrace, literal "\x7d"⟩,
    ⟨.plain .openBracket, literal "["⟩,
    ⟨.plain .closeBracket, literal "]"⟩,
    ⟨.plain .openParen, literal "("⟩,
    ⟨.plain .closeParen, literal ")"⟩,
    ⟨.plain .comma, literal ","⟩,
    ⟨.plain .period, literal "."⟩,
    ⟨.plain .equals, literal "="⟩,
    ⟨.plain .farArrow, literal "=>"⟩,
    ⟨.quote, literal "\""⟩,
    ⟨.plain .string, singleQuoted⟩,
    ⟨.plain .variableRef, .seq (literal "$") (qualified .anyStart)⟩,
    ⟨.word, qualified .lowerStart⟩,
    ⟨.plain .classRef, qualified .upperStart⟩,
    ⟨.plain .number, decimal⟩,
    ⟨.plain .number, hexadecimal⟩,
    ⟨.plain .other, operator⟩]

/-- Reserved words without a kind of their own. -/
def keywords : List String :=
  ["and", "application", "attr", "case", "class", "consumes", "default", "define", "false",
    "function", "import", "in", "node", "or", "plan", "private", "produces", "site", "true",
    "type", "undef"]

/-- The kind of a lower-case word. -/
def wordKind (text : String) : TokenKind :=
  if text = "inherits" then .inheritsWord
  else if text = "if" then .ifWord
  else if text = "elsif" then .elsifWord
  else if text = "else" then .elseWord
  else if text = "unless" then .unlessWord
  else if text ∈ keywords then .keyword
  else .name

/-- The first longest match of some rules at the front of a text, if it is not empty. -/
def bestMatch (rules : List LexicalRule) (source : List Char) : Option (Lexeme × Nat) :=
  rules.foldl
    (fun best rule =>
      match rule.pattern.longestMatch source with
      | some n => if (best.map Prod.snd).getD 0 < n then some (rule.lexeme, n) else best
      | none => best)
    none

/-- The lexeme at the front of a nonempty text, with its length in characters. -/
def firstLexeme (source : List Char) : Lexeme × Nat :=
  match bestMatch rules source with
  | some found => found
  | none => (.plain .other, (brokenSingleQuoted.longestMatch source).getD 1)

end Grammar

end ManifestSpacing
