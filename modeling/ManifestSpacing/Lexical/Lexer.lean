import ManifestSpacing.Lexical.Grammar
import ManifestSpacing.Lexical.Segment
import ManifestSpacing.Token.Stream

/-!
# Lexing

A manifest is cut into tokens without losing a character. The code inside the
interpolations of a double-quoted string is tokenised like any other code, so
the lexer keeps a stack of the strings whose interpolation is open: a closing
brace continues the innermost string once the braces opened inside its
interpolation are closed. A string that never ends is the only lexical error.
-/

namespace ManifestSpacing

/-- A string that is not terminated, located at its opening quote. -/
structure LexError where
  /-- Where the string starts. -/
  position : Position
  deriving DecidableEq, Repr

/-- The wording of a lexical error. -/
def LexError.message (e : LexError) : String :=
  s!"Unterminated string starting at line {e.position.line}, column {e.position.column}"

/-- A string with an open interpolation. -/
structure OpenString where
  /-- Braces opened inside the interpolation and not closed yet. -/
  braces : Nat
  /-- Where the string starts. -/
  start : Position
  deriving DecidableEq, Repr

namespace Lexer

/-- What the lexer decides about the token at the front of a text. -/
structure Step where
  /-- Kind of the token. -/
  kind : TokenKind
  /-- Its length in characters. -/
  length : Nat
  /-- The open strings after it, innermost first. -/
  opens : List OpenString
  deriving DecidableEq, Repr

/-- The number of characters through the end of a block comment. -/
def commentEnd? : List Char → Option Nat
  | [] => none
  | [_] => none
  | c :: d :: rest =>
    if c = '*' ∧ d = '/' then some 2 else (commentEnd? (d :: rest)).map (· + 1)

/-- Counts an opening brace for the innermost open string. -/
def countBrace : List OpenString → List OpenString
  | [] => []
  | o :: os => { o with braces := o.braces + 1 } :: os

/-- Decides the token at the front of a nonempty text. -/
def step (opens : List OpenString) (here : Position) (source : List Char) :
    Except LexError Step :=
  let (lexeme, n) := Grammar.firstLexeme source
  match lexeme with
  | .plain kind => .ok ⟨kind, n, opens⟩
  | .word => .ok ⟨Grammar.wordKind (String.ofList (source.take n)), n, opens⟩
  | .commentStart =>
    match commentEnd? (source.drop n) with
    | some m => .ok ⟨.comment, n + m, opens⟩
    | none => .ok ⟨.other, n, opens⟩
  | .quote =>
    match Segment.scan (source.drop n) with
    | none => .error ⟨here⟩
    | some (.closed, m) => .ok ⟨.string, n + m, opens⟩
    | some (.interpolation, m) => .ok ⟨.quoteOpen, n + m, ⟨0, here⟩ :: opens⟩
  | .openBrace => .ok ⟨.openBrace, n, countBrace opens⟩
  | .closeBrace =>
    match opens with
    | [] => .ok ⟨.closeBrace, n, []⟩
    | o :: os =>
      if 0 < o.braces then .ok ⟨.closeBrace, n, { o with braces := o.braces - 1 } :: os⟩
      else
        match Segment.scan (source.drop n) with
        | none => .error ⟨o.start⟩
        | some (.closed, m) => .ok ⟨.quoteClose, n + m, os⟩
        | some (.interpolation, m) => .ok ⟨.quoteMid, n + m, o :: os⟩

/-- The tokens of a text, given the open strings, the position and the identity to go on with. A
token takes the first character in any case. At the end of the text the outermost open string is
the one that is reported. -/
def tokensFrom (opens : List OpenString) (here : Position) (id : TokenId) (source : List Char) :
    Except LexError (List Token) :=
  match source with
  | [] =>
    match opens.getLast? with
    | none => .ok []
    | some o => .error ⟨o.start⟩
  | c :: cs =>
    match step opens here (c :: cs) with
    | .error e => .error e
    | .ok found =>
      let text := c :: cs.take (found.length - 1)
      match tokensFrom found.opens (here.advance text) (id + 1) (cs.drop (found.length - 1)) with
      | .error e => .error e
      | .ok tokens => .ok (⟨id, found.kind, String.ofList text, here⟩ :: tokens)
termination_by source.length
decreasing_by simp only [List.length_drop, List.length_cons]; omega

end Lexer

/-- The token stream of a manifest. -/
def lex (source : String) : Except LexError TokenStream :=
  match Lexer.tokensFrom [] .start 0 source.toList with
  | .error e => .error e
  | .ok tokens => .ok ⟨tokens, tokens.length⟩

end ManifestSpacing
