import ManifestSpacing.Token.Kind

/-!
# Tokens and their positions

A token is a piece of source text with its kind, the place where it starts and
an identity that stays with it while its neighbours are rewritten.

Lines and columns count from one. A column counts the bytes of the UTF-8
encoding since the last line feed, so a carriage return and every byte of a
longer character each move it. The position after a text depends only on the
position before it and on the characters of the text.
-/

namespace ManifestSpacing

/-! ## Positions -/

/-- A place in a source text. -/
structure Position where
  /-- One more than the number of line feeds before the place. -/
  line : Nat
  /-- One more than the number of bytes since the last line feed. -/
  column : Nat
  deriving DecidableEq, Repr

namespace Position

/-- The first place of every text. -/
def start : Position := ⟨1, 1⟩

/-- The place after one character. -/
def next (p : Position) (c : Char) : Position :=
  if c = '\n' then ⟨p.line + 1, 1⟩ else ⟨p.line, p.column + c.utf8Size⟩

/-- The place after a run of characters. -/
def advance (p : Position) (cs : List Char) : Position := cs.foldl next p

@[simp] theorem advance_nil (p : Position) : p.advance [] = p := rfl

@[simp] theorem advance_cons (p : Position) (c : Char) (cs : List Char) :
    p.advance (c :: cs) = (p.next c).advance cs := rfl

/-- Advancing over two runs in turn is advancing over their concatenation. -/
theorem advance_append (p : Position) (as bs : List Char) :
    p.advance (as ++ bs) = (p.advance as).advance bs := by
  simp only [advance, List.foldl_append]

end Position

/-! ## Tokens -/

/-- The identity of a token inside one stream. Identities are handed out as words of 32 bits. -/
abbrev TokenId := Nat

/-- The form in which messages mention an identity. -/
def TokenId.display (id : TokenId) : String := s!"#{id}"

/-- A lexical unit of a manifest. -/
structure Token where
  /-- Identity inside the stream that holds the token. -/
  id : TokenId
  /-- Lexical category. -/
  kind : TokenKind
  /-- The exact source text. -/
  text : String
  /-- Where the text starts. -/
  position : Position
  deriving DecidableEq, Repr

namespace Token

/-- Whether the token is whitespace of exactly one space. -/
def isSingleSpace (t : Token) : Bool := t.kind == .whitespace && t.text == " "

/-- Whether the token is a comment that runs to the end of its line. -/
def isLineComment (t : Token) : Bool := t.kind == .comment && t.text.toList.head? == some '#'

/-- Exactly one space, and no other blank, is a single space. -/
theorem isSingleSpace_iff (t : Token) :
    t.isSingleSpace = true ↔ t.kind = .whitespace ∧ t.text = " " := by
  simp [isSingleSpace]

/-- A line comment is a comment whose text starts with a number sign. -/
theorem isLineComment_iff (t : Token) :
    t.isLineComment = true ↔ t.kind = .comment ∧ t.text.toList.head? = some '#' := by
  simp [isLineComment]

end Token

/-- The concatenated texts of a run of tokens. -/
def renderTokens (tokens : List Token) : String :=
  String.ofList (tokens.flatMap fun t => t.text.toList)

@[simp] theorem toList_renderTokens (tokens : List Token) :
    (renderTokens tokens).toList = tokens.flatMap fun t => t.text.toList := by
  simp [renderTokens]

end ManifestSpacing
