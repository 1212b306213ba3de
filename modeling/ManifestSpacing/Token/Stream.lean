import ManifestSpacing.Gap.Piece

/-!
# Token streams

A stream owns the tokens of one manifest and hands out identities in
increasing order, so that an identity never names two tokens. Gaps are the
only part of a stream that can be rewritten, and only where they are blank. A
token is found again by its identity, either by reading the stream from the
front or by searching outward from a place where it is expected.
-/

namespace ManifestSpacing

/-- Why a gap cannot be replaced. -/
inductive GapError where
  /-- The range does not lie inside the stream. -/
  | outOfBounds (start stop length : Nat)
  /-- The range holds a token that is not blank. -/
  | nonWhitespace (id : TokenId) (kind : TokenKind)
  deriving DecidableEq, Repr

/-- The wording of a gap error. -/
def GapError.message : GapError → String
  | .outOfBounds start stop length =>
    s!"Gap range {start}..{stop} is out of bounds for {length} tokens"
  | .nonWhitespace id kind =>
    "Gap contains non-whitespace token " ++ TokenId.display id ++ " (" ++ kind.label ++ ")"

/-- The tokens of one manifest. -/
structure TokenStream where
  /-- The tokens in source order. -/
  tokens : List Token
  /-- The identity that the next new token gets. -/
  nextId : TokenId
  deriving DecidableEq, Repr

namespace TokenStream

/-- The stream without tokens. -/
def empty : TokenStream := ⟨[], 0⟩

/-- Whether the next identity is a word of 32 bits. The program counts identities in such words,
and a stream that would need another one ends it with an overflow. -/
def Fits (s : TokenStream) : Prop := s.nextId < UInt32.size

instance (s : TokenStream) : Decidable s.Fits :=
  inferInstanceAs (Decidable (s.nextId < UInt32.size))

/-- Number of tokens. -/
def length (s : TokenStream) : Nat := s.tokens.length

/-- Appends a token under a fresh identity. -/
def push (s : TokenStream) (kind : TokenKind) (text : String) (position : Position) :
    TokenStream :=
  ⟨s.tokens ++ [⟨s.nextId, kind, text, position⟩], s.nextId + 1⟩

/-- The text of the whole stream. -/
def render (s : TokenStream) : String := renderTokens s.tokens

/-- New tokens for the pieces of a gap, with consecutive identities and one common position. -/
def freshTokens (position : Position) : TokenId → List GapPiece → List Token
  | _, [] => []
  | id, piece :: pieces =>
    ⟨id, piece.kind, piece.text, position⟩ :: freshTokens position (id + 1) pieces

/-- Replaces the blank tokens from index `start` up to and without `stop`, and tells whether it did.
New tokens take the position of the token at `start` until positions are computed anew. -/
def replaceGap (s : TokenStream) (start stop : Nat) (pieces : List GapPiece) :
    Except GapError Unit × TokenStream :=
  if start ≤ stop ∧ stop ≤ s.tokens.length then
    match ((s.tokens.take stop).drop start).find? fun t => !t.kind.isBlank with
    | some t => (.error (.nonWhitespace t.id t.kind), s)
    | none =>
      let position := (s.tokens[start]?).elim ⟨0, 0⟩ Token.position
      (.ok (), ⟨s.tokens.take start ++ freshTokens position s.nextId pieces ++ s.tokens.drop stop,
        s.nextId + pieces.length⟩)
  else (.error (.outOfBounds start stop s.tokens.length), s)

/-- Gives every token the position that follows from the texts before it. -/
def repositionFrom : Position → List Token → List Token
  | _, [] => []
  | p, t :: ts => { t with position := p } :: repositionFrom (p.advance t.text.toList) ts

/-- Computes all positions anew from the token texts. -/
def reposition (s : TokenStream) : TokenStream :=
  { s with tokens := repositionFrom .start s.tokens }

/-! ## Finding tokens again -/

/-- The kinds of the tokens, in order. -/
def kinds (s : TokenStream) : List TokenKind := s.tokens.map Token.kind

/-- The index of the token with an identity. -/
def positionOf? (s : TokenStream) (id : TokenId) : Option Nat :=
  s.tokens.findIdx? fun t => t.id == id

/-- Whether the token at an index has an identity. -/
def holdsAt (tokens : List Token) (id : TokenId) (i : Nat) : Bool :=
  if h : i < tokens.length then tokens[i].id == id else false

/-- Looks at the places at a distance from `hint`, the later one first, and then further out. The
search ends when both places have left the stream. -/
def searchOutward (tokens : List Token) (id : TokenId) (hint : Nat) : Nat → Nat → Option Nat
  | 0, _ => none
  | rounds + 1, distance =>
    if tokens.length ≤ hint + distance ∧ hint < distance then none
    else if holdsAt tokens id (hint + distance) then some (hint + distance)
    else if distance ≠ 0 ∧ distance ≤ hint ∧ holdsAt tokens id (hint - distance) then
      some (hint - distance)
    else searchOutward tokens id hint rounds (distance + 1)

/-- The index of the token with an identity, searched outward from `hint`. A hint past the end
counts as the last place. -/
def positionNear? (s : TokenStream) (id : TokenId) (hint : Nat) : Option Nat :=
  searchOutward s.tokens id (min hint (s.tokens.length - 1)) s.tokens.length 0

/-! ## Views of the operations -/

@[simp] theorem length_freshTokens (position : Position) (id : TokenId)
    (pieces : List GapPiece) : (freshTokens position id pieces).length = pieces.length := by
  induction pieces generalizing id with
  | nil => rfl
  | cons piece pieces ih => simp [freshTokens, ih]

/-- Every fresh token is blank. -/
theorem isBlank_of_mem_freshTokens {position : Position} {id : TokenId}
    {pieces : List GapPiece} {t : Token} (h : t ∈ freshTokens position id pieces) :
    t.kind.isBlank = true := by
  induction pieces generalizing id with
  | nil => cases h
  | cons piece pieces ih =>
    rcases List.mem_cons.mp h with rfl | h
    · exact GapPiece.isBlank_kind piece
    · exact ih h

@[simp] theorem length_repositionFrom (p : Position) (ts : List Token) :
    (repositionFrom p ts).length = ts.length := by
  induction ts generalizing p with
  | nil => rfl
  | cons t ts ih => simp [repositionFrom, ih]

/-- Repositioning moves no text. -/
@[simp] theorem render_reposition (s : TokenStream) : s.reposition.render = s.render := by
  have h (p : Position) (ts : List Token) :
      (repositionFrom p ts).flatMap (fun t => t.text.toList) =
        ts.flatMap fun t => t.text.toList := by
    induction ts generalizing p with
    | nil => rfl
    | cons t ts ih => simp [repositionFrom, ih]
  simp only [render, reposition, renderTokens, h]

end TokenStream

end ManifestSpacing
