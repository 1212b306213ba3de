import ManifestSpacing.Token.Basic

/-!
# Gaps

A gap is the run of tokens strictly between two others. Its replacement is a
list of pieces, each a stretch of spaces and tabs or one line end, so that
rewriting a gap can never introduce code.
-/

namespace ManifestSpacing

/-- One token's worth of replacement text for a gap. -/
inductive GapPiece where
  /-- A stretch of spaces and tabs. -/
  | whitespace (text : String)
  /-- One line end. -/
  | newline (text : String)
  deriving DecidableEq, Repr

namespace GapPiece

/-- A single space. -/
def space : GapPiece := .whitespace " "

/-- The kind of the token that a piece becomes. -/
def kind : GapPiece → TokenKind
  | .whitespace _ => .whitespace
  | .newline _ => .newline

/-- The text of the token that a piece becomes. -/
def text : GapPiece → String
  | .whitespace text | .newline text => text

/-- Whether the piece ends a line. -/
def isNewline : GapPiece → Bool
  | .newline _ => true
  | .whitespace _ => false

/-- The piece that repeats a blank token. -/
def ofToken (t : Token) : GapPiece :=
  if t.kind = .newline then .newline t.text else .whitespace t.text

/-- Pieces only ever become blank tokens. -/
@[simp] theorem isBlank_kind (piece : GapPiece) : piece.kind.isBlank = true := by
  cases piece <;> rfl

/-- A piece ends a line exactly when its token is a line end. -/
theorem isNewline_iff (piece : GapPiece) : piece.isNewline = true ↔ piece.kind = .newline := by
  cases piece <;> simp [isNewline, kind]

@[simp] theorem text_ofToken (t : Token) : (ofToken t).text = t.text := by
  unfold ofToken; split <;> rfl

end GapPiece

/-- The tokens strictly between two others. -/
abbrev Gap := List Token

namespace Gap

/-- The tokens strictly between two indices. -/
def between (tokens : List Token) (left right : Nat) : Gap :=
  (tokens.take right).drop (left + 1)

/-- Whether a gap holds a line end. -/
def hasNewline (gap : Gap) : Bool := gap.any fun t => t.kind == .newline

/-- How many line ends a gap holds. -/
def newlineCount (gap : Gap) : Nat := gap.countP fun t => t.kind == .newline

/-- Whether a gap is one token of one space. -/
def isSingleSpace : Gap → Bool
  | [t] => t.isSingleSpace
  | _ => false

/-- Whether a gap holds a comment. -/
def hasComment (gap : Gap) : Bool := gap.any fun t => t.kind == .comment

/-- A gap holds a line end exactly when it holds at least one. -/
theorem hasNewline_iff (gap : Gap) : hasNewline gap = true ↔ 0 < newlineCount gap := by
  simp [hasNewline, newlineCount, List.countP_pos_iff]

/-- A gap is a single space exactly when it is one such token. -/
theorem isSingleSpace_iff (gap : Gap) :
    isSingleSpace gap = true ↔ ∃ t, gap = [t] ∧ t.kind = .whitespace ∧ t.text = " " := by
  unfold isSingleSpace
  split
  · simp [Token.isSingleSpace_iff]
  · rename_i h
    simp only [Bool.false_eq_true, false_iff]
    rintro ⟨t, rfl, -⟩
    exact h t rfl

end Gap

end ManifestSpacing
