import ManifestSpacing.Gap.Rule

/-!
# Tight followers

The tokens that stand directly after a closing brace: closing delimiters and
punctuation by kind, and any further tokens by their exact text. A closing
brace is judged on its own, whatever the set holds.
-/

namespace ManifestSpacing

/-- The tokens that hug a closing brace before them. -/
structure TightSet where
  /-- Kinds that are tight. -/
  kinds : List TokenKind
  /-- Texts that are tight whatever their kind. -/
  texts : List String
  deriving DecidableEq, Repr

namespace TightSet

/-- Closing delimiters, punctuation and the text that resumes a string. -/
def standard : TightSet :=
  ⟨[.closeParen, .closeBracket, .comma, .period, .quoteClose, .quoteMid], []⟩

/-- The standard set with further texts. -/
def withTexts (texts : List String) : TightSet := { standard with texts := texts }

/-- Whether a token is tight. -/
def contains (set : TightSet) (t : Token) : Bool :=
  set.kinds.contains t.kind || set.texts.contains t.text

/-- A token is tight exactly by its kind or by its text. -/
theorem contains_iff (set : TightSet) (t : Token) :
    set.contains t = true ↔ t.kind ∈ set.kinds ∨ t.text ∈ set.texts := by
  simp [contains]

end TightSet

/-- Classifies the token that follows a closing brace. -/
def FollowerClass.classify (tight : TightSet) (follower : Token) : FollowerClass :=
  if follower.kind = .closeBrace then .nested
  else if tight.contains follower then .tight
  else .loose

end ManifestSpacing
