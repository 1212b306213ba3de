import ManifestSpacing.Check.Settings

/-!
# Problems

A problem names the two tokens whose gap breaks a rule by their identities,
and remembers where the left one was seen as a hint for finding it again. A
hint is a machine word: moving it stops at zero and at the largest word.
-/

namespace ManifestSpacing

/-- The two tokens around a gap. -/
structure GapAnchors where
  /-- The token before the gap. -/
  left : TokenId
  /-- The token after the gap. -/
  right : TokenId
  /-- Where the left token is expected. -/
  hint : Nat
  deriving DecidableEq, Repr

namespace GapAnchors

/-- The largest hint. -/
def maxHint : Nat := UInt64.size - 1

/-- Moves the hint, stopping at the ends of its range. -/
def shift (anchors : GapAnchors) (delta : Int) : GapAnchors :=
  { anchors with hint := min ((anchors.hint : Int) + delta).toNat maxHint }

end GapAnchors

/-- A gap that breaks a rule. -/
structure Problem where
  /-- How serious the problem is. -/
  severity : Severity
  /-- The place right after the left token. -/
  position : Position
  /-- The check that found it. -/
  check : Check
  /-- Whether it has been repaired. -/
  fixed : Bool
  /-- Whether a repair may be tried. -/
  fixable : Bool
  /-- The tokens around the gap. -/
  anchors : GapAnchors
  /-- The rule that the gap breaks. -/
  rule : GapRule
  deriving DecidableEq, Repr

namespace Problem

/-- A problem at a token, an error that can be fixed. -/
def located (check : Check) (spot : Token) (anchors : GapAnchors) (rule : GapRule) : Problem :=
  ⟨.error, spot.position, check, false, true, anchors, rule⟩

/-- What the problem says. -/
def message (p : Problem) : String := p.check.message

/-- Whether the problem is an error. -/
def isError (p : Problem) : Bool := p.severity == .error

/-- One line that tells place, severity, message and check. -/
def display (p : Problem) : String :=
  s!"{p.position.line}:{p.position.column}: " ++ p.severity.word ++ ": " ++ p.message ++
    " (" ++ p.check.name ++ ")"

/-- The order of reports: by line, then by column, then by check. -/
def precedes (p q : Problem) : Bool :=
  p.position.line < q.position.line ||
    (p.position.line == q.position.line &&
      (p.position.column < q.position.column ||
        (p.position.column == q.position.column && p.check.rank ≤ q.check.rank)))

end Problem

end ManifestSpacing
