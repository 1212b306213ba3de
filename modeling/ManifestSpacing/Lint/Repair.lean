import ManifestSpacing.Check.Problem
import ManifestSpacing.Token.Stream

/-!
# Repairing one gap

A repair finds the anchors of a problem in the stream as it now is, judges the
live gap anew and only ever replaces blanks. It refuses rather than move a
comment or pull code into one.
-/

namespace ManifestSpacing

/-- Why a repair was not made. -/
inductive Refusal where
  /-- An anchor is gone, or the left one does not precede the right one. -/
  | anchorMissing
  /-- Something that is not blank stands in the gap. -/
  | commentInGap
  /-- The gap ends a line comment and the repair would not end the line. -/
  | wouldJoinLineComment
  /-- The stream refused the replacement. -/
  | gap (error : GapError)
  deriving DecidableEq, Repr

/-- The wording of a refusal. -/
def Refusal.message : Refusal → String
  | .anchorMissing => "Anchor token is no longer in the stream"
  | .commentInGap => "A comment sits in the gap"
  | .wouldJoinLineComment =>
    "Removing the newline would pull the next token into a line comment"
  | .gap error => "Gap rejected by the token stream: " ++ error.message

/-- What became of a repair. -/
inductive RepairOutcome where
  /-- The gap was replaced. -/
  | fixed (removed inserted : Nat)
  /-- The gap satisfies the rule already. -/
  | alreadyFixed
  /-- Nothing was changed. -/
  | refused (reason : Refusal)
  deriving DecidableEq, Repr

/-- Whether the gap satisfies the rule afterwards. -/
def RepairOutcome.isFixed : RepairOutcome → Bool
  | .fixed .. | .alreadyFixed => true
  | .refused _ => false

/-- Rewrites the gap of a problem in a stream. -/
def TokenStream.rewriteGap (s : TokenStream) (p : Problem) : RepairOutcome × TokenStream :=
  match s.positionNear? p.anchors.left p.anchors.hint with
  | none => (.refused .anchorMissing, s)
  | some left =>
    match s.positionNear? p.anchors.right (left + 1) with
    | none => (.refused .anchorMissing, s)
    | some right =>
      if right ≤ left then (.refused .anchorMissing, s)
      else
        let gap := Gap.between s.tokens left right
        if p.rule.accepts gap then (.alreadyFixed, s)
        else if gap.any fun t => !t.kind.isBlank then (.refused .commentInGap, s)
        else
          let pieces := p.rule.repair gap
          if (s.tokens[left]?).any Token.isLineComment && !pieces.any GapPiece.isNewline then
            (.refused .wouldJoinLineComment, s)
          else
            match s.replaceGap (left + 1) right pieces with
            | (.ok (), repaired) => (.fixed (right - left - 1) pieces.length, repaired)
            | (.error error, kept) => (.refused (.gap error), kept)

/-- A repair with the problem's flag brought up to date. -/
structure Repair where
  /-- What became of it. -/
  outcome : RepairOutcome
  /-- The stream afterwards. -/
  stream : TokenStream
  /-- The problem afterwards. -/
  problem : Problem
  deriving DecidableEq, Repr

/-- Repairs the gap of a problem and marks the problem as fixed when its rule then holds. -/
def TokenStream.fix (s : TokenStream) (p : Problem) : Repair :=
  let (outcome, repaired) := s.rewriteGap p
  ⟨outcome, repaired, if outcome.isFixed then { p with fixed := true } else p⟩

end ManifestSpacing
