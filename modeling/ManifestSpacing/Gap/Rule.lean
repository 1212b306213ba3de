import ManifestSpacing.Gap.Piece

/-!
# Gap rules

A rule says which blanks may stand in a gap and what a wrong gap is replaced
by. Before a closing brace a gap is judged by what it closes: an empty pair is
tight, a body that ends its line keeps exactly one line end and the
indentation after the last one, and an inline body ends in one space. After a
closing brace a line end is always welcome. Whatever a rule puts into a gap it
also accepts there.
-/

namespace ManifestSpacing

/-- What a closing brace ends. -/
inductive BodyClass where
  /-- Nothing stands between the brace and its opener. -/
  | emptyPair
  /-- The body's last line ends before the brace. -/
  | lineBreakBody
  /-- The body's last token shares a line with the brace. -/
  | inlineBody
  deriving DecidableEq, Repr

/-- What follows a closing brace. -/
inductive FollowerClass where
  /-- A token that hugs the brace. -/
  | tight
  /-- Another closing brace. -/
  | nested
  /-- Any other token. -/
  | loose
  deriving DecidableEq, Repr

/-- Which spacing a gap must have. -/
inductive GapRule where
  /-- The gap before a closing brace. -/
  | before (body : BodyClass)
  /-- The gap after a closing brace. -/
  | after (follower : FollowerClass)
  /-- Exactly one space. -/
  | singleSpace
  deriving DecidableEq, Repr

/-- Classifies the gap before a closing brace, given whether the token before the gap is the
brace's own opener. -/
def BodyClass.classify (afterOpener : Bool) (gap : Gap) : BodyClass :=
  if gap.hasNewline then .lineBreakBody else if afterOpener then .emptyPair else .inlineBody

namespace GapRule

/-- Every rule. -/
def all : List GapRule :=
  [.before .emptyPair, .before .lineBreakBody, .before .inlineBody, .after .tight,
    .after .nested, .after .loose, .singleSpace]

/-- Whether a gap satisfies the rule. -/
def accepts (rule : GapRule) (gap : Gap) : Bool :=
  match rule with
  | .before .emptyPair => gap.isEmpty
  | .before .lineBreakBody => gap.newlineCount == 1
  | .before .inlineBody | .singleSpace => gap.isSingleSpace
  | .after .tight => gap.hasNewline || gap.isEmpty
  | .after .nested => gap.hasNewline || gap.isEmpty || gap.isSingleSpace
  | .after .loose => gap.hasNewline || gap.isSingleSpace

/-- The tokens after the last line end of a gap, or the whole gap. -/
def afterLastNewline (gap : Gap) : Gap :=
  (gap.reverse.takeWhile fun t => t.kind != .newline).reverse

/-- Keeps what stands up to the first line end and after the last one. A gap without a line end
becomes one. -/
def collapseNewlines (gap : Gap) : List GapPiece :=
  match gap.dropWhile fun t => t.kind != .newline with
  | [] => [.newline "\n"]
  | first :: _ =>
    ((gap.takeWhile fun t => t.kind != .newline) ++ first :: afterLastNewline gap).map
      GapPiece.ofToken

/-- What a gap that breaks the rule is replaced by. -/
def repair (rule : GapRule) (gap : Gap) : List GapPiece :=
  match rule with
  | .before .emptyPair | .after .tight => []
  | .before .lineBreakBody => collapseNewlines gap
  | .before .inlineBody | .after .nested | .after .loose | .singleSpace => [.space]

end GapRule

end ManifestSpacing
