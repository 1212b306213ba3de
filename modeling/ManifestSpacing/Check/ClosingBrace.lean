import ManifestSpacing.Check.Outline

/-!
# Spacing around closing braces

Both gaps of a checked closing brace run to the nearest token that is not
blank, so a comment counts as a neighbour. Nothing after the last brace is
always fine.
-/

namespace ManifestSpacing

namespace ClosingBrace

/-- The problem before the closing brace at an index. -/
def problemBefore? (outline : Outline) (brace : Nat) : Option Problem :=
  match Neighbors.prevContent? outline.kinds brace with
  | none => none
  | some prev =>
    let gap := Gap.between outline.tokens prev brace
    let afterOpener := outline.kinds[prev]? == some .openBrace &&
      outline.pairing.partner? brace == some prev
    let rule := GapRule.before (BodyClass.classify afterOpener gap)
    if rule.accepts gap then none
    else outline.problem? .closingBraceBefore prev brace rule

/-- The problem after the closing brace at an index. -/
def problemAfter? (outline : Outline) (brace : Nat) : Option Problem :=
  match Neighbors.nextContent? outline.kinds brace with
  | none => none
  | some next =>
    match outline.tokens[next]? with
    | none => none
    | some follower =>
      let gap := Gap.between outline.tokens brace next
      let rule := GapRule.after (FollowerClass.classify outline.settings.tight follower)
      if rule.accepts gap then none
      else outline.problem? .closingBraceAfter brace next rule

/-- All problems before closing braces. -/
def problemsBefore (outline : Outline) : List Problem :=
  outline.checkedCloseBraces.filterMap (problemBefore? outline)

/-- All problems after closing braces. -/
def problemsAfter (outline : Outline) : List Problem :=
  outline.checkedCloseBraces.filterMap (problemAfter? outline)

end ClosingBrace

end ManifestSpacing
