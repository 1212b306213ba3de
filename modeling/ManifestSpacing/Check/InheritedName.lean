import ManifestSpacing.Check.Outline

/-!
# Spacing around the name of an inherited class

The parent is the first code after the keyword, and the brace the first code
after the parent. Comments may stand in either gap; such a gap is reported and
left alone.
-/

namespace ManifestSpacing

namespace InheritedName

/-- The index of the parent's name after the keyword at an index. -/
def parent? (outline : Outline) (keyword : Nat) : Option Nat :=
  match Neighbors.nextCode? outline.kinds keyword with
  | none => none
  | some name =>
    if outline.kinds[name]? = some .name ∨ outline.kinds[name]? = some .classRef then some name
    else none

/-- The problem of a gap that should be a single space. -/
def problem? (outline : Outline) (check : Check) (left right : Nat) : Option Problem :=
  let gap := Gap.between outline.tokens left right
  if GapRule.singleSpace.accepts gap then none
  else
    (outline.problem? check left right .singleSpace).map fun p =>
      if gap.hasComment then { p with fixable := false } else p

/-- The problem between the keyword at an index and its parent's name. -/
def problemBefore? (outline : Outline) (keyword : Nat) : Option Problem :=
  match parent? outline keyword with
  | none => none
  | some name => problem? outline .inheritsNameBefore keyword name

/-- The problem between the parent's name and the brace after it. -/
def problemAfter? (outline : Outline) (keyword : Nat) : Option Problem :=
  match parent? outline keyword with
  | none => none
  | some name =>
    match Neighbors.nextCode? outline.kinds name with
    | none => none
    | some brace =>
      if outline.kinds[brace]? = some .openBrace then
        problem? outline .inheritsNameAfter name brace
      else none

/-- All problems before parents' names. -/
def problemsBefore (outline : Outline) : List Problem :=
  (outline.indicesOf .inheritsWord).filterMap (problemBefore? outline)

/-- All problems after parents' names. -/
def problemsAfter (outline : Outline) : List Problem :=
  (outline.indicesOf .inheritsWord).filterMap (problemAfter? outline)

end InheritedName

end ManifestSpacing
