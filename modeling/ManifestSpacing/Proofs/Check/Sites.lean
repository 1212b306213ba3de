import ManifestSpacing.Lint.Linter
import ManifestSpacing.Proofs.Check.Outlines
import ManifestSpacing.Proofs.Gap.Layout

/-!
# Sites

Every check looks at gaps between two tokens and demands something of each.
These sites depend on the content of a manifest and not on its blanks; what
the blanks decide is whether a site has a problem. All four checks judge their
sites alike, and a problem can be repaired exactly when no comment stands in
its gap.
-/

namespace ManifestSpacing

/-- What a check demands of a gap, before the gap is seen. -/
inductive Demand where
  /-- Spacing before a closing brace, perhaps right behind its opener. -/
  | body (afterOpener : Bool)
  /-- Spacing between a closing brace and what follows it. -/
  | follower (next : FollowerClass)
  /-- A single space around a name. -/
  | word
  deriving DecidableEq, Repr

/-- The rule by which a demand judges a gap. -/
def Demand.rule (demand : Demand) (gap : Gap) : GapRule :=
  match demand with
  | .body afterOpener => .before (BodyClass.classify afterOpener gap)
  | .follower next => .after next
  | .word => .singleSpace

/-- Two tokens, by their indices, and what is demanded of the gap between them. -/
structure Site where
  /-- The token before the gap. -/
  left : Nat
  /-- The token behind the gap. -/
  right : Nat
  /-- What is demanded of the gap. -/
  demand : Demand
  deriving DecidableEq, Repr

/-- The site at moved indices. -/
def Site.move (f : Nat → Nat) (site : Site) : Site := ⟨f site.left, f site.right, site.demand⟩

/-- The sites that a check looks at. -/
def Check.sites (check : Check) (outline : Outline) : List Site :=
  match check with
  | .inheritsNameBefore =>
    (outline.indicesOf .inheritsWord).filterMap fun keyword =>
      (InheritedName.parent? outline keyword).map fun name => ⟨keyword, name, .word⟩
  | .inheritsNameAfter =>
    (outline.indicesOf .inheritsWord).filterMap fun keyword =>
      (InheritedName.parent? outline keyword).bind fun name =>
        (Neighbors.nextCode? outline.kinds name).bind fun brace =>
          if outline.kinds[brace]? = some .openBrace then some ⟨name, brace, .word⟩ else none
  | .closingBraceBefore =>
    outline.checkedCloseBraces.filterMap fun brace =>
      (Neighbors.prevContent? outline.kinds brace).map fun prev =>
        ⟨prev, brace, .body (outline.kinds[prev]? == some .openBrace &&
          outline.pairing.partner? brace == some prev)⟩
  | .closingBraceAfter =>
    outline.checkedCloseBraces.filterMap fun brace =>
      (Neighbors.nextContent? outline.kinds brace).bind fun next =>
        (outline.tokens[next]?).map fun follower =>
          ⟨brace, next, .follower (FollowerClass.classify outline.settings.tight follower)⟩

/-- The problem of a site, if its gap breaks the rule. -/
def Outline.judge (outline : Outline) (check : Check) (site : Site) : Option Problem :=
  let gap := Gap.between outline.tokens site.left site.right
  let rule := site.demand.rule gap
  if rule.accepts gap then none
  else (outline.problem? check site.left site.right rule).map fun p =>
    { p with fixable := !gap.hasComment }

/-! ## All checks judge alike -/

private theorem problem?_fixable (outline : Outline) (check : Check) (left right : Nat)
    (rule : GapRule) : (outline.problem? check left right rule).map
      (fun p => { p with fixable := true }) = outline.problem? check left right rule := by
  unfold Outline.problem?
  split
  · rfl
  · rfl

private theorem hasComment_between {tokens : List Token} {left right : Nat}
    (h : ∀ m, left < m → m < right →
      ((tokens.map Token.kind)[m]?).any (fun kind => !kind.isBlank) = false) :
    (Gap.between tokens left right).hasComment = false := by
  apply Gap.IsBlank.hasComment_eq_false
  intro t ht
  obtain ⟨i, hi⟩ := List.mem_iff_getElem?.mp ht
  rw [Gap.between, List.getElem?_drop, List.getElem?_take] at hi
  split at hi
  · rename_i hlt
    have hnot := h (left + 1 + i) (by omega) hlt
    rw [List.getElem?_map, hi] at hnot
    simpa using hnot
  · cases hi

private theorem InheritedName.problem?_eq_judge (outline : Outline) (check : Check)
    (left right : Nat) :
    InheritedName.problem? outline check left right = outline.judge check ⟨left, right, .word⟩ := by
  unfold InheritedName.problem? Outline.judge
  dsimp only [Demand.rule]
  split
  · rfl
  · cases hcomment : (Gap.between outline.tokens left right).hasComment with
    | true => rfl
    | false =>
      simp only [Bool.false_eq_true, if_false, Option.map_id', Bool.not_false, problem?_fixable]

/-- The problems that a check finds are those of its sites, in order. -/
theorem problems_eq_filterMap_sites (tokens : List Token) (settings : Settings) (check : Check) :
    check.problems (Outline.ofTokens tokens settings) =
      (check.sites (Outline.ofTokens tokens settings)).filterMap
        ((Outline.ofTokens tokens settings).judge check) := by
  generalize houtline : Outline.ofTokens tokens settings = outline
  have hkinds : outline.kinds = outline.tokens.map Token.kind := by rw [← houtline]; rfl
  cases check with
  | inheritsNameBefore =>
    simp only [Check.problems, InheritedName.problemsBefore, Check.sites, List.filterMap_filterMap]
    congr 1
    funext keyword
    unfold InheritedName.problemBefore?
    cases InheritedName.parent? outline keyword with
    | none => rfl
    | some name => exact InheritedName.problem?_eq_judge outline _ keyword name
  | inheritsNameAfter =>
    simp only [Check.problems, InheritedName.problemsAfter, Check.sites, List.filterMap_filterMap]
    congr 1
    funext keyword
    unfold InheritedName.problemAfter?
    cases InheritedName.parent? outline keyword with
    | none => rfl
    | some name =>
      simp only [Option.bind_some]
      cases Neighbors.nextCode? outline.kinds name with
      | none => rfl
      | some brace =>
        simp only [Option.bind_some]
        split
        · exact InheritedName.problem?_eq_judge outline _ name brace
        · rfl
  | closingBraceBefore =>
    simp only [Check.problems, ClosingBrace.problemsBefore, Check.sites, List.filterMap_filterMap]
    congr 1
    funext brace
    unfold ClosingBrace.problemBefore?
    cases hprev : Neighbors.prevContent? outline.kinds brace with
    | none => rfl
    | some prev =>
      have hblank := hasComment_between (hkinds ▸ (Neighbors.before?_eq_some hprev).2.2)
      simp only [Option.map_some, Option.bind_some, Outline.judge, Demand.rule, hblank,
        Bool.not_false, problem?_fixable]
  | closingBraceAfter =>
    simp only [Check.problems, ClosingBrace.problemsAfter, Check.sites, List.filterMap_filterMap]
    congr 1
    funext brace
    unfold ClosingBrace.problemAfter?
    cases hnext : Neighbors.nextContent? outline.kinds brace with
    | none => rfl
    | some next =>
      simp only [Option.bind_some]
      cases outline.tokens[next]? with
      | none => rfl
      | some follower =>
        have hblank := hasComment_between (hkinds ▸ (Neighbors.after?_eq_some hnext).2.2)
        simp only [Option.map_some, Option.bind_some, Outline.judge, Demand.rule, hblank,
          Bool.not_false, problem?_fixable]

/-! ## Sites of the content -/

/-- The index of the `k`-th token of content. -/
def contentPlace (tokens : List Token) : Nat → Nat :=
  Skeleton.place (fun kind => !kind.isBlank) (tokens.map Token.kind)

private theorem not_isBlank_of_not_isTrivia (kind : TokenKind) (h : kind.isTrivia = false) :
    (!kind.isBlank) = true := by
  simp only [TokenKind.isTrivia, Bool.or_eq_false_iff] at h
  simp [h.1]

theorem map_kind_contentOf (tokens : List Token) :
    (contentOf tokens).map Token.kind =
      (tokens.map Token.kind).filter fun kind => !kind.isBlank := by
  rw [List.filter_map]
  rfl

namespace Outline

variable (tokens : List Token) (settings : Settings)

/-- The outline of the content alone. -/
private abbrev inner : Outline := ofTokens (contentOf tokens) settings

private theorem kinds_inner : (inner tokens settings).kinds =
    (tokens.map Token.kind).filter fun kind => !kind.isBlank :=
  map_kind_contentOf tokens

private theorem pairing_inner : (inner tokens settings).pairing =
    Pairing.ofKinds ((tokens.map Token.kind).filter fun kind => !kind.isBlank) :=
  congrArg Pairing.ofKinds (map_kind_contentOf tokens)

theorem getElem?_contentPlace (k : Nat) :
    tokens[contentPlace tokens k]? = (contentOf tokens)[k]? := by
  rw [contentPlace, Skeleton.place_map, Skeleton.getElem?_place]
  rfl

private theorem kind_contentPlace (k : Nat) :
    (ofTokens tokens settings).kinds[contentPlace tokens k]? =
      (inner tokens settings).kinds[k]? := by
  rw [kinds_inner]
  exact Skeleton.getElem?_place _ k

private theorem partner?_contentPlace (k : Nat) :
    (ofTokens tokens settings).pairing.partner? (contentPlace tokens k) =
      ((inner tokens settings).pairing.partner? k).map (contentPlace tokens) := by
  rw [pairing_inner]
  exact Skeleton.partner?_place not_isBlank_of_not_isTrivia k

private theorem nextCode?_contentPlace (k : Nat) :
    Neighbors.nextCode? (ofTokens tokens settings).kinds (contentPlace tokens k) =
      (Neighbors.nextCode? (inner tokens settings).kinds k).map (contentPlace tokens) := by
  rw [kinds_inner]
  exact Skeleton.after?_place
    (fun kind h => not_isBlank_of_not_isTrivia kind (by simpa using h)) k

private theorem nextContent?_contentPlace (k : Nat) :
    Neighbors.nextContent? (ofTokens tokens settings).kinds (contentPlace tokens k) =
      (Neighbors.nextContent? (inner tokens settings).kinds k).map (contentPlace tokens) := by
  rw [kinds_inner]
  exact Skeleton.after?_place (fun _ h => h) k

private theorem prevContent?_contentPlace (k : Nat) :
    Neighbors.prevContent? (ofTokens tokens settings).kinds (contentPlace tokens k) =
      (Neighbors.prevContent? (inner tokens settings).kinds k).map (contentPlace tokens) := by
  rw [kinds_inner]
  exact Skeleton.before?_place (fun _ h => h) k

/-- Tests of single tokens of content hold at the places of those that pass. -/
private theorem filter_range_kinds {test : Nat → Bool} {kind : TokenKind}
    (hkind : kind.isBlank = false)
    (h : ∀ i, test i = true → (ofTokens tokens settings).kinds[i]? = some kind) :
    (List.range (ofTokens tokens settings).kinds.length).filter test =
      ((List.range (inner tokens settings).kinds.length).filter fun k =>
        test (contentPlace tokens k)).map (contentPlace tokens) := by
  rw [kinds_inner]
  apply Skeleton.filter_range_eq_map
  intro i hi
  rw [h i hi]
  simp [hkind]

private theorem indicesOf_contentPlace {kind : TokenKind} (hkind : kind.isBlank = false) :
    (ofTokens tokens settings).indicesOf kind =
      ((inner tokens settings).indicesOf kind).map (contentPlace tokens) := by
  rw [indicesOf, filter_range_kinds tokens settings hkind (by simp)]
  simp only [kind_contentPlace]
  rfl

private theorem checkedCloseBraces_contentPlace :
    (ofTokens tokens settings).checkedCloseBraces =
      (inner tokens settings).checkedCloseBraces.map (contentPlace tokens) :=
  checkedCloseBraces_place not_isBlank_of_not_isTrivia (map_kind_contentOf tokens) settings

private theorem parent?_contentPlace (k : Nat) :
    InheritedName.parent? (ofTokens tokens settings) (contentPlace tokens k) =
      (InheritedName.parent? (inner tokens settings) k).map (contentPlace tokens) := by
  unfold InheritedName.parent?
  rw [nextCode?_contentPlace]
  cases Neighbors.nextCode? (inner tokens settings).kinds k with
  | none => rfl
  | some name =>
    simp only [Option.map_some, kind_contentPlace]
    split <;> rfl

/-- The sites of a manifest are those of its content, at moved indices. -/
theorem sites_eq_map_move (check : Check) : check.sites (ofTokens tokens settings) =
    (check.sites (ofTokens (contentOf tokens) settings)).map (Site.move (contentPlace tokens)) := by
  cases check with
  | inheritsNameBefore =>
    simp only [Check.sites]
    rw [indicesOf_contentPlace tokens settings rfl, List.filterMap_map, List.map_filterMap]
    congr 1
    funext k
    simp only [Function.comp_apply, parent?_contentPlace, Option.map_map]
    rfl
  | inheritsNameAfter =>
    simp only [Check.sites]
    rw [indicesOf_contentPlace tokens settings rfl, List.filterMap_map, List.map_filterMap]
    congr 1
    funext k
    simp only [Function.comp_apply, parent?_contentPlace]
    cases InheritedName.parent? (inner tokens settings) k with
    | none => rfl
    | some name =>
      simp only [Option.map_some, Option.bind_some, nextCode?_contentPlace]
      cases Neighbors.nextCode? (inner tokens settings).kinds name with
      | none => rfl
      | some brace =>
        simp only [Option.map_some, Option.bind_some, kind_contentPlace]
        split <;> rfl
  | closingBraceBefore =>
    simp only [Check.sites]
    rw [checkedCloseBraces_contentPlace, List.filterMap_map, List.map_filterMap]
    congr 1
    funext k
    simp only [Function.comp_apply, prevContent?_contentPlace, Option.map_map]
    cases Neighbors.prevContent? (inner tokens settings).kinds k with
    | none => rfl
    | some prev =>
      have hpartner : ((ofTokens tokens settings).pairing.partner? (contentPlace tokens k) ==
          some (contentPlace tokens prev)) =
            ((inner tokens settings).pairing.partner? k == some prev) := by
        rw [partner?_contentPlace, Bool.eq_iff_iff, beq_iff_eq, beq_iff_eq,
          ← Option.map_some (f := contentPlace tokens)]
        exact (Option.map_injective (Skeleton.strictMono_place _).injective).eq_iff
      simp only [Option.map_some, Function.comp_apply, kind_contentPlace, hpartner]
      rfl
  | closingBraceAfter =>
    simp only [Check.sites]
    rw [checkedCloseBraces_contentPlace, List.filterMap_map, List.map_filterMap]
    congr 1
    funext k
    simp only [Function.comp_apply, nextContent?_contentPlace]
    cases Neighbors.nextContent? (inner tokens settings).kinds k with
    | none => rfl
    | some next =>
      simp only [Option.map_some, Option.bind_some]
      rw [show (ofTokens tokens settings).tokens[contentPlace tokens next]? =
        (inner tokens settings).tokens[next]? from getElem?_contentPlace tokens next,
        Option.map_map]
      rfl

end Outline

end ManifestSpacing
