import ManifestSpacing.Proofs.Lint.Edits
import ManifestSpacing.Proofs.Lint.Exemptions

/-!
# Selecting what is reported

What one check finds does not depend on which other checks run. Sorting by
place and check is stable and so commutes with dropping problems, even where
problems tie. To run some checks is therefore to drop the problems of the
others, and to spare the braces of conditionals in value position is to drop
the problems at those. Severities are labels and nothing else. All of this
holds of any token sequence, whatever its places are.
-/

namespace ManifestSpacing

/-! ## Sorted problems -/

namespace Problem

theorem precedes_iff {p q : Problem} : p.precedes q = true ↔
    p.position.line < q.position.line ∨ p.position.line = q.position.line ∧
      (p.position.column < q.position.column ∨
        p.position.column = q.position.column ∧ p.check.rank ≤ q.check.rank) := by
  simp [precedes]

theorem precedes_trans (p q r : Problem) (hpq : p.precedes q = true) (hqr : q.precedes r = true) :
    p.precedes r = true := by
  rw [precedes_iff] at *
  omega

theorem precedes_total (p q : Problem) : p.precedes q = true ∨ q.precedes p = true := by
  rw [precedes_iff, precedes_iff]
  omega

/-- Sorting problems commutes with dropping some. -/
theorem stableSort_filter (keep : Problem → Bool) (ps : List Problem) :
    stableSort precedes (ps.filter keep) = (stableSort precedes ps).filter keep := by
  rw [← List.filterMap_eq_filter]
  apply stableSort_filterMap precedes_trans precedes_total
  intro p _ q _ p' q' hp hq
  rw [(Option.guard_eq_some_iff.mp hp).1, (Option.guard_eq_some_iff.mp hq).1]

/-- Sorting problems commutes with a change that leaves places and checks alone. -/
theorem stableSort_map (f : Problem → Problem) (hposition : ∀ p, (f p).position = p.position)
    (hcheck : ∀ p, (f p).check = p.check) (ps : List Problem) :
    stableSort precedes (ps.map f) = (stableSort precedes ps).map f := by
  rw [← List.filterMap_eq_map]
  apply stableSort_filterMap precedes_trans precedes_total
  intro p _ q _ p' q' hp hq
  obtain rfl := Option.some.inj hp
  obtain rfl := Option.some.inj hq
  simp only [precedes, hposition, hcheck]

end Problem

/-! ## Selected checks -/

namespace CheckSet

/-- The members are those of all checks that the set contains. -/
theorem checks_eq_filter (set : CheckSet) : set.checks = Check.all.filter set.contains := by
  have hmem {check : Check} : set.contains check = true ↔ check ∈ set.checks :=
    List.contains_iff_mem
  have hself : set.checks.filter set.contains = set.checks :=
    List.filter_eq_self.mpr fun _ h => hmem.mpr h
  have hsub : set.checks.Sublist (Check.all.filter set.contains) := by
    have hfilter := set.ordered.filter set.contains
    rwa [hself] at hfilter
  have hnodup : (Check.all.filter set.contains).Nodup := List.Nodup.filter _ (by decide)
  refine hsub.eq_of_length_le (List.subperm_of_subset hnodup fun check h => ?_).length_le
  exact hmem.mp (List.mem_filter.mp h).2

end CheckSet

/-- Findings of selected places are selected findings. -/
theorem flatMap_filter_of_agree {α β : Type} {f : α → List β} {keep : α → Bool} {keep' : β → Bool}
    (h : ∀ a, ∀ b ∈ f a, keep' b = keep a) (as : List α) :
    (as.filter keep).flatMap f = (as.flatMap f).filter keep' := by
  induction as with
  | nil => rfl
  | cons a as ih =>
    rw [List.flatMap_cons, List.filter_append, ← ih]
    cases ha : keep a with
    | true =>
      rw [List.filter_cons_of_pos ha, List.flatMap_cons,
        List.filter_eq_self.mpr fun b hb => (h a b hb).trans ha]
    | false =>
      have hnone : (f a).filter keep' = [] := by
        rw [List.filter_eq_nil_iff]
        intro b hb
        simp [h a b hb, ha]
      rw [List.filter_cons_of_neg (by simp [ha]), hnone, List.nil_append]

theorem filterMap_filter_of_agree {α β : Type} {f : α → Option β} {keep : α → Bool}
    {keep' : β → Bool} (h : ∀ a b, f a = some b → keep' b = keep a) (as : List α) :
    (as.filter keep).filterMap f = (as.filterMap f).filter keep' := by
  rw [List.filterMap_eq_flatMap_toList, List.filterMap_eq_flatMap_toList]
  exact flatMap_filter_of_agree (fun a b hb => h a b (Option.mem_toList.mp hb)) as

/-- The problems that a check finds are its own. -/
theorem check_eq_of_mem_problems {tokens : List Token} {settings : Settings} {check : Check}
    {p : Problem} (h : p ∈ check.problems (Outline.ofTokens tokens settings)) :
    p.check = check := by
  rw [problems_eq_filterMap_sites] at h
  obtain ⟨site, _, hjudge⟩ := List.mem_filterMap.mp h
  exact (Outline.anchors_of_judge hjudge).1

/-- To run some checks is to drop the problems of the others. -/
theorem detect_eq_filter_contains (tokens : List Token) (checks : CheckSet) (settings : Settings) :
    detect tokens checks settings =
      (detect tokens .all settings).filter fun p => checks.contains p.check := by
  have hproblems : (checks.checks.flatMap fun check =>
      check.problems (Outline.ofTokens tokens settings)) =
        (Check.all.flatMap fun check => check.problems (Outline.ofTokens tokens settings)).filter
          fun p => checks.contains p.check := by
    rw [checks.checks_eq_filter]
    apply flatMap_filter_of_agree
    intro check p hp
    rw [check_eq_of_mem_problems hp]
  rw [detect, hproblems, Problem.stableSort_filter]
  rfl

/-! ## Spared braces -/

/-- Whether an identity is that of a brace of a conditional in value position. -/
def marksValueBrace (tokens : List Token) (id : TokenId) : Bool :=
  (valueBraces tokens).any fun i => (tokens[i]?).any fun t => t.id == id

/-- Whether a problem is one of a closing brace of a conditional in value position. -/
def Problem.atValueBrace (tokens : List Token) (p : Problem) : Bool :=
  match p.check with
  | .closingBraceBefore => marksValueBrace tokens p.anchors.right
  | .closingBraceAfter => marksValueBrace tokens p.anchors.left
  | .inheritsNameBefore | .inheritsNameAfter => false

/-- Whether a site of a check is one of a closing brace of a conditional in value position. -/
def Site.atValueBrace (tokens : List Token) (check : Check) (site : Site) : Bool :=
  match check with
  | .closingBraceBefore => (valueBraces tokens).contains site.right
  | .closingBraceAfter => (valueBraces tokens).contains site.left
  | .inheritsNameBefore | .inheritsNameAfter => false

section Spared

variable {tokens : List Token}

/-- Where identities are distinct, a token is marked by its identity exactly if it is by its
index. -/
theorem marksValueBrace_eq (hnodup : (tokens.map Token.id).Nodup) {i : Nat} {t : Token}
    (ht : tokens[i]? = some t) : marksValueBrace tokens t.id = (valueBraces tokens).contains i := by
  rw [marksValueBrace, Bool.eq_iff_iff, List.any_eq_true, List.contains_iff_mem]
  constructor
  · rintro ⟨j, hj, hid⟩
    obtain ⟨u, hu, hsame⟩ := (Option.any_eq_true _ _).mp hid
    rwa [eq_of_nodup_map hnodup ht hu (eq_of_beq hsame).symm]
  · intro hi
    exact ⟨i, hi, (Option.any_eq_true _ _).mpr ⟨t, ht, beq_self_eq_true _⟩⟩

/-- A problem is at a brace of a conditional exactly if its site is. -/
theorem atValueBrace_of_judge (hnodup : (tokens.map Token.id).Nodup) {settings : Settings}
    {check : Check} {site : Site} {p : Problem}
    (h : (Outline.ofTokens tokens settings).judge check site = some p) :
    p.atValueBrace tokens = site.atValueBrace tokens check := by
  obtain ⟨rfl, left, right, hleft, hleftId, hright, hrightId⟩ := Outline.anchors_of_judge h
  unfold Problem.atValueBrace Site.atValueBrace
  rw [← hleftId, ← hrightId]
  cases p.check with
  | closingBraceBefore => exact marksValueBrace_eq hnodup hright
  | closingBraceAfter => exact marksValueBrace_eq hnodup hleft
  | inheritsNameBefore => rfl
  | inheritsNameAfter => rfl

variable (tokens) (settings : Settings)

/-- The braces that are checked by default are those that are not marked. -/
theorem checkedCloseBraces_spared :
    (Outline.ofTokens tokens { settings with checkExpressionBraces := false }).checkedCloseBraces =
      (Outline.ofTokens tokens
        { settings with checkExpressionBraces := true }).checkedCloseBraces.filter
          fun i => !(valueBraces tokens).contains i := by
  simp only [Outline.checkedCloseBraces, Outline.ofTokens, List.filter_filter,
    Bool.false_eq_true, if_false, if_true, valueBraces]
  congr 1
  funext i
  simp [Bool.and_comm]

/-- To spare the braces of conditionals is to skip the sites at them. -/
theorem sites_spared (check : Check) :
    check.sites (Outline.ofTokens tokens { settings with checkExpressionBraces := false }) =
      (check.sites (Outline.ofTokens tokens
        { settings with checkExpressionBraces := true })).filter
          fun site => !site.atValueBrace tokens check := by
  cases check with
  | inheritsNameBefore => exact (List.filter_eq_self.mpr fun _ _ => rfl).symm
  | inheritsNameAfter => exact (List.filter_eq_self.mpr fun _ _ => rfl).symm
  | closingBraceBefore =>
    simp only [Check.sites, checkedCloseBraces_spared]
    refine filterMap_filter_of_agree (fun brace site hsite => ?_) _
    obtain ⟨prev, _, rfl⟩ := Option.map_eq_some_iff.mp hsite
    rfl
  | closingBraceAfter =>
    simp only [Check.sites, checkedCloseBraces_spared]
    refine filterMap_filter_of_agree (fun brace site hsite => ?_) _
    obtain ⟨next, _, hsite⟩ := Option.bind_eq_some_iff.mp hsite
    obtain ⟨follower, _, rfl⟩ := Option.map_eq_some_iff.mp hsite
    rfl

variable {tokens}

/-- To spare the braces of conditionals is to drop the problems at them. -/
theorem detect_spared (hnodup : (tokens.map Token.id).Nodup) (checks : CheckSet) :
    detect tokens checks { settings with checkExpressionBraces := false } =
      (detect tokens checks { settings with checkExpressionBraces := true }).filter
        fun p => !p.atValueBrace tokens := by
  have hproblems (check : Check) :
      check.problems (Outline.ofTokens tokens { settings with checkExpressionBraces := false }) =
        (check.problems
          (Outline.ofTokens tokens { settings with checkExpressionBraces := true })).filter
            fun p => !p.atValueBrace tokens := by
    rw [problems_eq_filterMap_sites, problems_eq_filterMap_sites, sites_spared]
    -- what is judged at a site does not depend on the setting
    refine filterMap_filter_of_agree (fun site p hjudge => ?_) _
    exact congrArg not (atValueBrace_of_judge hnodup hjudge)
  simp only [detect, hproblems, ← List.filter_flatMap, Problem.stableSort_filter]

end Spared

/-! ## Severities -/

/-- The problem with the severity that some settings give to its check, an error by default. -/
def Problem.graded (severities : List (Check × Severity)) (p : Problem) : Problem :=
  { p with severity := (severities.lookup p.check).getD .error }

/-- Severities are labels of problems and nothing else. -/
theorem detect_graded (tokens : List Token) (checks : CheckSet) (settings : Settings)
    (severities : List (Check × Severity)) :
    detect tokens checks { settings with severities := severities } =
      (detect tokens checks settings).map (Problem.graded severities) := by
  have hjudge (check : Check) (site : Site) :
      (Outline.ofTokens tokens { settings with severities := severities }).judge check site =
        ((Outline.ofTokens tokens settings).judge check site).map (Problem.graded severities) := by
    unfold Outline.judge Outline.problem?
    dsimp only [Outline.ofTokens]
    split
    · rfl
    · split <;> rfl
  have hproblems (check : Check) :
      check.problems (Outline.ofTokens tokens { settings with severities := severities }) =
        (check.problems (Outline.ofTokens tokens settings)).map (Problem.graded severities) := by
    rw [problems_eq_filterMap_sites, problems_eq_filterMap_sites, List.map_filterMap]
    exact List.filterMap_congr fun site _ => hjudge check site
  simp only [detect, hproblems, ← List.map_flatMap]
  exact Problem.stableSort_map (Problem.graded severities) (fun _ => rfl) (fun _ => rfl) _

/-! ## All settings -/

/-- Settings select from the findings on a stream and change none of them, whether the stream was
lexed or pushed by hand, and at whatever places. A set of checks finds, in their order, those
problems of all checks that are its own. Sparing the braces of conditionals in value position drops
the problems before and behind those and no other. Severities are what the settings give to the
checks, an error by default, and change nothing else. -/
theorem detect_selects {s : TokenStream} (hstart : s = .empty ∨ ∃ source, lex source = .ok s)
    (edits : List Edit) (checks : CheckSet) (settings : Settings) :
    (detect (s.edit edits).tokens checks settings =
      (detect (s.edit edits).tokens .all settings).filter fun p => checks.contains p.check) ∧
    (detect (s.edit edits).tokens checks { settings with checkExpressionBraces := false } =
      (detect (s.edit edits).tokens checks
        { settings with checkExpressionBraces := true }).filter
          fun p => !p.atValueBrace (s.edit edits).tokens) ∧
    ∀ severities : List (Check × Severity),
      detect (s.edit edits).tokens checks { settings with severities := severities } =
        (detect (s.edit edits).tokens checks settings).map (Problem.graded severities) := by
  have hnumbered : s.Numbered := by
    rcases hstart with rfl | ⟨source, hlex⟩
    · exact ⟨List.nodup_nil, nofun⟩
    · exact .of_lex hlex
  exact ⟨detect_eq_filter_contains _ checks settings,
    detect_spared settings ((s.extends_edit edits).numbered hnumbered).nodup checks,
    detect_graded _ checks settings⟩

/-- Here all tokens were pushed at one place, so that positions do not tell the problems apart. -/
theorem detect_selects_tied : ∃ tokens checks settings, TokenStream.empty.edit
      [.push .equals "=" .start, .push .ifWord "if" .start, .push .openBrace "\x7b" .start,
        .push .whitespace "\t" .start, .push .closeBrace "\x7d" .start,
        .push .openBrace "\x7b" .start, .push .whitespace "\t" .start,
        .push .closeBrace "\x7d" .start] = ⟨tokens, 8⟩ ∧
    checks = .only [.closingBraceBefore] ∧ settings = .standard ∧
    (detect tokens .all { settings with checkExpressionBraces := true }).map Problem.check =
      [.closingBraceBefore, .closingBraceBefore, .closingBraceAfter] ∧
    (detect tokens checks settings =
      (detect tokens .all settings).filter fun p => checks.contains p.check) ∧
    (detect tokens checks { settings with checkExpressionBraces := false } =
      (detect tokens checks { settings with checkExpressionBraces := true }).filter
        fun p => !p.atValueBrace tokens) ∧
    ∀ severities : List (Check × Severity),
      detect tokens checks { settings with severities := severities } =
        (detect tokens checks settings).map (Problem.graded severities) := by
  refine ⟨_, _, _, rfl, rfl, rfl, by decide +kernel, ?_⟩
  exact detect_selects (s := .empty) (Or.inl rfl)
    [.push .equals "=" .start, .push .ifWord "if" .start, .push .openBrace "\x7b" .start,
      .push .whitespace "\t" .start, .push .closeBrace "\x7d" .start,
      .push .openBrace "\x7b" .start, .push .whitespace "\t" .start,
      .push .closeBrace "\x7d" .start] (.only [.closingBraceBefore]) .standard

end ManifestSpacing
