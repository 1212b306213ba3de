import Mathlib
import ManifestSpacing.Proofs.Lint.Schedule
import ManifestSpacing.Proofs.Lint.Stretches

/-!
# The layout rules as rules about text

What the checks ask for can be said of the text between two tokens: how many
line feeds it holds, whether it is empty and whether it is one space. Detection
judges tokens by their kinds instead. The two agree on a lexed manifest, so
detection reports exactly the places whose text breaks a rule, each once and
right behind the token before the gap.
-/

namespace ManifestSpacing

/-! ## The rules -/

namespace Stretch

/-- The text between the two tokens. -/
def text (v : Stretch) : List Char := textOf v.gap

/-- The place right behind the left token. -/
def spot (v : Stretch) : Position :=
  Position.start.advance (textOf v.ahead ++ v.left.text.toList)

end Stretch

/-- A stretch whose text breaks a rule of a check. -/
inductive Violation (settings : Settings) (v : Stretch) : Check → GapRule → Prop where
  /-- Blank lines before a closing brace. -/
  | blankLines (h : v.EndsBody settings) (htext : 2 ≤ v.text.count '\n') :
      Violation settings v .closingBraceBefore (.before .lineBreakBody)
  /-- Blanks in an empty pair of braces. -/
  | emptyPair (h : v.EndsBody settings) (hline : '\n' ∉ v.text) (hpair : v.IsPair)
      (htext : v.text ≠ []) : Violation settings v .closingBraceBefore (.before .emptyPair)
  /-- A body that does not end in one space. -/
  | inlineBody (h : v.EndsBody settings) (hline : '\n' ∉ v.text) (hpair : ¬ v.IsPair)
      (htext : v.text ≠ [' ']) : Violation settings v .closingBraceBefore (.before .inlineBody)
  /-- More than a space before another closing brace. -/
  | nested (h : v.FollowsBody settings) (hline : '\n' ∉ v.text)
      (hright : v.right.kind = .closeBrace) (hempty : v.text ≠ []) (htext : v.text ≠ [' ']) :
      Violation settings v .closingBraceAfter (.after .nested)
  /-- Blanks before a token that hugs the brace. -/
  | tight (h : v.FollowsBody settings) (hline : '\n' ∉ v.text)
      (hright : v.right.kind ≠ .closeBrace)
      (htight : v.right.kind ∈ settings.tight.kinds ∨ v.right.text ∈ settings.tight.texts)
      (htext : v.text ≠ []) : Violation settings v .closingBraceAfter (.after .tight)
  /-- Anything but a space before another token. -/
  | loose (h : v.FollowsBody settings) (hline : '\n' ∉ v.text)
      (hright : v.right.kind ≠ .closeBrace)
      (htight : ¬ (v.right.kind ∈ settings.tight.kinds ∨ v.right.text ∈ settings.tight.texts))
      (htext : v.text ≠ [' ']) : Violation settings v .closingBraceAfter (.after .loose)
  /-- Anything but a space before the name of a parent. -/
  | nameBefore (h : v.NamesParent) (htext : v.text ≠ [' ']) :
      Violation settings v .inheritsNameBefore .singleSpace
  /-- Anything but a space behind the name of a parent. -/
  | nameAfter (h : v.OpensBody) (htext : v.text ≠ [' ']) :
      Violation settings v .inheritsNameAfter .singleSpace

/-- The problem of a violation; it can be repaired unless a comment stands in the gap. -/
def Stretch.problem (v : Stretch) (settings : Settings) (check : Check) (rule : GapRule) :
    Problem :=
  ⟨settings.severityOf check, v.spot, check, false, v.gap.all (fun t => t.kind != .comment),
    ⟨v.left.id, v.right.id, v.leftIndex⟩, rule⟩

/-! ## The text of a gap -/

section GapText

open Lexer

variable {gap : Gap} (h : ∀ t ∈ gap, Spelled t.kind t.text.toList)

include h

theorem textOf_eq_nil_iff : textOf gap = [] ↔ gap = [] := by
  constructor
  · intro htext
    cases gap with
    | nil => rfl
    | cons t gap =>
      rw [textOf_cons, List.append_eq_nil_iff] at htext
      exact absurd htext.1 (h t List.mem_cons_self).nonempty
  · rintro rfl
    rfl

/-- The text of a gap is one space exactly when the gap is one token of one space. -/
theorem textOf_eq_space_iff : textOf gap = [' '] ↔ gap.isSingleSpace = true := by
  rw [Gap.isSingleSpace_iff]
  constructor
  · intro htext
    cases gap with
    | nil => cases htext
    | cons t gap =>
      have hspelled := h t List.mem_cons_self
      rw [textOf_cons, List.append_eq_singleton_iff] at htext
      rcases htext with ⟨hnil, _⟩ | ⟨hspace, hrest⟩
      · exact absurd hnil hspelled.nonempty
      · have hgap := (textOf_eq_nil_iff fun u hu => h u (List.mem_cons_of_mem t hu)).mp hrest
        refine ⟨t, by rw [hgap], ?_, String.toList_inj.mp hspace⟩
        -- a token of any other kind does not start with a space
        cases hblank : t.kind.isBlank with
        | false => exact absurd (hspelled.solid hblank ' ' (by rw [hspace]; rfl)) (by decide)
        | true =>
          rcases (TokenKind.isBlank_iff t.kind).mp hblank with hkind | hkind
          · exact hkind
          · have hline := hspelled.newline hkind
            rw [hspace] at hline
            exact absurd hline (by decide)
  · rintro ⟨t, rfl, _, htext⟩
    rw [textOf_cons, textOf_nil, htext]
    rfl

/-- A blank gap has as many line feeds as line ends. -/
theorem count_textOf (hblank : gap.IsBlank) : (textOf gap).count '\n' = gap.newlineCount := by
  induction gap with
  | nil => rfl
  | cons t gap ih =>
    have hspelled := h t List.mem_cons_self
    have hrest := ih (fun u hu => h u (List.mem_cons_of_mem t hu))
      fun u hu => hblank u (List.mem_cons_of_mem t hu)
    rw [textOf_cons, List.count_append, hrest, Gap.newlineCount, Gap.newlineCount,
      List.countP_cons, Nat.add_comm]
    congr 1
    rcases (TokenKind.isBlank_iff t.kind).mp (hblank t List.mem_cons_self) with hkind | hkind
    · have hspaces := hspelled.whitespace hkind
      rw [hkind]
      apply List.count_eq_zero.mpr
      intro hmem
      exact absurd (hspaces _ hmem) (by decide)
    · rw [hkind]
      rcases hspelled.newline hkind with htext | htext <;> rw [htext] <;> rfl

theorem mem_textOf_iff (hblank : gap.IsBlank) : '\n' ∈ textOf gap ↔ gap.hasNewline = true := by
  rw [Gap.hasNewline_iff, ← count_textOf h hblank, List.count_pos_iff]

/-- A rule rejects a gap for its text. -/
theorem accepts_eq_false_iff (rule : GapRule) (hblank : rule ≠ .singleSpace → gap.IsBlank) :
    rule.accepts gap = false ↔
      match rule with
      | .before .emptyPair => textOf gap ≠ []
      | .before .lineBreakBody => (textOf gap).count '\n' ≠ 1
      | .before .inlineBody | .singleSpace => textOf gap ≠ [' ']
      | .after .tight => '\n' ∉ textOf gap ∧ textOf gap ≠ []
      | .after .nested => '\n' ∉ textOf gap ∧ textOf gap ≠ [] ∧ textOf gap ≠ [' ']
      | .after .loose => '\n' ∉ textOf gap ∧ textOf gap ≠ [' '] := by
  have hempty : gap.isEmpty = false ↔ textOf gap ≠ [] := by
    rw [ne_eq, textOf_eq_nil_iff h, ← List.isEmpty_iff, Bool.not_eq_true]
  have hspace : gap.isSingleSpace = false ↔ textOf gap ≠ [' '] := by
    rw [ne_eq, textOf_eq_space_iff h, Bool.not_eq_true]
  have hline (hblank : gap.IsBlank) : gap.hasNewline = false ↔ '\n' ∉ textOf gap := by
    rw [mem_textOf_iff h hblank, Bool.not_eq_true]
  cases rule with
  | singleSpace => exact hspace
  | before body =>
    cases body with
    | emptyPair => exact hempty
    | lineBreakBody =>
      rw [count_textOf h (hblank (by simp))]
      exact beq_eq_false_iff_ne
    | inlineBody => exact hspace
  | after follower =>
    have hline := hline (hblank (by simp))
    cases follower with
    | tight => simp only [GapRule.accepts, Bool.or_eq_false_iff, hline, hempty]
    | nested => simp only [GapRule.accepts, Bool.or_eq_false_iff, hline, hempty, hspace, and_assoc]
    | loose => simp only [GapRule.accepts, Bool.or_eq_false_iff, hline, hspace]

end GapText

/-! ## Sites whose rule is broken -/

namespace Stretch

section Broken

variable {v : Stretch} {settings : Settings} {rule : GapRule}
  (hspelled : ∀ t ∈ v.gap, Lexer.Spelled t.kind t.text.toList)

include hspelled

theorem violation_closingBraceBefore_iff : Violation settings v .closingBraceBefore rule ↔
    v.EndsBody settings ∧ rule = Demand.rule (.body (decide v.IsPair)) v.gap ∧
      rule.accepts v.gap = false := by
  have hrule (h : v.EndsBody settings) : Demand.rule (.body (decide v.IsPair)) v.gap =
      .before (if '\n' ∈ v.text then .lineBreakBody
        else if v.IsPair then .emptyPair else .inlineBody) := by
    simp only [Demand.rule, BodyClass.classify, text, mem_textOf_iff hspelled h.blank,
      decide_eq_true_eq]
  have hrejects (h : v.EndsBody settings) {body : BodyClass} :=
    accepts_eq_false_iff hspelled (.before body) fun _ => h.blank
  constructor
  · intro h
    cases h with
    | blankLines h htext =>
      have hline : '\n' ∈ v.text := List.count_pos_iff.mp (Nat.lt_of_succ_lt htext)
      refine ⟨h, ?_, (hrejects h).mpr (Nat.ne_of_gt htext)⟩
      rw [hrule h, if_pos hline]
    | emptyPair h hline hpair htext =>
      refine ⟨h, ?_, (hrejects h).mpr htext⟩
      rw [hrule h, if_neg hline, if_pos hpair]
    | inlineBody h hline hpair htext =>
      refine ⟨h, ?_, (hrejects h).mpr htext⟩
      rw [hrule h, if_neg hline, if_neg hpair]
  · rintro ⟨h, rfl, haccepts⟩
    rw [hrule h] at haccepts ⊢
    by_cases hline : '\n' ∈ v.text
    · rw [if_pos hline] at haccepts ⊢
      have hcount : v.text.count '\n' ≠ 1 := (hrejects h).mp haccepts
      have hpos := List.count_pos_iff.mpr hline
      exact .blankLines h (by omega)
    · rw [if_neg hline] at haccepts ⊢
      by_cases hpair : v.IsPair
      · rw [if_pos hpair] at haccepts ⊢
        exact .emptyPair h hline hpair ((hrejects h).mp haccepts)
      · rw [if_neg hpair] at haccepts ⊢
        exact .inlineBody h hline hpair ((hrejects h).mp haccepts)

theorem violation_closingBraceAfter_iff : Violation settings v .closingBraceAfter rule ↔
    v.FollowsBody settings ∧ rule = .after (FollowerClass.classify settings.tight v.right) ∧
      rule.accepts v.gap = false := by
  have hrejects (h : v.FollowsBody settings) {follower : FollowerClass} :=
    accepts_eq_false_iff hspelled (.after follower) fun _ => h.blank
  constructor
  · intro h
    cases h with
    | nested h hline hright hempty htext =>
      refine ⟨h, ?_, (hrejects h).mpr ⟨hline, hempty, htext⟩⟩
      rw [FollowerClass.classify, if_pos hright]
    | tight h hline hright htight htext =>
      refine ⟨h, ?_, (hrejects h).mpr ⟨hline, htext⟩⟩
      rw [FollowerClass.classify, if_neg hright,
        if_pos ((TightSet.contains_iff _ _).mpr htight)]
    | loose h hline hright htight htext =>
      refine ⟨h, ?_, (hrejects h).mpr ⟨hline, htext⟩⟩
      rw [FollowerClass.classify, if_neg hright,
        if_neg ((not_congr (TightSet.contains_iff _ _)).mpr htight)]
  · rintro ⟨h, rfl, haccepts⟩
    unfold FollowerClass.classify at haccepts ⊢
    by_cases hright : v.right.kind = .closeBrace
    · rw [if_pos hright] at haccepts ⊢
      obtain ⟨hline, hempty, htext⟩ := (hrejects h).mp haccepts
      exact .nested h hline hright hempty htext
    · rw [if_neg hright] at haccepts ⊢
      by_cases htight : settings.tight.contains v.right = true
      · rw [if_pos htight] at haccepts ⊢
        obtain ⟨hline, htext⟩ := (hrejects h).mp haccepts
        exact .tight h hline hright ((TightSet.contains_iff _ _).mp htight) htext
      · rw [if_neg htight] at haccepts ⊢
        obtain ⟨hline, htext⟩ := (hrejects h).mp haccepts
        exact .loose h hline hright ((not_congr (TightSet.contains_iff _ _)).mp htight) htext

/-- The text of a stretch breaks a rule of a check exactly when the stretch is a site of the check
whose rule rejects the gap. -/
theorem violation_iff {check : Check} : Violation settings v check rule ↔
    ∃ demand, v.site demand ∈ check.sites (Outline.ofTokens v.tokens settings) ∧
      rule = demand.rule v.gap ∧ rule.accepts v.gap = false := by
  have hword := accepts_eq_false_iff hspelled .singleSpace fun hne => absurd rfl hne
  cases check with
  | inheritsNameBefore =>
    simp only [mem_sites_inheritsNameBefore, and_assoc, exists_and_left, exists_eq_left]
    constructor
    · intro h
      cases h with
      | nameBefore h htext => exact ⟨h, rfl, hword.mpr htext⟩
    · rintro ⟨h, rfl, hrejects⟩
      exact .nameBefore h (hword.mp hrejects)
  | inheritsNameAfter =>
    simp only [mem_sites_inheritsNameAfter, and_assoc, exists_and_left, exists_eq_left]
    constructor
    · intro h
      cases h with
      | nameAfter h htext => exact ⟨h, rfl, hword.mpr htext⟩
    · rintro ⟨h, rfl, hrejects⟩
      exact .nameAfter h (hword.mp hrejects)
  | closingBraceBefore =>
    simp only [mem_sites_closingBraceBefore, and_assoc, exists_and_left, exists_eq_left]
    exact violation_closingBraceBefore_iff hspelled
  | closingBraceAfter =>
    simp only [mem_sites_closingBraceAfter, and_assoc, exists_and_left, exists_eq_left]
    exact violation_closingBraceAfter_iff hspelled

end Broken

/-- What a check reports at a site of a lexed manifest. -/
theorem judge_site {v : Stretch} (hlexes : Lexer.Lexes [] .start 0 v.tokens) (settings : Settings)
    (check : Check) (demand : Demand) :
    (Outline.ofTokens v.tokens settings).judge check (v.site demand) =
      if (demand.rule v.gap).accepts v.gap then none
      else some (v.problem settings check (demand.rule v.gap)) := by
  have hspot : ∃ t, v.tokens[v.leftIndex + 1]? = some t ∧ t.position = v.spot := by
    have hnext : ∃ t rest, v.gap ++ v.right :: v.behind = t :: rest := by
      cases v.gap with
      | nil => exact ⟨_, _, rfl⟩
      | cons t gap => exact ⟨_, _, rfl⟩
    obtain ⟨t, rest, hnext⟩ := hnext
    have htokens : v.tokens = (v.ahead ++ [v.left]) ++ t :: rest := by
      rw [tokens, hnext, List.append_assoc, List.singleton_append]
    refine ⟨t, ?_, ?_⟩
    · rw [← Nat.add_zero (v.leftIndex + 1), getElem?_behind_left, hnext, List.getElem?_cons_zero]
    · rw [htokens] at hlexes
      rw [hlexes.position_of_append, spot, textOf_append, textOf_cons, textOf_nil, List.append_nil]
  obtain ⟨t, ht, hposition⟩ := hspot
  have hfixable : (!v.gap.hasComment) = v.gap.all fun t => t.kind != .comment := by
    rw [Gap.hasComment, List.not_any_eq_all_not]
    rfl
  rw [Outline.judge_eq v.left_lt_right v.getElem?_left v.getElem?_right ht]
  simp only [site, between_eq, hposition, hfixable, problem]

/-- Different violations of a lexed manifest are different problems. -/
theorem eq_of_problem_eq {v w : Stretch} (hlexes : Lexer.Lexes [] .start 0 v.tokens)
    (htokens : w.tokens = v.tokens) {settings : Settings} {check check' : Check}
    {rule rule' : GapRule} (h : v.problem settings check rule = w.problem settings check' rule') :
    v = w ∧ check = check' ∧ rule = rule' := by
  simp only [problem, Problem.mk.injEq, GapAnchors.mk.injEq] at h
  obtain ⟨_, _, hcheck, _, _, ⟨_, hid, hleft⟩, hrule⟩ := h
  have hw := w.getElem?_right
  rw [htokens] at hw
  have hright : v.rightIndex = w.rightIndex := by
    rw [hlexes.id_of_getElem? v.getElem?_right, hlexes.id_of_getElem? hw] at hid
    exact Nat.add_left_cancel hid
  exact ⟨eq_of_indices htokens.symm hleft hright, hcheck, hrule⟩

/-- Every site of a check is a stretch with a demand. -/
theorem exists_of_mem_sites {tokens : List Token} {settings : Settings} {check : Check}
    {place : Site} (h : place ∈ check.sites (Outline.ofTokens tokens settings)) :
    ∃ v : Stretch, v.tokens = tokens ∧ place = v.site place.demand := by
  rw [Outline.sites_eq_map_move] at h
  obtain ⟨inner, hinner, rfl⟩ := List.mem_map.mp h
  obtain ⟨hlt, a, b, ha, hb⟩ :=
    (fits_of_mem_sites (fun _ => isBlank_of_mem_contentOf) hinner).exists_ends
  rw [← Outline.getElem?_contentPlace] at ha hb
  obtain ⟨v, hv, hleft, hright⟩ := exists_of_lt (Skeleton.strictMono_place _ hlt) ha hb
  refine ⟨v, hv, ?_⟩
  rw [site, hleft, hright]
  rfl

end Stretch

/-! ## What detection reports -/

/-- The problems of a lexed manifest are those of its violations. -/
theorem mem_detect_iff_violation {tokens : List Token} (hlexes : Lexer.Lexes [] .start 0 tokens)
    (settings : Settings) (p : Problem) : p ∈ detect tokens .all settings ↔
      ∃ v : Stretch, v.tokens = tokens ∧ Violation settings v p.check p.rule ∧
        p = v.problem settings p.check p.rule := by
  have hspelled {v : Stretch} (hv : v.tokens = tokens) :
      ∀ t ∈ v.gap, Lexer.Spelled t.kind t.text.toList := by
    intro t ht
    refine hlexes.spelled t (hv ▸ ?_)
    simp [Stretch.tokens, ht]
  rw [mem_detect_iff_judge]
  constructor
  · rintro ⟨check, _, place, hplace, hjudge⟩
    obtain ⟨v, rfl, hv⟩ := Stretch.exists_of_mem_sites hplace
    rw [hv, Stretch.judge_site hlexes] at hjudge
    obtain ⟨hrejects, hproblem⟩ := Option.ite_none_left_eq_some.mp hjudge
    obtain rfl := Option.some.inj hproblem
    refine ⟨v, rfl, (Stretch.violation_iff (hspelled rfl)).mpr ?_, rfl⟩
    exact ⟨place.demand, hv ▸ hplace, rfl, Bool.eq_false_iff.mpr hrejects⟩
  · rintro ⟨v, rfl, hviolation, hp⟩
    obtain ⟨demand, hsite, hrule, hrejects⟩ := (Stretch.violation_iff (hspelled rfl)).mp hviolation
    refine ⟨p.check, p.check.mem_all, v.site demand, hsite, ?_⟩
    rw [Stretch.judge_site hlexes, ← hrule, hrejects, if_neg Bool.false_ne_true, ← hp]

/-- No problem is reported twice. -/
theorem nodup_detect (tokens : List Token) (checks : CheckSet) (settings : Settings) :
    (detect tokens checks settings).Nodup := by
  have hreport {v : Visit} (hv : v ∈ visits (contentOf tokens) checks settings) {p : Problem}
      (hp : v.problem? tokens settings = some p) :
      p.check = v.check ∧ p.anchors.hint = contentPlace tokens v.site.left := by
    obtain ⟨_, _, _, _, _, _, heq⟩ :=
      Visit.problem?_eq (fits_of_mem_schedule (mem_stableSort.mpr hv))
    rw [hp] at heq
    obtain ⟨_, hproblem⟩ := Option.ite_none_left_eq_some.mp heq.symm
    obtain rfl := Option.some.inj hproblem
    exact ⟨rfl, rfl⟩
  rw [detect, (stableSort_perm _ _).nodup_iff, flatMap_problems_eq]
  refine List.pairwise_filterMap.mpr
    ((pairwise_visits tokens checks settings).imp_of_mem ?_)
  rintro v w hv hw hne p hp q hq rfl
  obtain ⟨hcheck, hhint⟩ := hreport hv hp
  obtain ⟨hcheck', hhint'⟩ := hreport hw hq
  rcases hne with hne | hne
  · exact hne (hcheck.symm.trans hcheck')
  · exact hne ((Skeleton.strictMono_place _).injective (hhint.symm.trans hhint'))

/-- Detection reports exactly the violations of the rules about text, each once: no problem is
listed twice, and no two violations are one problem. The text of a stretch is that of the manifest
between its two tokens. -/
theorem detect_reports_violations {source : String} {s : TokenStream} (hlex : lex source = .ok s)
    (settings : Settings) :
    (∀ p, p ∈ detect s.tokens .all settings ↔
      ∃ v : Stretch, v.tokens = s.tokens ∧ Violation settings v p.check p.rule ∧
        p = v.problem settings p.check p.rule) ∧
    (detect s.tokens .all settings).Nodup ∧
    (∀ (v w : Stretch) (check check' : Check) (rule rule' : GapRule), v.tokens = s.tokens →
      w.tokens = s.tokens → v.problem settings check rule = w.problem settings check' rule' →
      v = w ∧ check = check' ∧ rule = rule') ∧
    ∀ v : Stretch, v.tokens = s.tokens → source.toList =
      (textOf v.ahead ++ v.left.text.toList) ++ v.text ++
        (v.right.text.toList ++ textOf v.behind) := by
  obtain ⟨hlexes, hrender, _⟩ := lex_eq_ok_iff.mp hlex
  refine ⟨mem_detect_iff_violation hlexes settings, nodup_detect s.tokens .all settings, ?_, ?_⟩
  · intro v w check check' rule rule' hv hw h
    exact Stretch.eq_of_problem_eq (hv ▸ hlexes) (hw.trans hv.symm) h
  · intro v hv
    rw [← hrender, toList_render, ← hv, Stretch.tokens, Stretch.text]
    simp only [textOf_append, textOf_cons, List.append_assoc]

/-- A tab in an empty pair of braces can be repaired, and a comment before an inherited name
cannot. -/
theorem detect_reports_violations_empty_pair :
    ∃ s, lex "\x7b\t\x7dinherits/**/a" = .ok s ∧
      ⟨.error, ⟨1, 2⟩, .closingBraceBefore, false, true, ⟨0, 2, 0⟩, .before .emptyPair⟩ ∈
        detect s.tokens .all .standard ∧
      ⟨.error, ⟨1, 12⟩, .inheritsNameBefore, false, false, ⟨3, 5, 3⟩, .singleSpace⟩ ∈
        detect s.tokens .all .standard ∧
      (detect s.tokens .all .standard).Nodup := by
  have hlex : lex "\x7b\t\x7dinherits/**/a" = .ok ⟨[⟨0, .openBrace, "\x7b", ⟨1, 1⟩⟩,
      ⟨1, .whitespace, "\t", ⟨1, 2⟩⟩, ⟨2, .closeBrace, "\x7d", ⟨1, 3⟩⟩,
      ⟨3, .inheritsWord, "inherits", ⟨1, 4⟩⟩, ⟨4, .comment, "/**/", ⟨1, 12⟩⟩,
      ⟨5, .name, "a", ⟨1, 16⟩⟩], 6⟩ := by cbv
  obtain ⟨hmem, hnodup, _, _⟩ := detect_reports_violations hlex .standard
  refine ⟨_, hlex, (hmem _).mpr ⟨⟨[], ⟨0, .openBrace, "\x7b", ⟨1, 1⟩⟩,
      [⟨1, .whitespace, "\t", ⟨1, 2⟩⟩], ⟨2, .closeBrace, "\x7d", ⟨1, 3⟩⟩, _⟩, rfl, ?_, by decide⟩,
    (hmem _).mpr ⟨⟨[⟨0, .openBrace, "\x7b", ⟨1, 1⟩⟩, ⟨1, .whitespace, "\t", ⟨1, 2⟩⟩,
      ⟨2, .closeBrace, "\x7d", ⟨1, 3⟩⟩], ⟨3, .inheritsWord, "inherits", ⟨1, 4⟩⟩,
      [⟨4, .comment, "/**/", ⟨1, 12⟩⟩], ⟨5, .name, "a", ⟨1, 16⟩⟩, []⟩, rfl, ?_, by decide⟩, hnodup⟩
  · refine .emptyPair ⟨rfl, ?_, rfl, ⟨0, by cbv⟩, Or.inr (by decide)⟩ (by decide) (by cbv)
      (by decide)
    intro t ht
    rw [List.mem_singleton.mp ht]
    rfl
  · exact .nameBefore ⟨rfl, by decide, Or.inl rfl⟩ (by decide)

end ManifestSpacing
