import ManifestSpacing.Proofs.Lint.Turns

/-!
# The gaps of problems

The problems of a lexed manifest are reported in the strict order of their
places and checks, which is the order of their left tokens. No site begins
inside another, so the gaps of two problems lie one behind the other, with one
exception: both checks of closing braces can reject the whitespace between two
of them. This order is what lets a pass over the problems keep one running
shift.
-/

namespace ManifestSpacing

/-- A site ends before the next one begins. -/
theorem Site.Fits.right_le_left {content : List Token} {settings : Settings} {site other : Site}
    (h : site.Fits content settings) (h' : other.Fits content settings)
    (hlt : site.left < other.left) : site.right ≤ other.left := by
  cases h with
  | body => exact hlt
  | follower => exact hlt
  | @word k j a b ha hb _ _ hright hbetween =>
    by_contra hinside
    obtain ⟨t, ht, hcomment⟩ := hbetween other.left hlt (by simpa using hinside)
    -- a comment is the left end of nothing but a site before a closing brace
    cases h' with
    | @body m c d hc hd hclose =>
      simp only [Nat.not_le] at hinside
      rcases Nat.lt_or_eq_of_le (Nat.succ_le_of_lt hinside) with hbefore | hend
      · obtain ⟨u, hu, hcomment'⟩ := hbetween (m + 1) (Nat.lt_succ_of_lt hlt) hbefore
        rw [Option.some.inj (hd.symm.trans hu), hcomment'] at hclose
        cases hclose
      · subst hend
        rw [Option.some.inj (hb.symm.trans hd), hclose] at hright
        rcases hright with hkind | hkind | hkind <;> cases hkind
    | follower hc _ hclose =>
      rw [Option.some.inj (hc.symm.trans ht), hcomment] at hclose
      cases hclose
    | word hc _ _ hleft _ _ =>
      rw [Option.some.inj (hc.symm.trans ht), hcomment] at hleft
      rcases hleft with hkind | hkind | hkind <;> cases hkind

/-- Different checks that agree on a gap are those of closing braces, and the brace before the gap
is followed by another. -/
theorem Demand.Agree.eq_of_rank_lt {demand other : Demand} (h : Demand.Agree demand other)
    {check check' : Check} {left left' : TokenKind} (hasks : check.Asks left demand)
    (hasks' : check'.Asks left' other) (hne : demand ≠ other) (hrank : check.rank < check'.rank) :
    demand = .body false ∧ other = .follower .nested ∧
      check = .closingBraceBefore ∧ check' = .closingBraceAfter := by
  cases h with
  | same => exact absurd rfl hne
  | bodyNested =>
    refine ⟨rfl, rfl, ?_, ?_⟩
    · cases check <;> simp [Check.Asks] at hasks ⊢
    · cases check' <;> simp [Check.Asks] at hasks' ⊢
  | nestedBody =>
    cases check <;> cases check' <;> simp [Check.Asks, Check.rank] at hasks hasks' hrank

/-! ## What a problem tells about its visit -/

/-- What is known of a problem that a visit reports. -/
structure Visit.Reports (v : Visit) (tokens : List Token) (p : Problem) : Prop where
  check : p.check = v.check
  rule : p.rule = v.site.demand.rule (v.gap tokens)
  rejects : p.rule.accepts (v.gap tokens) = false
  /-- The anchors are the ends of the site. -/
  anchors : ∃ a b, tokens[contentPlace tokens v.site.left]? = some a ∧
    tokens[contentPlace tokens v.site.right]? = some b ∧
    p.anchors = ⟨a.id, b.id, contentPlace tokens v.site.left⟩
  /-- The place is that right behind the left end. -/
  position : ∃ spot, tokens[contentPlace tokens v.site.left + 1]? = some spot ∧
    p.position = spot.position

namespace Visit

variable {tokens : List Token} {settings : Settings} {v w : Visit} {p q : Problem}

theorem reports_of_problem?_eq (hfits : v.site.Fits (contentOf tokens) settings)
    (hp : v.problem? tokens settings = some p) : v.Reports tokens p := by
  obtain ⟨a, b, spot, ha, hb, hspot, hreport⟩ := problem?_eq hfits
  rw [hp] at hreport
  rw [← Outline.getElem?_contentPlace] at ha hb
  split at hreport
  · cases hreport
  rename_i hrejects
  obtain rfl := Option.some.inj hreport
  exact ⟨rfl, rfl, Bool.eq_false_iff.mpr hrejects, ⟨a, b, ha, hb, rfl⟩, ⟨spot, hspot, rfl⟩⟩

/-- Problems of one gap have the same anchors and lie at the same place. -/
theorem Reports.anchors_eq (hp : v.Reports tokens p) (hq : w.Reports tokens q)
    (hleft : w.site.left = v.site.left) (hright : w.site.right = v.site.right) :
    p.anchors = q.anchors ∧ p.position = q.position := by
  obtain ⟨a, b, ha, hb, hanchors⟩ := hp.anchors
  obtain ⟨a', b', ha', hb', hanchors'⟩ := hq.anchors
  obtain ⟨spot, hspot, hposition⟩ := hp.position
  obtain ⟨spot', hspot', hposition'⟩ := hq.position
  rw [hleft] at ha' hspot' hanchors'
  rw [hright] at hb'
  obtain rfl := Option.some.inj (ha.symm.trans ha')
  obtain rfl := Option.some.inj (hb.symm.trans hb')
  obtain rfl := Option.some.inj (hspot.symm.trans hspot')
  exact ⟨hanchors.trans hanchors'.symm, hposition.trans hposition'.symm⟩

/-- The problem behind a later token lies at a later place. -/
theorem Reports.before (hp : v.Reports tokens p) (hq : w.Reports tokens q)
    (hspots : SpotsInOrder tokens) (hlt : v.site.left < w.site.left) :
    p.position.Before q.position := by
  obtain ⟨spot, hspot, hposition⟩ := hp.position
  obtain ⟨spot', hspot', hposition'⟩ := hq.position
  rw [hposition, hposition']
  exact hspots _ _ _ _ hlt hspot hspot'

/-- Visits behind one token that make different demands are to neighbours. -/
theorem right_eq_of_left_eq (hv : v.site.Fits (contentOf tokens) settings)
    (hw : w.site.Fits (contentOf tokens) settings) (hleft : v.site.left = w.site.left)
    (hne : v.site.demand ≠ w.site.demand) :
    v.site.right = v.site.left + 1 ∧ w.site.right = w.site.left + 1 := by
  have hnear {v w : Visit} (hv : v.site.Fits (contentOf tokens) settings)
      (hw : w.site.Fits (contentOf tokens) settings) (hleft : v.site.left = w.site.left)
      (hright : v.site.right = v.site.left + 1) : w.site.right = w.site.left + 1 := by
    have hsite : v.site = ⟨v.site.left, v.site.left + 1, v.site.demand⟩ := by rw [← hright]
    rw [← hleft]
    exact Site.Fits.right_eq (hsite ▸ hv) hw hleft.symm
  by_cases hright : v.site.right = v.site.left + 1
  · exact ⟨hright, hnear hv hw hleft hright⟩
  · -- both look across a comment, and such visits make the same demand
    have hright' : w.site.right ≠ w.site.left + 1 := fun h => hright (hnear hw hv hleft.symm h)
    rw [(hasComment_gap hv hright).1, (hasComment_gap hw hright').1] at hne
    exact absurd rfl hne

end Visit

/-! ## Two problems -/

namespace Problem

/-- Whether a problem is reported strictly before another: by line, by column and by check. -/
def Ahead (p q : Problem) : Prop :=
  p.position.Before q.position ∨ p.position = q.position ∧ p.check.rank < q.check.rank

/-- The indices at which the anchors of a problem are found. -/
structure Spans (p : Problem) (s : TokenStream) (left right : Nat) : Prop where
  left_eq : s.positionOf? p.anchors.left = some left
  right_eq : s.positionOf? p.anchors.right = some right
  lt : left < right

/-- Two problems of closing braces with the same anchors, around one token of whitespace. -/
structure Shares (p q : Problem) (gap : Gap) : Prop where
  anchors : p.anchors = q.anchors
  position : p.position = q.position
  check_before : p.check = .closingBraceBefore
  rule_before : p.rule = .before .inlineBody
  check_after : q.check = .closingBraceAfter
  rule_after : q.rule = .after .nested
  whitespace : ∃ t, gap = [t] ∧ t.kind = .whitespace

end Problem

/-- What is rejected between two closing braces of a lexed manifest is one token of whitespace. -/
theorem GapRule.whitespace_of_nested {gap : Gap} (hblank : gap.IsBlank)
    (hread : Lexer.Readable gap.pieces) (h : (GapRule.after .nested).accepts gap = false) :
    gap.hasNewline = false ∧ ∃ t, gap = [t] ∧ t.kind = .whitespace := by
  simp only [accepts, Bool.or_eq_false_iff] at h
  obtain ⟨⟨hline, hsome⟩, _⟩ := h
  obtain ⟨t, rfl⟩ := List.length_eq_one_iff.mp (hread.length_eq_one hline (by simpa using hsome))
  refine ⟨hline, t, rfl, ?_⟩
  rcases (TokenKind.isBlank_iff _).mp (hblank t List.mem_cons_self) with hkind | hkind
  · exact hkind
  · simp [Gap.hasNewline, hkind] at hline

/-- Two problems behind one token share their gap. -/
theorem Visit.shares_of_left_eq {layout : Layout} {settings : Settings} {checks : CheckSet}
    {id : TokenId} (hlexes : Lexer.Lexes [] .start id layout.tokens) {v w : Visit}
    (hv : v ∈ schedule (contentOf layout.tokens) checks settings)
    (hw : w ∈ schedule (contentOf layout.tokens) checks settings)
    (hleft : v.site.left = w.site.left) (hrank : v.check.rank < w.check.rank) {p q : Problem}
    (hp : v.Reports layout.tokens p) (hq : w.Reports layout.tokens q) :
    p.Shares q (v.gap layout.tokens) := by
  have hne := demand_ne_of_rank_lt hv hw hleft hrank
  obtain ⟨hright, hright'⟩ :=
    Visit.right_eq_of_left_eq (fits_of_mem_schedule hv) (fits_of_mem_schedule hw) hleft hne
  obtain ⟨row, next, hmeets⟩ := Visit.exists_meets (fits_of_mem_schedule hv) hright
  obtain ⟨row', next', hmeets'⟩ := Visit.exists_meets (fits_of_mem_schedule hw) hright'
  obtain ⟨a, _, hasks⟩ := asks_of_mem_schedule hv
  obtain ⟨b, _, hasks'⟩ := asks_of_mem_schedule hw
  obtain ⟨hbody, hnested, hcheck, hcheck'⟩ :=
    (hmeets.agree hmeets' hleft.symm).eq_of_rank_lt hasks hasks' hne hrank
  have hends : w.site.right = v.site.right := by rw [hright, hright', hleft]
  have hsame : w.gap layout.tokens = v.gap layout.tokens := by
    rw [Visit.gap, Visit.gap, hleft, hends]
  have hrule := hp.rule
  have hrule' := hq.rule
  have hrejects := hq.rejects
  rw [hbody] at hrule
  rw [hnested, hsame] at hrule'
  rw [hrule', hsame, hmeets.gap_eq] at hrejects
  obtain ⟨_, _, _, hrows⟩ := hlexes.readable layout.blank
  obtain ⟨hline, hwhitespace⟩ := GapRule.whitespace_of_nested row.blank
    (hrows.tidy row (List.mem_of_getElem? hmeets.row_eq)).2 hrejects
  obtain ⟨hanchors, hposition⟩ := hp.anchors_eq hq hleft.symm hends
  refine ⟨hanchors, hposition, hp.check.trans hcheck, ?_, hq.check.trans hcheck', hrule', ?_⟩
  · rw [hrule, hmeets.gap_eq]
    simp only [Demand.rule, BodyClass.classify, hline, Bool.false_eq_true, if_false]
  · rwa [hmeets.gap_eq]

section Lexed

variable {source : String} {s : TokenStream} (hlex : lex source = .ok s)

include hlex

/-- The anchors of a problem of a lexed manifest are found at the ends of its visit. -/
theorem Visit.Reports.spans {settings : Settings} {v : Visit} {p : Problem}
    (hfits : v.site.Fits (contentOf s.tokens) settings) (hp : v.Reports s.tokens p) :
    p.Spans s (contentPlace s.tokens v.site.left) (contentPlace s.tokens v.site.right) := by
  have hnodup := (lex_eq_ok_iff.mp hlex).1.nodup
  obtain ⟨a, b, ha, hb, hanchors⟩ := hp.anchors
  refine ⟨?_, ?_, Skeleton.strictMono_place _ hfits.exists_ends.1⟩
  · rw [hanchors]
    exact TokenStream.positionOf?_eq_some hnodup ha
  · rw [hanchors]
    exact TokenStream.positionOf?_eq_some hnodup hb

/-- The problems of a lexed manifest are reported in the strict order of line, column and check,
which is the order of their left tokens. The gap of the earlier of two ends where that of the
later begins or before; only a gap of one whitespace token between two closing braces is reported
twice, first by the check of what stands before the second brace and then by that of what follows
the first. -/
theorem pairwise_gaps_detect (checks : CheckSet) (settings : Settings) :
    (detect s.tokens checks settings).Pairwise fun p q => p.Ahead q ∧
      ∃ i j k l, p.Spans s i j ∧ q.Spans s k l ∧
        (i < k ∧ p.position.Before q.position ∧ j ≤ k ∨
          i = k ∧ j = l ∧ p.Shares q (Gap.between s.tokens i j)) := by
  have hlexes := (lex_eq_ok_iff.mp hlex).1
  have hspots := hlexes.spotsInOrder
  rw [detect_eq_filterMap_schedule hspots, List.pairwise_filterMap]
  refine (pairwise_rank_schedule s.tokens checks settings).imp_of_mem ?_
  intro v w hv hw horder p hvp q hwq
  have hvfits := fits_of_mem_schedule hv
  have hwfits := fits_of_mem_schedule hw
  have hp := Visit.reports_of_problem?_eq hvfits hvp
  have hq := Visit.reports_of_problem?_eq hwfits hwq
  rcases horder with hlt | ⟨hleft, hrank⟩
  · have hbefore := hp.before hq hspots hlt
    refine ⟨Or.inl hbefore, _, _, _, _, hp.spans hlex hvfits, hq.spans hlex hwfits,
      Or.inl ⟨Skeleton.strictMono_place _ hlt, hbefore, ?_⟩⟩
    exact (Skeleton.strictMono_place _).monotone (hvfits.right_le_left hwfits hlt)
  · have hne := demand_ne_of_rank_lt hv hw hleft hrank
    obtain ⟨hright, hright'⟩ := Visit.right_eq_of_left_eq hvfits hwfits hleft hne
    have hshares : p.Shares q (v.gap s.tokens) := by
      rw [← Layout.tokens_ofTokens s.tokens] at hlexes hv hw hp hq ⊢
      exact Visit.shares_of_left_eq hlexes hv hw hleft hrank hp hq
    refine ⟨Or.inr ⟨hshares.position, ?_⟩, _, _, _, _, hp.spans hlex hvfits, hq.spans hlex hwfits,
      Or.inr ⟨by rw [hleft], by rw [hright, hright', hleft], hshares⟩⟩
    rwa [hp.check, hq.check]

end Lexed

/-- Of three problems two share the gap between two closing braces. -/
theorem pairwise_gaps_detect_braces :
    ∃ s, lex "\x7b\x7ba\t\x7d\t\x7d" = .ok s ∧ (detect s.tokens .all .standard).length = 3 ∧
      (detect s.tokens .all .standard).Pairwise fun p q => p.Ahead q ∧
        ∃ i j k l, p.Spans s i j ∧ q.Spans s k l ∧
          (i < k ∧ p.position.Before q.position ∧ j ≤ k ∨
            i = k ∧ j = l ∧ p.Shares q (Gap.between s.tokens i j)) := by
  obtain ⟨s, hlex, hlength⟩ : ∃ s, lex "\x7b\x7ba\t\x7d\t\x7d" = .ok s ∧
      (detect s.tokens .all .standard).length = 3 :=
    ⟨⟨[⟨0, .openBrace, "\x7b", ⟨1, 1⟩⟩, ⟨1, .openBrace, "\x7b", ⟨1, 2⟩⟩, ⟨2, .name, "a", ⟨1, 3⟩⟩,
      ⟨3, .whitespace, "\t", ⟨1, 4⟩⟩, ⟨4, .closeBrace, "\x7d", ⟨1, 5⟩⟩,
      ⟨5, .whitespace, "\t", ⟨1, 6⟩⟩, ⟨6, .closeBrace, "\x7d", ⟨1, 7⟩⟩], 7⟩, by cbv, by cbv⟩
  exact ⟨s, hlex, hlength, pairwise_gaps_detect hlex .all .standard⟩

end ManifestSpacing
