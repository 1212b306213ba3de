import ManifestSpacing.Proofs.Lint.Substitution

/-!
# Repairs in any order

The problems of a manifest that can be repaired may be repaired in any order,
each under the hint that it was found with: a gap ends with the repair of any
one of its problems. Checks may be run one at a time as well, each on the text
that the one before left. What becomes of a gap then depends on the demands
that are made on it and not on their order, since a demand accepts what an
agreeing one put there.
-/

namespace ManifestSpacing

/-! ## Problems in any order -/

/-- Progress is made by the problems that can be repaired, in whatever order they are listed. -/
theorem Progress.of_mem_iff {layout : Layout} {done done' : List Problem} {rows : List Row}
    {s : TokenStream} (h : Progress layout done rows s)
    (hmem : ∀ p : Problem, p.fixable = true → (p ∈ done ↔ p ∈ done')) :
    Progress layout done' rows s where
  tokens_eq := h.tokens_eq
  length_eq := h.length_eq
  mended := fun hrow hrow' =>
    have hmended := h.mended hrow hrow'
    ⟨hmended.head, fun p hp hmends => hmended.repaired p ((hmem p hmends.1).mpr hp) hmends,
      fun hnone => hmended.untouched fun p hp hmends =>
        hnone p ((hmem p hmends.1).mp hp) hmends⟩
  nodup := h.nodup
  fresh := h.fresh

/-- Problems that do not get in each other's way are all repaired, each under its own hint. -/
theorem TokenStream.progress_fixEach {layout : Layout} {done ps : List Problem} {rows : List Row}
    {s : TokenStream} (h : Progress layout done rows s) (hharm : Harmonious layout (done ++ ps))
    (hfixable : ∀ p ∈ ps, p.fixable = true) :
    (∃ rows', Progress layout (done ++ ps) rows' (s.fixEach ps).1) ∧
      (s.fixEach ps).2 = ps.map fun p => { p with fixed := true } := by
  induction ps generalizing done rows s with
  | nil =>
    rw [List.append_nil]
    exact ⟨⟨rows, h⟩, rfl⟩
  | cons p ps ih =>
    rw [List.append_cons] at hharm ⊢
    have hnow : Harmonious layout (done ++ [p]) :=
      hharm.mono fun q hq => List.mem_append_left ps hq
    have hsucceeds : Succeeds layout done p p.anchors.hint (s.fix p) :=
      h.fix hnow (hfixable p List.mem_cons_self) p.anchors.hint
    obtain ⟨rows', hrows'⟩ := hsucceeds.progress
    obtain ⟨hprogress, hfixed⟩ := ih hrows' hharm fun q hq => hfixable q (List.mem_cons_of_mem p hq)
    refine ⟨hprogress, ?_⟩
    rw [fixEach_cons, List.map_cons, hfixed, hsucceeds.problem]
    rfl

namespace Linter

/-- The problems of a lexed manifest that can be repaired lead to one text in every order. -/
theorem render_fixEach (linter : Linter) {source : String} {s : TokenStream}
    (hlex : lex source = .ok s) {ps : List Problem}
    (hperm : ps.Perm ((linter.detect s).filter Problem.fixable)) :
    (s.fixEach ps).1.render = (linter.mend s).render ∧
      (s.fixEach ps).2 = ps.map fun p => { p with fixed := true } := by
  obtain ⟨layout, rows, htokens, hlexes, hmend⟩ := linter.exists_mended_rows hlex
  have hharm := @harmonious_detect _ _ hlexes linter.checks linter.settings
  have hmem (p : Problem) : p ∈ ps ↔ p ∈ linter.detect s ∧ p.fixable = true := by
    rw [hperm.mem_iff, List.mem_filter]
  rw [detect, htokens] at hmem
  have hstart := Progress.start_of_lexes htokens (htokens ▸ hlexes) (lex_eq_ok_iff.mp hlex).2.2
  obtain ⟨⟨rows', hprogress⟩, hfixed⟩ := TokenStream.progress_fixEach hstart
    (hharm.mono fun p hp => ((hmem p).mp hp).1) (fun p hp => ((hmem p).mp hp).2)
  refine ⟨?_, hfixed⟩
  have hall := hprogress.of_mem_iff fun p hp => (hmem p).trans (and_iff_left hp)
  rw [hall.render_eq_substituted hlexes.nodup hharm, hmend.render_eq_substituted hlexes.nodup hharm]

end Linter

/-! ## Demands in any order -/

/-- The gap that is left once every one of some demands has been met. -/
structure Gap.Yields (wants : Demand → Prop) (gap gap' : Gap) : Prop where
  /-- A demand that is not met has its repair made. -/
  repaired : ∀ demand, wants demand → (demand.rule gap).accepts gap = false →
    gap'.pieces = (demand.rule gap).repair gap
  /-- A gap that meets all demands stays. -/
  kept : (∀ demand, wants demand → (demand.rule gap).accepts gap = true) →
    gap'.pieces = gap.pieces

namespace Gap.Yields

variable {wants wants' : Demand → Prop} {gap gap' gap'' : Gap}

theorem of_pieces_eq (h : Gap.Yields wants gap gap') (hpieces : gap''.pieces = gap'.pieces) :
    Gap.Yields wants gap gap'' :=
  ⟨fun demand hwants hrejects => hpieces.trans (h.repaired demand hwants hrejects),
    fun hmet => hpieces.trans (h.kept hmet)⟩

/-- The demands decide what is left. -/
theorem pieces_eq (h : Gap.Yields wants gap gap') (h' : Gap.Yields wants gap gap'') :
    gap'.pieces = gap''.pieces := by
  by_cases hmet : ∀ demand, wants demand → (demand.rule gap).accepts gap = true
  · rw [h.kept hmet, h'.kept hmet]
  · simp only [not_forall, Bool.not_eq_true] at hmet
    obtain ⟨demand, hwants, hrejects⟩ := hmet
    rw [h.repaired demand hwants hrejects, h'.repaired demand hwants hrejects]

/-- Demands that agree are met together by meeting some and then the others. -/
theorem trans (hblank : gap.IsBlank) (hblank' : gap'.IsBlank)
    (hagree : ∀ demand other, wants demand ∨ wants' demand → wants other ∨ wants' other →
      Demand.Agree demand other)
    (h : Gap.Yields wants gap gap') (h' : Gap.Yields wants' gap' gap'') :
    Gap.Yields (fun demand => wants demand ∨ wants' demand) gap gap'' := by
  by_cases hmet : ∀ demand, wants demand → (demand.rule gap).accepts gap = true
  · -- nothing was done at first, so the later demands see the same pieces
    have hpieces := h.kept hmet
    have hsame (demand : Demand) := demand.accepts_rule_congr hblank' hblank hpieces
    refine ⟨fun demand hwants hrejects => ?_, fun hall => ?_⟩
    · rcases hwants with hwants | hwants
      · rw [hmet demand hwants] at hrejects
        cases hrejects
      · rw [h'.repaired demand hwants ((hsame demand).trans hrejects),
          demand.rule_congr hpieces, GapRule.repair_congr hpieces]
    · rw [h'.kept fun demand hwants => (hsame demand).trans (hall demand (Or.inr hwants)), hpieces]
  · simp only [not_forall, Bool.not_eq_true] at hmet
    obtain ⟨first, hfirst, hreject⟩ := hmet
    have hrepair := h.repaired first hfirst hreject
    -- the later demands accept the first repair
    have hkept : gap''.pieces = gap'.pieces := h'.kept fun demand hwants =>
      (hagree demand first (Or.inr hwants) (Or.inl hfirst)).accepts_of_repair hblank' hrepair
    refine ⟨fun demand hwants hrejects => ?_, fun hall => ?_⟩
    · rw [hkept, hrepair]
      exact (hagree first demand (Or.inl hfirst) hwants).repair_eq hreject hrejects
    · rw [hall first (Or.inl hfirst)] at hreject
      cases hreject

end Gap.Yields

/-- The layout that is left once the demands on every gap have been met. -/
structure Layout.Yields (wants : Nat → Demand → Prop) (layout layout' : Layout) : Prop where
  lead : layout'.lead.pieces = layout.lead.pieces
  length_eq : layout'.rows.length = layout.rows.length
  head : ∀ {k : Nat} {row row' : Row}, layout.rows[k]? = some row → layout'.rows[k]? = some row' →
    row'.head.face = row.head.face
  gap : ∀ {k : Nat} {row row' : Row}, layout.rows[k]? = some row → layout'.rows[k]? = some row' →
    Gap.Yields (wants k) row.gap row'.gap

namespace Layout.Yields

variable {wants wants' : Nat → Demand → Prop} {layout layout' layout'' : Layout}

theorem exists_row (h : layout.Yields wants layout') {k : Nat} {row : Row}
    (hrow : layout.rows[k]? = some row) : ∃ row', layout'.rows[k]? = some row' := by
  have hlt : k < layout'.rows.length := h.length_eq ▸ (List.getElem?_eq_some_iff.mp hrow).1
  exact ⟨_, List.getElem?_eq_getElem hlt⟩

/-- Without demands a layout stays as it is. -/
theorem refl (hnone : ∀ k demand, ¬ wants k demand) : layout.Yields wants layout where
  lead := rfl
  length_eq := rfl
  head := fun hrow hrow' => by rw [Option.some.inj (hrow.symm.trans hrow')]
  gap := fun hrow hrow' => by
    obtain rfl := Option.some.inj (hrow.symm.trans hrow')
    exact ⟨fun demand hwants => absurd hwants (hnone _ demand), fun _ => rfl⟩

/-- Demands that agree are met together by meeting some and then the others. -/
theorem trans (hagree : ∀ k demand other, wants k demand ∨ wants' k demand →
      wants k other ∨ wants' k other → Demand.Agree demand other)
    (h : layout.Yields wants layout') (h' : layout'.Yields wants' layout'') :
    layout.Yields (fun k demand => wants k demand ∨ wants' k demand) layout'' where
  lead := h'.lead.trans h.lead
  length_eq := h'.length_eq.trans h.length_eq
  head := fun hrow hrow'' => by
    obtain ⟨row', hrow'⟩ := h.exists_row hrow
    rw [h'.head hrow' hrow'', h.head hrow hrow']
  gap := fun {k row row''} hrow hrow'' => by
    obtain ⟨row', hrow'⟩ := h.exists_row hrow
    exact (h.gap hrow hrow').trans row.blank row'.blank (hagree k) (h'.gap hrow' hrow'')

/-- The demands decide the text that is left. -/
theorem renderTokens_eq (h : layout.Yields wants layout') (h' : layout.Yields wants layout'') :
    renderTokens layout'.tokens = renderTokens layout''.tokens := by
  have hlead : layout'.lead.map Token.text = layout''.lead.map Token.text := by
    rw [← Gap.map_text_pieces, ← Gap.map_text_pieces, h.lead, h'.lead]
  have hrows : List.Forall₂ (fun row row' : Row =>
      String.join ((row.head :: row.gap).map Token.text) =
        String.join ((row'.head :: row'.gap).map Token.text)) layout'.rows layout''.rows := by
    rw [List.forall₂_iff_get]
    refine ⟨h.length_eq.trans h'.length_eq.symm, fun k hk hk' => ?_⟩
    have hrow := List.getElem?_eq_getElem (h.length_eq ▸ hk)
    have hleft := List.getElem?_eq_getElem hk
    have hright := List.getElem?_eq_getElem hk'
    have hhead := (h.head hrow hleft).trans (h'.head hrow hright).symm
    have hgap := (h.gap hrow hleft).pieces_eq (h'.gap hrow hright)
    rw [List.get_eq_getElem, List.get_eq_getElem, List.map_cons, List.map_cons,
      ← Gap.map_text_pieces, ← Gap.map_text_pieces, hgap]
    exact congrArg (fun text => String.join (text :: _)) (congrArg Prod.snd hhead)
  rw [renderTokens_eq_join, renderTokens_eq_join, tokens, tokens, List.map_append, List.map_append,
    String.join_append, String.join_append, hlead, Row.join_map_eq_of_forall₂ hrows]

end Layout.Yields

/-- What some checks demand of the gap behind a token of content. -/
def Demanded (content : List Token) (settings : Settings) (checks : List Check) (k : Nat)
    (demand : Demand) : Prop :=
  ∃ check ∈ checks, ⟨k, k + 1, demand⟩ ∈ check.sites (Outline.ofTokens content settings)

/-- Demands depend on which checks make them. -/
theorem demanded_congr (content : List Token) (settings : Settings) {checks checks' : List Check}
    (h : ∀ check, check ∈ checks ↔ check ∈ checks') :
    Demanded content settings checks = Demanded content settings checks' := by
  funext k demand
  simp only [Demanded, h]

theorem CheckSet.mem_only {members : List Check} {check : Check} :
    check ∈ (only members).checks ↔ check ∈ members := by
  simp [only, Check.mem_all]

theorem demanded_cons {content : List Token} {settings : Settings} {check : Check}
    {checks : List Check} {k : Nat} {demand : Demand} :
    Demanded content settings (check :: checks) k demand ↔
      Demanded content settings [check] k demand ∨ Demanded content settings checks k demand := by
  simp [Demanded]

/-- Demands of checks on one gap agree. -/
theorem Demanded.agree {tokens : List Token} {settings : Settings} {checks : List Check} {k : Nat}
    {demand other : Demand} (h : Demanded (contentOf tokens) settings checks k demand)
    (h' : Demanded (contentOf tokens) settings checks k other) : Demand.Agree demand other := by
  obtain ⟨_, _, hsite⟩ := h
  obtain ⟨_, _, hsite'⟩ := h'
  exact (fits_of_mem_sites (fun _ => isBlank_of_mem_contentOf) hsite).agree
    (fits_of_mem_sites (fun _ => isBlank_of_mem_contentOf) hsite')

/-- The visits to a row are those that demand something of its gap. -/
theorem demanded_iff {tokens : List Token} {settings : Settings} {checks : CheckSet} {k : Nat}
    {demand : Demand} : Demanded (contentOf tokens) settings checks.checks k demand ↔
      ∃ v ∈ schedule (contentOf tokens) checks settings, v.site = ⟨k, k + 1, demand⟩ := by
  simp only [Demanded, schedule, mem_stableSort, visits, List.mem_flatMap, List.mem_map]
  constructor
  · rintro ⟨check, hcheck, hsite⟩
    exact ⟨⟨check, _⟩, ⟨check, hcheck, _, hsite, rfl⟩, rfl⟩
  · rintro ⟨_, ⟨check, hcheck, site, hsite, rfl⟩, rfl⟩
    exact ⟨check, hcheck, hsite⟩

/-- A finished pass has met the demands of its checks. -/
theorem Progress.yields {layout : Layout} {id : TokenId} {checks : CheckSet} {settings : Settings}
    {rows : List Row} {final : TokenStream}
    (h : Progress layout (detect layout.tokens checks settings) rows final)
    (hlexes : Lexer.Lexes [] .start id layout.tokens) {k : Nat} {row row' : Row}
    (hrow : layout.rows[k]? = some row) (hrow' : rows[k]? = some row') :
    Gap.Yields (Demanded (contentOf layout.tokens) settings checks.checks k) row.gap row'.gap := by
  have hmended := h.mended hrow hrow'
  refine ⟨fun demand hwants hrejects => ?_, fun hall => congrArg Gap.pieces ?_⟩
  · obtain ⟨v, hv, hsite⟩ := demanded_iff.mp hwants
    obtain ⟨other, next, hmeets⟩ :=
      Visit.exists_meets (fits_of_mem_schedule hv) (by rw [hsite])
    have hother := hmeets.row_eq
    rw [hsite, hrow] at hother
    obtain rfl := Option.some.inj hother
    obtain ⟨position, hreport⟩ := hmeets.reports
    rw [hsite, if_neg (by simp [hrejects])] at hreport
    exact hmended.repaired _ (mem_detect_iff.mpr ⟨v, hv, hreport⟩) ⟨rfl, rfl⟩
  · apply hmended.untouched
    intro p hp hmends
    obtain ⟨v, hv, next, hleft, hmeets, hrule, hrejects⟩ :=
      exists_visit_of_mends hlexes.nodup hp hrow hmends
    have hsite : v.site = ⟨k, k + 1, v.site.demand⟩ := by
      rw [← hleft, ← hmeets.near]
    rw [hrule, hall _ (demanded_iff.mpr ⟨v, hv, hsite⟩)] at hrejects
    cases hrejects

namespace Linter

/-- A run in fix mode meets the demands of its checks, as its text shows when it is read again. -/
theorem exists_run_yields (linter : Linter) {source : String} {s : TokenStream}
    (hlex : lex source = .ok s) : ∃ report again, linter.run source .fix = .ok report ∧
      lex report.output = .ok again ∧
      (contentOf again.tokens).map Token.face = (contentOf s.tokens).map Token.face ∧
      (Layout.ofTokens s.tokens).Yields
        (Demanded (contentOf s.tokens) linter.settings linter.checks.checks)
        (Layout.ofTokens again.tokens) := by
  obtain ⟨layout, rows, htokens, hlexes, hprogress⟩ := linter.exists_mended_rows hlex
  obtain ⟨again, hagain, hfaces⟩ := linter.exists_lex_mend hlex
  refine ⟨_, again, linter.run_fix_eq hlex, hagain, linter.map_face_contentOf_again hlex hfaces, ?_⟩
  have hmend : (linter.mend s).tokens = Layout.tokens ⟨layout.lead, rows, layout.blank⟩ :=
    hprogress.tokens_eq
  obtain ⟨hlead, hrows⟩ := Layout.forall₂_of_map_face hfaces
  rw [hmend, Layout.ofTokens_tokens] at hlead hrows
  rw [htokens, Layout.ofTokens_tokens]
  have hread {k : Nat} {row' last : Row} (hrow' : rows[k]? = some row')
      (hlast : (Layout.ofTokens again.tokens).rows[k]? = some last) :
      last.head.face = row'.head.face ∧ last.gap.pieces = row'.gap.pieces := by
    obtain ⟨hk, rfl⟩ := List.getElem?_eq_some_iff.mp hlast
    obtain ⟨hk', rfl⟩ := List.getElem?_eq_some_iff.mp hrow'
    obtain ⟨hhead, hgap⟩ := hrows.get hk hk'
    exact ⟨hhead, Gap.pieces_eq_of_map_face hgap⟩
  refine ⟨Gap.pieces_eq_of_map_face hlead, hrows.length_eq.trans hprogress.length_eq, ?_, ?_⟩
  · intro k row last hrow hlast
    obtain ⟨row', hrow', hmended⟩ := hprogress.exists_row hrow
    rw [(hread hrow' hlast).1, hmended.head]
  · intro k row last hrow hlast
    obtain ⟨row', hrow', _⟩ := hprogress.exists_row hrow
    exact (hprogress.yields hlexes hrow hrow').of_pieces_eq (hread hrow' hlast).2

/-- The text after some checks have run in fix mode one at a time, each on the text that the one
before left. -/
def runEach (settings : Settings) : List Check → String → Except LexError String
  | [], source => .ok source
  | check :: checks, source =>
    match (⟨.only [check], settings⟩ : Linter).run source .fix with
    | .error e => .error e
    | .ok report => runEach settings checks report.output

/-- Checks that run one at a time meet all of their demands. -/
theorem exists_runEach_yields (settings : Settings) (checks : List Check) {source : String}
    {s : TokenStream} (hlex : lex source = .ok s) : ∃ output last,
      runEach settings checks source = .ok output ∧ lex output = .ok last ∧
      (Layout.ofTokens s.tokens).Yields (Demanded (contentOf s.tokens) settings checks)
        (Layout.ofTokens last.tokens) := by
  induction checks generalizing source s with
  | nil =>
    refine ⟨source, s, rfl, hlex, Layout.Yields.refl ?_⟩
    rintro k demand ⟨check, hcheck, _⟩
    cases hcheck
  | cons check checks ih =>
    obtain ⟨report, again, hrun, hagain, hfaces, hfirst⟩ :=
      exists_run_yields ⟨.only [check], settings⟩ hlex
    obtain ⟨output, last, heach, hlast, hrest⟩ := ih hagain
    refine ⟨output, last, ?_, hlast, ?_⟩
    · simp only [runEach, hrun, heach]
    -- the later checks see the content of the original, so they demand the same of it
    have hsame (checks : List Check) : Demanded (contentOf again.tokens) settings checks =
        Demanded (contentOf s.tokens) settings checks := by
      funext k demand
      simp only [Demanded, sites_eq_of_map_face hfaces]
    rw [hsame] at hrest
    rw [demanded_congr _ _ fun _ => CheckSet.mem_only] at hfirst
    have hagree (k : Nat) (demand other : Demand)
        (hdemand : Demanded (contentOf s.tokens) settings [check] k demand ∨
          Demanded (contentOf s.tokens) settings checks k demand)
        (hother : Demanded (contentOf s.tokens) settings [check] k other ∨
          Demanded (contentOf s.tokens) settings checks k other) : Demand.Agree demand other :=
      (demanded_cons.mpr hdemand).agree (demanded_cons.mpr hother)
    have hall := hfirst.trans hagree hrest
    simpa only [← demanded_cons] using hall

/-- The problems of a manifest that can be repaired may be repaired in any order, each under the
hint that it was found with, and the checks of a set may run one at a time, in any order and with
repetitions: the text is that of one run in fix mode. -/
theorem run_fix_any_order (linter : Linter) {source : String} {s : TokenStream}
    (hlex : lex source = .ok s) :
    (∃ report, linter.run source .fix = .ok report ∧
      ∀ ps, ps.Perm ((linter.detect s).filter Problem.fixable) →
        (s.fixEach ps).1.render = report.output ∧
          (s.fixEach ps).2 = ps.map fun p => { p with fixed := true }) ∧
    ∀ members checks : List Check, (∀ check, check ∈ checks ↔ check ∈ members) →
      ∃ report, (⟨.only members, linter.settings⟩ : Linter).run source .fix = .ok report ∧
        runEach linter.settings checks source = .ok report.output := by
  refine ⟨⟨_, linter.run_fix_eq hlex, fun ps hperm => linter.render_fixEach hlex hperm⟩, ?_⟩
  intro members checks hmem
  obtain ⟨report, again, hrun, hagain, _, hmembers⟩ :=
    exists_run_yields ⟨.only members, linter.settings⟩ hlex
  obtain ⟨output, last, heach, hlast, hchecks⟩ :=
    exists_runEach_yields linter.settings checks hlex
  refine ⟨report, hrun, ?_⟩
  rw [demanded_congr _ _ fun check => CheckSet.mem_only.trans (hmem check).symm] at hmembers
  have htext := hchecks.renderTokens_eq hmembers
  rw [Layout.tokens_ofTokens, Layout.tokens_ofTokens] at htext
  have houtput : output = report.output :=
    (lex_eq_ok_iff.mp hlast).2.1.symm.trans (htext.trans (lex_eq_ok_iff.mp hagain).2.1)
  rw [heach, houtput]

/-- Two problems that share a gap are repaired in reverse order, and one of the checks is run
twice. -/
theorem run_fix_any_order_shared_gap :
    ∃ s ps report report', lex "\x7b\x7b\x7d\t\x7d" = .ok s ∧
      ps = ((standard.detect s).filter Problem.fixable).reverse ∧
      standard.run "\x7b\x7b\x7d\t\x7d" .fix = .ok report ∧
      ((s.fixEach ps).1.render = report.output ∧
        (s.fixEach ps).2 = ps.map fun p => { p with fixed := true }) ∧
      (⟨.only [.closingBraceBefore, .closingBraceAfter], .standard⟩ : Linter).run
        "\x7b\x7b\x7d\t\x7d" .fix = .ok report' ∧
      runEach .standard [.closingBraceAfter, .closingBraceBefore, .closingBraceAfter]
        "\x7b\x7b\x7d\t\x7d" = .ok report'.output := by
  have hlex : lex "\x7b\x7b\x7d\t\x7d" = .ok ⟨[⟨0, .openBrace, "\x7b", ⟨1, 1⟩⟩,
      ⟨1, .openBrace, "\x7b", ⟨1, 2⟩⟩, ⟨2, .closeBrace, "\x7d", ⟨1, 3⟩⟩,
      ⟨3, .whitespace, "\t", ⟨1, 4⟩⟩, ⟨4, .closeBrace, "\x7d", ⟨1, 5⟩⟩], 5⟩ := by cbv
  obtain ⟨⟨report, hrun, hperm⟩, hchecks⟩ := run_fix_any_order standard hlex
  obtain ⟨report', hrun', heach⟩ := hchecks [.closingBraceBefore, .closingBraceAfter]
    [.closingBraceAfter, .closingBraceBefore, .closingBraceAfter]
    fun check => by cases check <;> decide
  exact ⟨_, _, report, report', hlex, rfl, hrun, hperm _ (List.reverse_perm _), hrun', heach⟩

end Linter

end ManifestSpacing
