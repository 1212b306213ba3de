import ManifestSpacing.Proofs.Lint.Fixing

/-!
# Reading a fixed manifest again

A fixed manifest is lexed to the tokens that the pass left behind, so its
content and the visits that its checks make are those of the original. Every
visit to neighbours is then satisfied: either the gap was accepted from the
start and has not been touched, or it holds the repair of a demand that agrees
with that of the visit. What remains to be reported are the visits across
comments, and a second pass has nothing to do.
-/

namespace ManifestSpacing

/-! ## What follows from the faces of tokens -/

section Faces

variable {ts us : List Token} (h : ts.map Token.face = us.map Token.face)

include h

theorem Gap.pieces_eq_of_map_face : Gap.pieces ts = Gap.pieces us := by
  have hpiece : GapPiece.ofToken = (fun face : TokenKind × String =>
      if face.1 = .newline then .newline face.2 else .whitespace face.2) ∘ Token.face := rfl
  rw [pieces, pieces, hpiece, ← List.map_map, h, List.map_map]

theorem contentPlace_eq_of_map_face : contentPlace ts = contentPlace us := by
  have hkinds := congrArg (List.map Prod.fst) h
  rw [List.map_map, List.map_map] at hkinds
  exact congrArg (Skeleton.place fun kind => !kind.isBlank) hkinds

theorem map_face_contentOf : (contentOf ts).map Token.face = (contentOf us).map Token.face := by
  have hfilter (tokens : List Token) : (contentOf tokens).map Token.face =
      (tokens.map Token.face).filter fun face => !face.1.isBlank := by
    rw [List.filter_map]
    rfl
  rw [hfilter, hfilter, h]

/-- A visit looks at the same pieces. -/
theorem Visit.pieces_gap_eq_of_map_face (v : Visit) :
    (v.gap ts).pieces = (v.gap us).pieces := by
  apply Gap.pieces_eq_of_map_face
  rw [Visit.gap, Visit.gap, contentPlace_eq_of_map_face h, Gap.between, Gap.between,
    List.map_drop, List.map_drop, List.map_take, List.map_take, h]

end Faces

/-- A demand judges gaps with the same pieces by one rule. -/
theorem Demand.rule_congr (demand : Demand) {gap gap' : Gap} (hpieces : gap.pieces = gap'.pieces) :
    demand.rule gap = demand.rule gap' := by
  cases demand with
  | body afterOpener => simp only [rule, BodyClass.classify, Gap.hasNewline_eq, hpieces]
  | follower next => rfl
  | word => rfl

/-- A demand judges blank gaps with the same pieces alike. -/
theorem Demand.accepts_rule_congr (demand : Demand) {gap gap' : Gap} (hblank : gap.IsBlank)
    (hblank' : gap'.IsBlank) (hpieces : gap.pieces = gap'.pieces) :
    (demand.rule gap).accepts gap = (demand.rule gap').accepts gap' := by
  rw [demand.rule_congr hpieces, GapRule.accepts_congr hblank hblank' hpieces]

/-! ## Problems that cannot be repaired -/

/-- What a problem tells apart from its place. -/
def Problem.finding (p : Problem) : Check × Severity × String × GapRule :=
  (p.check, p.severity, p.message, p.rule)

namespace Visit

/-- What a visit across a comment finds. -/
def farFinding (settings : Settings) (v : Visit) : Check × Severity × String × GapRule :=
  (v.check, settings.severityOf v.check, v.check.message, .singleSpace)

/-- The problems of some visits that cannot be repaired are those of the visits across comments. -/
theorem map_finding_unfixable {layout : Layout} {settings : Settings} {vs : List Visit}
    (h : ∀ v ∈ vs, v.site.Fits (contentOf layout.tokens) settings) :
    ((vs.filterMap (problem? layout.tokens settings)).filter fun p => !p.fixable).map
        Problem.finding = (vs.filter isFar).map (farFinding settings) := by
  induction vs with
  | nil => rfl
  | cons v vs ih =>
    have hhead := h v List.mem_cons_self
    have htail := ih fun w hw => h w (List.mem_cons_of_mem v hw)
    cases hfar : v.isFar with
    | true =>
      obtain ⟨p, hp, hunfixable, _, hcheck, hseverity, hrule⟩ :=
        problem?_of_far hhead (by simpa [isFar] using hfar)
      rw [List.filterMap_cons_some hp, List.filter_cons_of_pos (by simp [hunfixable]),
        List.filter_cons_of_pos hfar, List.map_cons, List.map_cons, htail]
      simp only [Problem.finding, farFinding, Problem.message, hcheck, hseverity, hrule]
    | false =>
      obtain ⟨row, next, hmeets⟩ := exists_meets hhead (isFar_eq_false.mp hfar)
      obtain ⟨position, hreport⟩ := hmeets.reports
      rw [List.filter_cons_of_neg (by simp [hfar]), ← htail]
      split at hreport
      · rw [List.filterMap_cons_none hreport]
      · rw [List.filterMap_cons_some hreport, List.filter_cons_of_neg (by simp)]

end Visit

/-- The problems of a lexed manifest that cannot be repaired depend on the content alone. -/
theorem Linter.map_finding_detect (linter : Linter) {s : TokenStream}
    (hlexes : Lexer.Lexes [] .start 0 s.tokens) :
    ((linter.detect s).filter fun p => !p.fixable).map Problem.finding =
      ((schedule (contentOf s.tokens) linter.checks linter.settings).filter Visit.isFar).map
        (Visit.farFinding linter.settings) := by
  have htokens := Layout.tokens_ofTokens s.tokens
  rw [detect, detect_eq_filterMap_schedule hlexes.spotsInOrder]
  rw [← htokens]
  exact Visit.map_finding_unfixable fun _ hv => fits_of_mem_schedule hv

/-! ## The end of a pass -/

/-- Once a pass is over, every visit to neighbours is satisfied. -/
theorem Progress.accepts_of_meets {layout : Layout} {id : TokenId} {checks : CheckSet}
    {settings : Settings} {rows : List Row} {final : TokenStream}
    (h : Progress layout (detect layout.tokens checks settings) rows final)
    (hlexes : Lexer.Lexes [] .start id layout.tokens) {v : Visit}
    (hv : v ∈ schedule (contentOf layout.tokens) checks settings) {row next row' : Row}
    (hmeets : v.Meets layout settings row next) (hrow' : rows[v.site.left]? = some row') :
    (v.site.demand.rule row'.gap).accepts row'.gap = true := by
  have hmended := h.mended hmeets.row_eq hrow'
  by_cases hdone : ∃ p ∈ detect layout.tokens checks settings, p.Mends row
  · obtain ⟨p, hp, hmends⟩ := hdone
    obtain ⟨w, _, _, hleft, hwmeets, hrule, _⟩ :=
      exists_visit_of_mends hlexes.nodup hp hmeets.row_eq hmends
    have hpieces := hmended.repaired p hp hmends
    rw [hrule] at hpieces
    exact (hmeets.agree hwmeets hleft).accepts_of_repair row'.blank hpieces
  · rw [hmended.untouched fun p hp hmends => hdone ⟨p, hp, hmends⟩]
    by_contra hreject
    obtain ⟨position, hreport⟩ := hmeets.reports
    rw [if_neg hreject] at hreport
    -- a rejected gap would have been reported, and the problem would have mended the row
    exact hdone ⟨_, mem_detect_iff.mpr ⟨v, hv, hreport⟩, rfl, rfl⟩

namespace Linter

/-- The stream that a pass over the problems of a stream leaves behind. -/
def mend (linter : Linter) (s : TokenStream) : TokenStream := (fixPass 0 s (linter.detect s)).1

section Mend

variable (linter : Linter) {source : String} {s : TokenStream} (hlex : lex source = .ok s)

include hlex

/-- A mended manifest has the rows of the original with other gaps. -/
theorem exists_mended_rows : ∃ layout rows, s.tokens = layout.tokens ∧
    Lexer.Lexes [] .start 0 layout.tokens ∧
    Progress layout (ManifestSpacing.detect layout.tokens linter.checks linter.settings) rows
      (linter.mend s) := by
  obtain ⟨hlexes, _, hid⟩ := lex_eq_ok_iff.mp hlex
  have htokens := (Layout.tokens_ofTokens s.tokens).symm
  obtain ⟨rows, hprogress⟩ := (linter.exists_progress htokens hlexes hid).1
  refine ⟨_, rows, htokens, htokens ▸ hlexes, ?_⟩
  rw [← htokens]
  exact hprogress

/-- A pass keeps the content. -/
theorem contentOf_mend : contentOf (linter.mend s).tokens = contentOf s.tokens := by
  obtain ⟨layout, rows, htokens, _, hprogress⟩ := linter.exists_mended_rows hlex
  have hmend : (linter.mend s).tokens = Layout.tokens ⟨layout.lead, rows, layout.blank⟩ :=
    hprogress.tokens_eq
  rw [hmend, htokens, Layout.contentOf_tokens, Layout.contentOf_tokens, hprogress.map_head]

/-- A mended manifest is lexed to its own tokens. -/
theorem exists_lex_mend : ∃ again, lex (linter.mend s).render = .ok again ∧
    again.tokens.map Token.face = (linter.mend s).tokens.map Token.face := by
  obtain ⟨layout, rows, _, hlexes, hprogress⟩ := linter.exists_mended_rows hlex
  rw [TokenStream.render, hprogress.tokens_eq]
  exact @exists_lex_eq_of_respaced _ ⟨layout.lead, rows, layout.blank⟩ _ hlexes rfl
    (hprogress.respaced (harmonious_detect hlexes))

variable {again : TokenStream}
  (hfaces : again.tokens.map Token.face = (linter.mend s).tokens.map Token.face)

include hfaces

theorem map_face_contentOf_again :
    (contentOf again.tokens).map Token.face = (contentOf s.tokens).map Token.face := by
  rw [map_face_contentOf hfaces, linter.contentOf_mend hlex]

/-- The checks make the same visits to a mended manifest. -/
theorem schedule_again : schedule (contentOf again.tokens) linter.checks linter.settings =
    schedule (contentOf s.tokens) linter.checks linter.settings :=
  schedule_eq_of_map_face (linter.map_face_contentOf_again hlex hfaces) _ _

/-- A visit to neighbours in a mended manifest reports nothing. -/
private theorem problem?_again_eq_none {v : Visit}
    (hv : v ∈ schedule (contentOf again.tokens) linter.checks linter.settings)
    (hnear : v.site.right = v.site.left + 1) :
    v.problem? again.tokens linter.settings = none := by
  obtain ⟨layout, rows, htokens, hlexes, hprogress⟩ := linter.exists_mended_rows hlex
  have horiginal := hv
  rw [linter.schedule_again hlex hfaces, htokens] at horiginal
  obtain ⟨row, next, hmeets⟩ := Visit.exists_meets (fits_of_mem_schedule horiginal) hnear
  obtain ⟨row', hrow', _⟩ := hprogress.exists_row hmeets.row_eq
  obtain ⟨next', hnext', _⟩ := hprogress.exists_row hmeets.next_eq
  have haccepts := hprogress.accepts_of_meets hlexes horiginal hmeets hrow'
  -- what is read again has the pieces of the mended row
  have hpieces : (v.gap again.tokens).pieces = row'.gap.pieces := by
    rw [Visit.pieces_gap_eq_of_map_face hfaces, hprogress.tokens_eq, Visit.gap, hnear]
    exact congrArg Gap.pieces
      (@Layout.between_eq_gap ⟨layout.lead, rows, layout.blank⟩ _ _ _ hrow' hnext')
  rw [← Layout.tokens_ofTokens again.tokens] at hv hpieces ⊢
  obtain ⟨last, _, hlast⟩ := Visit.exists_meets (fits_of_mem_schedule hv) hnear
  obtain ⟨position, hreport⟩ := hlast.reports
  rw [hlast.gap_eq] at hpieces
  rw [hreport, if_pos]
  rwa [Demand.accepts_rule_congr _ last.blank row'.blank hpieces]

/-- Nothing in a mended manifest can be repaired. -/
theorem fixable_eq_false_of_again (hlexes : Lexer.Lexes [] .start 0 again.tokens) :
    ∀ p ∈ linter.detect again, p.fixable = false := by
  intro p hp
  rw [detect, detect_eq_filterMap_schedule hlexes.spotsInOrder] at hp
  obtain ⟨v, hv, hvp⟩ := List.mem_filterMap.mp hp
  by_cases hnear : v.site.right = v.site.left + 1
  · rw [linter.problem?_again_eq_none hlex hfaces hv hnear] at hvp
    cases hvp
  · obtain ⟨q, hq, hunfixable, _⟩ := Visit.problem?_of_far (fits_of_mem_schedule hv) hnear
    obtain rfl := Option.some.inj (hvp.symm.trans hq)
    exact hunfixable

/-- A mended manifest has the findings of the original that could not be repaired. -/
theorem map_finding_again (hlexes : Lexer.Lexes [] .start 0 again.tokens) :
    (linter.detect again).map Problem.finding =
      ((linter.detect s).filter fun p => !p.fixable).map Problem.finding := by
  have hall : (linter.detect again).filter (fun p => !p.fixable) = linter.detect again := by
    rw [List.filter_eq_self]
    intro p hp
    rw [linter.fixable_eq_false_of_again hlex hfaces hlexes p hp]
    rfl
  rw [← hall, linter.map_finding_detect hlexes,
    linter.map_finding_detect (lex_eq_ok_iff.mp hlex).1, linter.schedule_again hlex hfaces]

end Mend

end Linter

end ManifestSpacing
