import ManifestSpacing.Proofs.Lexical.LineComments
import ManifestSpacing.Proofs.Lexical.Respacing
import ManifestSpacing.Proofs.Lint.Mending
import ManifestSpacing.Proofs.Lint.Schedule

/-!
# Fixing a lexed manifest

The problems of a lexed manifest that can be repaired sit between neighbouring
rows, and those of one gap put the same pieces into it. So a pass over them
respaces the manifest: it leaves every token of content where it is and puts
repairs into exactly the gaps that have a problem.
-/

namespace ManifestSpacing

/-! ## Rows and the content -/

namespace Layout

variable (layout : Layout)

theorem getElem?_content (k : Nat) :
    (contentOf layout.tokens)[k]? = (layout.rows[k]?).map Row.head := by
  rw [contentOf_tokens, List.getElem?_map]

/-- Identities of rows are distinct where those of tokens are. -/
theorem nodup_head_id (h : (layout.tokens.map Token.id).Nodup) :
    (layout.rows.map fun row => row.head.id).Nodup := by
  have hrows : (layout.rows.map fun row => row.head.id) =
      (contentOf layout.tokens).map Token.id := by
    rw [contentOf_tokens, List.map_map]
    rfl
  rw [hrows]
  exact h.sublist (List.filter_sublist.map _)

variable {layout}

/-- The index of a row's token is the number of tokens before it. -/
theorem contentPlace_eq {k : Nat} (hk : k < layout.rows.length) :
    contentPlace layout.tokens k = (layout.lead ++ Row.join (layout.rows.take k)).length := by
  have hcount : (contentOf (layout.lead ++ Row.join (layout.rows.take k))).length = k := by
    have hrows := contentOf_tokens ⟨layout.lead, layout.rows.take k, layout.blank⟩
    rw [tokens] at hrows
    rw [hrows, List.length_map, List.length_take, Nat.min_eq_left (Nat.le_of_lt hk)]
  have hsplit : layout.tokens = (layout.lead ++ Row.join (layout.rows.take k)) ++
      layout.rows[k].head :: (layout.rows[k].gap ++ Row.join (layout.rows.drop (k + 1))) := by
    conv_lhs => rw [tokens, ← List.take_append_drop k layout.rows, List.drop_eq_getElem_cons hk]
    rw [Row.join_append, Row.join_cons, List.append_assoc]
  generalize layout.lead ++ Row.join (layout.rows.take k) = xs at hcount hsplit ⊢
  subst hcount
  rw [hsplit, contentPlace, Skeleton.place_map]
  exact Skeleton.place_append (by simp [Row.solid])

/-- The tokens of a layout split at two neighbours. -/
theorem tokens_eq_of_getElem? {k : Nat} {row next : Row} (hrow : layout.rows[k]? = some row)
    (hnext : layout.rows[k + 1]? = some next) :
    layout.tokens = (layout.lead ++ Row.join (layout.rows.take k)) ++
      row.head :: (row.gap ++ next.head :: (next.gap ++ Row.join (layout.rows.drop (k + 2)))) := by
  rw [tokens, Row.join_eq_of_getElem? hrow hnext, List.append_assoc]

/-- The gap between two neighbours is that of the first. -/
theorem between_eq_gap {k : Nat} {row next : Row} (hrow : layout.rows[k]? = some row)
    (hnext : layout.rows[k + 1]? = some next) :
    Gap.between layout.tokens (contentPlace layout.tokens k)
      (contentPlace layout.tokens (k + 1)) = row.gap := by
  have hright : contentPlace layout.tokens (k + 1) =
      (layout.lead ++ Row.join (layout.rows.take k)).length + 1 + row.gap.length := by
    rw [contentPlace_eq (List.getElem?_eq_some_iff.mp hnext).1, List.take_add_one, hrow,
      Row.join_append]
    simp only [Option.toList_some, Row.join_cons, Row.join_nil, List.append_nil,
      List.length_append, List.length_cons]
    omega
  rw [contentPlace_eq (List.getElem?_eq_some_iff.mp hrow).1, hright]
  conv_lhs => rw [tokens_eq_of_getElem? hrow hnext]
  exact Gap.between_append _ _ _ _ _

/-- Behind a row's token stands its gap or the next row. -/
theorem getElem?_spot {k : Nat} {row next : Row} (hrow : layout.rows[k]? = some row)
    (hnext : layout.rows[k + 1]? = some next) :
    layout.tokens[contentPlace layout.tokens k + 1]? = some (row.gap.headD next.head) := by
  rw [contentPlace_eq (List.getElem?_eq_some_iff.mp hrow).1]
  conv_lhs => rw [tokens_eq_of_getElem? hrow hnext]
  rw [List.getElem?_append_right (by omega), Nat.add_sub_cancel_left, List.getElem?_cons_succ]
  cases row.gap <;> rfl

end Layout

/-! ## What a visit reports, by rows -/

/-- Whether a visit is to tokens that are no neighbours. -/
def Visit.isFar (v : Visit) : Bool := v.site.right != v.site.left + 1

theorem Visit.isFar_eq_false {v : Visit} :
    v.isFar = false ↔ v.site.right = v.site.left + 1 := by
  simp [isFar]

theorem Site.Fits.left_lt_length {layout : Layout} {settings : Settings} {site : Site}
    (h : site.Fits (contentOf layout.tokens) settings) : site.left < layout.rows.length := by
  obtain ⟨_, a, _, ha, _⟩ := h.exists_ends
  rw [Layout.contentOf_tokens] at ha
  simpa using (List.getElem?_eq_some_iff.mp ha).1

/-- What a visit to a site that fits reports: its own row decides, and the rows at both ends and
right behind the first give their names and places. -/
theorem Visit.problem?_eq_of_rows {layout : Layout} {settings : Settings} {v : Visit}
    (hfits : v.site.Fits (contentOf layout.tokens) settings) :
    ∃ row next last, layout.rows[v.site.left]? = some row ∧
      layout.rows[v.site.left + 1]? = some next ∧ layout.rows[v.site.right]? = some last ∧
      v.problem? layout.tokens settings =
        if (!v.isFar && (v.site.demand.rule row.gap).accepts row.gap) = true then none
        else some ⟨settings.severityOf v.check, (row.gap.headD next.head).position, v.check, false,
          !v.isFar, ⟨row.head.id, last.head.id, contentPlace layout.tokens v.site.left⟩,
          v.site.demand.rule row.gap⟩ := by
  obtain ⟨a, b, spot, ha, hb, hspot, hreport⟩ := Visit.problem?_eq hfits
  rw [Layout.getElem?_content, Option.map_eq_some_iff] at ha hb
  obtain ⟨row, hrow, rfl⟩ := ha
  obtain ⟨last, hlast, rfl⟩ := hb
  have hinside := (List.getElem?_eq_some_iff.mp hlast).1
  have hlt := hfits.exists_ends.1
  have hnext : layout.rows[v.site.left + 1]? = some layout.rows[v.site.left + 1] :=
    List.getElem?_eq_getElem (by omega)
  refine ⟨row, _, last, hrow, hnext, hlast, ?_⟩
  rw [Layout.getElem?_spot hrow hnext] at hspot
  obtain rfl := Option.some.inj hspot
  rw [hreport]
  cases hfar : v.isFar with
  | false =>
    have hgap : v.gap layout.tokens = row.gap := by
      rw [Visit.gap, isFar_eq_false.mp hfar]
      exact Layout.between_eq_gap hrow hnext
    rw [hgap, row.blank.hasComment_eq_false]
    rfl
  | true =>
    have hright : v.site.right ≠ v.site.left + 1 := by simpa [isFar] using hfar
    obtain ⟨hdemand, hcomment⟩ := Visit.hasComment_gap hfits hright
    rw [Visit.accepts_of_far hfits hright, hcomment, hdemand]
    rfl

/-- The row that a problem of a visit mends is that of the visit. -/
theorem Visit.site_eq_of_mends {layout : Layout} {settings : Settings} {v : Visit}
    (hfits : v.site.Fits (contentOf layout.tokens) settings)
    (hnodup : (layout.tokens.map Token.id).Nodup) {p : Problem}
    (hp : v.problem? layout.tokens settings = some p) {k : Nat} {row : Row}
    (hrow : layout.rows[k]? = some row) (hmends : p.Mends row) :
    v.site = ⟨k, k + 1, v.site.demand⟩ ∧ p.rule = v.site.demand.rule row.gap ∧
      p.rule.accepts row.gap = false := by
  obtain ⟨other, next, last, hother, _, _, hreport⟩ := Visit.problem?_eq_of_rows hfits
  rw [hp] at hreport
  split at hreport
  · cases hreport
  rename_i hrejects
  obtain rfl := Option.some.inj hreport
  have hleft : v.site.left = k :=
    eq_of_nodup_map (layout.nodup_head_id hnodup) hother hrow hmends.2
  have hnear : v.isFar = false := by simpa using hmends.1
  rw [hleft] at hother
  obtain rfl := Option.some.inj (hother.symm.trans hrow)
  refine ⟨?_, rfl, by simpa [hnear] using hrejects⟩
  rw [← hleft, ← Visit.isFar_eq_false.mp hnear]

/-! ## Visits to neighbours -/

/-- A visit to the gap between two neighbouring rows, and what it reports. -/
structure Visit.Meets (v : Visit) (layout : Layout) (settings : Settings) (row next : Row) :
    Prop where
  near : v.site.right = v.site.left + 1
  row_eq : layout.rows[v.site.left]? = some row
  next_eq : layout.rows[v.site.left + 1]? = some next
  fits : Site.Fits (contentOf layout.tokens) settings
    ⟨v.site.left, v.site.left + 1, v.site.demand⟩
  /-- The gap that is looked at is that of the first row. -/
  gap_eq : v.gap layout.tokens = row.gap
  /-- A problem can be repaired. -/
  reports : ∃ position, v.problem? layout.tokens settings =
    if (v.site.demand.rule row.gap).accepts row.gap then none
    else some ⟨settings.severityOf v.check, position, v.check, false, true,
      ⟨row.head.id, next.head.id, contentPlace layout.tokens v.site.left⟩,
      v.site.demand.rule row.gap⟩

/-- Every visit to neighbours meets their rows. -/
theorem Visit.exists_meets {layout : Layout} {settings : Settings} {v : Visit}
    (hfits : v.site.Fits (contentOf layout.tokens) settings)
    (hnear : v.site.right = v.site.left + 1) : ∃ row next, v.Meets layout settings row next := by
  obtain ⟨row, next, last, hrow, hnext, hlast, hreport⟩ := Visit.problem?_eq_of_rows hfits
  rw [hnear, hnext] at hlast
  obtain rfl := Option.some.inj hlast
  have hgap : v.gap layout.tokens = row.gap := by
    rw [Visit.gap, hnear]
    exact Layout.between_eq_gap hrow hnext
  have hsite : v.site = ⟨v.site.left, v.site.left + 1, v.site.demand⟩ := by rw [← hnear]
  rw [Visit.isFar_eq_false.mpr hnear, Bool.not_false, Bool.true_and] at hreport
  exact ⟨row, next, hnear, hrow, hnext, hsite ▸ hfits, hgap, _, hreport⟩

namespace Visit.Meets

variable {v : Visit} {layout : Layout} {settings : Settings} {row next : Row}

theorem governs (h : v.Meets layout settings row next) :
    (v.site.demand.rule row.gap).Governs row.head.kind next.head.kind row.gap := by
  apply h.fits.governs
  · rw [Layout.getElem?_content, h.row_eq, Option.map_some]
  · rw [Layout.getElem?_content, h.next_eq, Option.map_some]

/-- Visits to one row make demands that agree. -/
theorem agree {w : Visit} {other next' : Row} (h : v.Meets layout settings row next)
    (h' : w.Meets layout settings other next') (hleft : w.site.left = v.site.left) :
    Demand.Agree v.site.demand w.site.demand := by
  have hfits := h'.fits
  rw [hleft] at hfits
  exact h.fits.agree hfits

end Visit.Meets

/-! ## Problems of a lexed manifest -/

section Detected

variable {layout : Layout} {checks : CheckSet} {settings : Settings}

/-- A rule that rejects the gap behind a line comment puts a line end there. -/
theorem any_isNewline_repair {rule : GapRule} {left right : Token} {gap : Gap}
    (hcomment : left.isLineComment = true) (hrule : rule.Governs left.kind right.kind gap)
    (hline : right.kind = .closeBrace → gap.hasNewline = true) :
    (rule.repair gap).any GapPiece.isNewline = true := by
  have hkind := ((Token.isLineComment_iff left).mp hcomment).1
  cases rule with
  | before body =>
    cases body with
    | emptyPair =>
      rw [hkind] at hrule
      cases hrule.1
    | lineBreakBody =>
      have hone := GapRule.countP_collapseNewlines gap
      exact List.any_eq_true.mpr (List.countP_pos_iff.mp (hone.symm ▸ Nat.one_pos))
    | inlineBody =>
      have hnewline := hline hrule.1
      rw [hrule.2] at hnewline
      cases hnewline
  | after follower =>
    have hclose : left.kind = .closeBrace := hrule
    rw [hkind] at hclose
    cases hclose
  | singleSpace => rcases hrule with h | h | h <;> rw [hkind] at h <;> cases h

/-- Detection marks no problem as fixed. -/
theorem fixed_eq_false_of_mem_detect {tokens : List Token} {p : Problem}
    (hp : p ∈ detect tokens checks settings) : p.fixed = false := by
  obtain ⟨v, hv, hvp⟩ := mem_detect_iff.mp hp
  obtain ⟨a, b, spot, _, _, _, heq⟩ := Visit.problem?_eq (fits_of_mem_schedule hv)
  rw [hvp] at heq
  split at heq
  · cases heq
  · obtain rfl := Option.some.inj heq
    rfl

/-- The visit that found a problem of a row is one to that row. -/
theorem exists_visit_of_mends (hnodup : (layout.tokens.map Token.id).Nodup) {p : Problem}
    (hp : p ∈ detect layout.tokens checks settings) {k : Nat} {row : Row}
    (hrow : layout.rows[k]? = some row) (hmends : p.Mends row) :
    ∃ v ∈ schedule (contentOf layout.tokens) checks settings, ∃ next, v.site.left = k ∧
      v.Meets layout settings row next ∧ p.rule = v.site.demand.rule row.gap ∧
      p.rule.accepts row.gap = false := by
  obtain ⟨v, hv, hvp⟩ := mem_detect_iff.mp hp
  have hfits := fits_of_mem_schedule hv
  obtain ⟨hsite, hrule, hrejects⟩ := Visit.site_eq_of_mends hfits hnodup hvp hrow hmends
  have hleft : v.site.left = k := by rw [hsite]
  obtain ⟨other, next, hmeets⟩ := Visit.exists_meets hfits (by rw [hsite])
  obtain rfl : other = row := Option.some.inj (hmeets.row_eq.symm.trans (hleft ▸ hrow))
  exact ⟨v, hv, next, hleft, hmeets, hrule, hrejects⟩

variable (hends : CommentsEnd layout.tokens)

include hends

/-- A problem that can be repaired was found on a visit to neighbours. -/
theorem exists_visit_of_fixable {p : Problem}
    (hp : p ∈ detect layout.tokens checks settings) (hfixable : p.fixable = true) :
    ∃ v ∈ schedule (contentOf layout.tokens) checks settings, ∃ row next,
      v.Meets layout settings row next ∧ p.rule = v.site.demand.rule row.gap ∧
        p.anchors.hint = contentPlace layout.tokens v.site.left ∧
        p.Repairable layout v.site.left row next := by
  obtain ⟨v, hv, hvp⟩ := mem_detect_iff.mp hp
  have hfits := fits_of_mem_schedule hv
  have hnear : v.site.right = v.site.left + 1 := by
    by_contra hfar
    obtain ⟨q, hq, hunfixable, _⟩ := Visit.problem?_of_far hfits hfar
    obtain rfl := Option.some.inj (hvp.symm.trans hq)
    exact Bool.false_ne_true (hunfixable.symm.trans hfixable)
  obtain ⟨row, next, hmeets⟩ := Visit.exists_meets hfits hnear
  obtain ⟨position, hreport⟩ := hmeets.reports
  rw [hvp] at hreport
  split at hreport
  · cases hreport
  rename_i hreject
  obtain rfl := Option.some.inj hreport
  refine ⟨v, hv, row, next, hmeets, rfl, rfl, hmeets.row_eq, hmeets.next_eq, rfl, rfl,
    Bool.eq_false_iff.mpr hreject, hmeets.governs, fun hcomment => ?_⟩
  rw [Layout.tokens_eq_of_getElem? hmeets.row_eq hmeets.next_eq] at hends
  exact any_isNewline_repair hcomment hmeets.governs (hends.hasNewline hcomment row.blank)

variable (hnodup : (layout.tokens.map Token.id).Nodup)

include hnodup

/-- Problems found where line comments end do not get in each other's way. -/
theorem harmonious_of_commentsEnd :
    Harmonious layout (detect layout.tokens checks settings) where
  nodup := layout.nodup_head_id hnodup
  repairable := fun p hp hfixable => by
    obtain ⟨v, _, row, next, _, _, _, hrep⟩ := exists_visit_of_fixable hends hp hfixable
    exact ⟨_, row, next, hrep⟩
  agree := fun p hp q hq row hrow hpm hqm => by
    obtain ⟨k, hk⟩ := List.mem_iff_getElem?.mp hrow
    obtain ⟨v, _, nextv, hv, hvmeets, hvrule, hvreject⟩ :=
      exists_visit_of_mends hnodup hp hk hpm
    obtain ⟨w, _, nextw, hw, hwmeets, hwrule, hwreject⟩ :=
      exists_visit_of_mends hnodup hq hk hqm
    rw [hvrule] at hvreject ⊢
    rw [hwrule] at hwreject ⊢
    exact (hvmeets.agree hwmeets (hw.trans hv.symm)).repair_eq hvreject hwreject

end Detected

/-- The problems of a lexed manifest do not get in each other's way. -/
theorem harmonious_detect {layout : Layout} {id : TokenId}
    (hlexes : Lexer.Lexes [] .start id layout.tokens) {checks : CheckSet} {settings : Settings} :
    Harmonious layout (detect layout.tokens checks settings) :=
  harmonious_of_commentsEnd hlexes.commentsEnd hlexes.nodup

/-! ## The result of a pass -/

/-- Rows are respaced when each is. -/
theorem respaced_of_getElem? {rows rows' : List Row} (hlen : rows'.length = rows.length)
    (h : ∀ {k : Nat} {row row' : Row}, rows[k]? = some row → rows'[k]? = some row' →
      row'.head = row.head ∧ Rewritten row.head.kind
        ((rows[k + 1]?).map fun r => r.head.kind) row.gap row'.gap) : Respaced rows rows' := by
  induction rows generalizing rows' with
  | nil =>
    obtain rfl := List.length_eq_zero_iff.mp hlen
    exact .nil
  | cons row rows ih =>
    cases rows' with
    | nil => cases hlen
    | cons row' rows' =>
      obtain ⟨hhead, hgap⟩ := @h 0 row row' rfl rfl
      rw [Nat.zero_add, List.getElem?_cons_succ, ← List.head?_eq_getElem?] at hgap
      refine .cons hhead hgap (ih (Nat.succ.inj hlen) ?_)
      intro k r r' hr hr'
      exact @h (k + 1) r r' hr hr'

namespace Progress

variable {layout : Layout} {problems : List Problem} {rows : List Row} {s : TokenStream}

/-- A pass respaces its rows. -/
theorem respaced (h : Progress layout problems rows s) (hharm : Harmonious layout problems) :
    Respaced layout.rows rows := by
  apply respaced_of_getElem? h.length_eq
  intro k row row' hrow hrow'
  have hmended := h.mended hrow hrow'
  refine ⟨hmended.head, ?_⟩
  by_cases hdone : ∃ p ∈ problems, p.Mends row
  · obtain ⟨p, hp, hmends⟩ := hdone
    obtain ⟨j, other, next, hrep⟩ := hharm.repairable p hp hmends.1
    have hjk : j = k :=
      eq_of_nodup_map hharm.nodup hrep.row_eq hrow (hrep.left.symm.trans hmends.2)
    subst hjk
    obtain rfl := Option.some.inj (hrep.row_eq.symm.trans hrow)
    rw [hrep.next_eq]
    exact .repaired hrep.governs row'.blank (hmended.repaired p hp hmends)
  · rw [hmended.untouched fun p hp hmends => hdone ⟨p, hp, hmends⟩]
    exact .same

/-- A pass keeps the content. -/
theorem map_head (h : Progress layout problems rows s) :
    rows.map Row.head = layout.rows.map Row.head := by
  apply List.ext_getElem?
  intro k
  rw [List.getElem?_map, List.getElem?_map]
  cases hrow : layout.rows[k]? with
  | none =>
    rw [List.getElem?_eq_none_iff] at hrow
    rw [List.getElem?_eq_none (h.length_eq ▸ hrow)]
  | some row =>
    obtain ⟨row', hrow', hmended⟩ := h.exists_row hrow
    rw [hrow', Option.map_some, Option.map_some, hmended.head]

end Progress

/-- A lexed manifest is where its pass starts. -/
theorem Progress.start_of_lexes {layout : Layout} {s : TokenStream}
    (htokens : s.tokens = layout.tokens) (hlexes : Lexer.Lexes [] .start 0 s.tokens)
    (hid : s.nextId = s.tokens.length) : Progress layout [] layout.rows s := by
  have hfresh : ∀ t ∈ layout.tokens, t.id < s.nextId := by
    intro t ht
    have hlt := hlexes.id_lt t (htokens ▸ ht)
    rwa [Nat.zero_add, ← hid] at hlt
  have hstart := Progress.start (htokens ▸ hlexes.nodup) hfresh
  rwa [← htokens] at hstart

/-- The pass of a linter over a lexed manifest handles every problem and refuses none. -/
theorem Linter.exists_progress (linter : Linter) {layout : Layout} {s : TokenStream}
    (htokens : s.tokens = layout.tokens) (hlexes : Lexer.Lexes [] .start 0 s.tokens)
    (hid : s.nextId = s.tokens.length) :
    (∃ rows, Progress layout (linter.detect s) rows (fixPass 0 s (linter.detect s)).1) ∧
      List.Forall₂ Problem.Settled (linter.detect s) (fixPass 0 s (linter.detect s)).2 ∧
      ∀ repair ∈ passRepairs 0 s (linter.detect s), repair.outcome.isFixed = true := by
  have hdetect : linter.detect s =
      ManifestSpacing.detect layout.tokens linter.checks linter.settings := by
    rw [Linter.detect, htokens]
  have hstart := Progress.start_of_lexes htokens hlexes hid
  rw [htokens] at hlexes
  rw [hdetect]
  refine progress_fixPass hstart ?_ ?_ 0
  · rw [List.nil_append]
    exact harmonious_detect hlexes
  · intro p hp
    exact fixed_eq_false_of_mem_detect hp

end ManifestSpacing
