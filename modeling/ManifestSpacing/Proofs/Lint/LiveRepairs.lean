import ManifestSpacing.Proofs.Lint.CommentSafety
import ManifestSpacing.Proofs.Lint.Rereading

/-!
# Repairs on live streams

Repairs leave positions stale and give fresh tokens the position at which
their gap started. Even so positions never run backwards, so problems detected
on a live stream still come visit by visit. One repair then changes what is
detected in exactly one way: the problems of its own gap are gone, and the
others keep all but their hints, which move where tokens before them did.
-/

namespace ManifestSpacing

/-! ## Stale positions -/

/-- Whether a token lies before another, or at the same place as a blank. -/
def Token.Leads (t u : Token) : Prop :=
  t.position.Before u.position ∨ t.kind.isBlank = true ∧ t.position = u.position

/-- Whether no token lies behind a later one. -/
def Located (tokens : List Token) : Prop := tokens.Pairwise Token.Leads

theorem TokenStream.position_of_mem_freshTokens {position : Position} {id : TokenId}
    {pieces : List GapPiece} {t : Token} (h : t ∈ freshTokens position id pieces) :
    t.position = position := by
  induction pieces generalizing id with
  | nil => cases h
  | cons piece pieces ih =>
    rcases List.mem_cons.mp h with rfl | h
    · rfl
    · exact ih h

namespace Token.Leads

variable {t t' u u' : Token}

theorem of_position_eq (h : t.Leads u) (hu : u'.position = u.position) : t.Leads u' := by
  rwa [Leads, hu]

/-- A blank at the place of a token leads whatever the token leads. -/
theorem of_blank (h : t.Leads u) (hblank : t'.kind.isBlank = true)
    (ht : t'.position = t.position) : t'.Leads u := by
  rw [Leads, ht]
  exact h.imp_right fun heq => ⟨hblank, heq.2⟩

end Token.Leads

namespace Located

/-- Blanks at the place where a gap started may stand in its place. -/
theorem replace {xs ys : List Token} {l r : Token} {gap gap' : Gap}
    (h : Located (xs ++ l :: (gap ++ r :: ys))) (hblank : gap'.IsBlank)
    (hplace : ∀ t ∈ gap', t.position = (gap.headD r).position) :
    Located (xs ++ l :: (gap' ++ r :: ys)) := by
  rw [List.append_cons] at h ⊢
  obtain ⟨hfront, hback, hacross⟩ := List.pairwise_append.mp h
  obtain ⟨_, hrest, _⟩ := List.pairwise_append.mp hback
  obtain ⟨spot, tail, htail, hspot⟩ :
      ∃ spot tail, gap ++ r :: ys = spot :: tail ∧ gap.headD r = spot := by
    cases gap with
    | nil => exact ⟨r, ys, rfl, rfl⟩
    | cons t gap => exact ⟨t, gap ++ r :: ys, rfl, rfl⟩
  rw [hspot] at hplace
  rw [htail] at hback hacross
  -- what follows the gap is the old spot or behind it
  have hbehind : ∀ t ∈ gap', ∀ u ∈ r :: ys, t.Leads u := by
    intro t ht u hu
    have hmem : u ∈ spot :: tail := htail ▸ List.mem_append_right gap hu
    rcases List.mem_cons.mp hmem with rfl | hmem
    · exact Or.inr ⟨hblank t ht, hplace t ht⟩
    · exact ((List.pairwise_cons.mp hback).1 u hmem).of_blank (hblank t ht) (hplace t ht)
  refine List.pairwise_append.mpr ⟨hfront, List.pairwise_append.mpr ⟨?_, hrest, hbehind⟩, ?_⟩
  · refine List.pairwise_of_forall_mem_list fun t ht u hu => Or.inr ⟨hblank t ht, ?_⟩
    rw [hplace t ht, hplace u hu]
  · intro t ht u hu
    rcases List.mem_append.mp hu with hu | hu
    · exact (hacross t ht spot List.mem_cons_self).of_position_eq (hplace u hu)
    · exact hacross t ht u (htail ▸ List.mem_append_right gap hu)

/-- Located tokens have the places behind their content in order. -/
theorem spotsInOrder {tokens : List Token} (h : Located tokens) : SpotsInOrder tokens := by
  intro i j t u hij ht hu
  obtain ⟨hi, rfl⟩ := List.getElem?_eq_some_iff.mp ht
  obtain ⟨hj, rfl⟩ := List.getElem?_eq_some_iff.mp hu
  have hlead := List.pairwise_iff_getElem.mp h
  have hsolid : tokens[contentPlace tokens j].kind.isBlank = false := by
    apply isBlank_of_mem_contentOf
    apply List.mem_of_getElem?
    rw [← Outline.getElem?_contentPlace]
    exact List.getElem?_eq_getElem (by omega)
  -- between the two spots stands the token of content before the second
  have hnext : tokens[contentPlace tokens j].position.Before
      tokens[contentPlace tokens j + 1].position := by
    refine (hlead _ _ (by omega) hj (Nat.lt_succ_self _)).resolve_right fun hblank => ?_
    exact Bool.false_ne_true (hsolid.symm.trans hblank.1)
  have hplace : contentPlace tokens i + 1 ≤ contentPlace tokens j :=
    Skeleton.strictMono_place _ hij
  rcases Nat.lt_or_eq_of_le hplace with hlt | heq
  · rcases hlead _ _ hi (by omega) hlt with hbefore | ⟨_, hsame⟩
    · exact hbefore.trans hnext
    · rwa [hsame]
  · simpa only [heq] using hnext

end Located

/-! ## Streams that repairs can lead to -/

namespace TokenStream

/-- What repairs of any problems keep true of a lexed stream. -/
structure Orderly (s : TokenStream) : Prop where
  nodup : (s.tokens.map Token.id).Nodup
  fresh : ∀ t ∈ s.tokens, t.id < s.nextId
  ends : CommentsEnd s.tokens
  located : Located s.tokens

theorem Orderly.of_lex {source : String} {s : TokenStream} (hlex : lex source = .ok s) :
    s.Orderly := by
  have hlexes := (lex_eq_ok_iff.mp hlex).1
  have hnumbered := Numbered.of_lex hlex
  exact ⟨hnumbered.nodup, hnumbered.below, hlexes.commentsEnd,
    hlexes.pairwise_before.imp Or.inl⟩

/-- A repair keeps a stream orderly. -/
theorem Orderly.fix {s : TokenStream} (h : s.Orderly) (p : Problem) : (s.fix p).stream.Orderly := by
  have hends := commentsEnd_fix h.ends p
  rcases s.fix_cases p with ⟨hsame, _⟩ | ⟨xs, l, gap, r, ys, hreplaces⟩
  · rwa [hsame]
  · have hnumbered := hreplaces.numbered ⟨h.nodup, h.fresh⟩
    refine ⟨hnumbered.nodup, hnumbered.below, hends, ?_⟩
    have hlocated := h.located
    rw [hreplaces.tokens_eq] at hlocated
    rw [hreplaces.fix_eq]
    exact hlocated.replace (isBlank_freshTokens _ _ _) fun t => position_of_mem_freshTokens

end TokenStream

/-! ## One gap refilled -/

theorem Row.length_gap_le {rows : List Row} {row : Row} (hrow : row ∈ rows) :
    row.gap.length ≤ (join rows).length := by
  obtain ⟨xs, ys, rfl⟩ := List.append_of_mem hrow
  simp only [join_append, join_cons, List.length_append, List.length_cons]
  omega

theorem Row.length_join_set {rows : List Row} {k : Nat} {row : Row} (hrow : rows[k]? = some row)
    (row' : Row) : (join (rows.set k row')).length + row.gap.length =
      (join rows).length + row'.gap.length := by
  obtain ⟨hk, rfl⟩ := List.getElem?_eq_some_iff.mp hrow
  conv_rhs => rw [← List.take_append_drop k rows, List.drop_eq_getElem_cons hk]
  rw [List.set_eq_take_append_cons_drop, if_pos hk]
  simp only [join_append, join_cons, List.length_append, List.length_cons]
  omega

namespace Layout

/-- The layout with one row replaced. -/
def setRow (layout : Layout) (k : Nat) (row : Row) : Layout :=
  ⟨layout.lead, layout.rows.set k row, layout.blank⟩

variable {layout : Layout} {k : Nat} {row row' : Row} (hrow : layout.rows[k]? = some row)

include hrow

theorem contentOf_setRow (hhead : row'.head = row.head) :
    contentOf (layout.setRow k row').tokens = contentOf layout.tokens := by
  obtain ⟨hk, rfl⟩ := List.getElem?_eq_some_iff.mp hrow
  rw [contentOf_tokens, contentOf_tokens, setRow, List.map_set, hhead,
    ← List.getElem_map Row.head (h := by rwa [List.length_map]), List.set_getElem_self]

/-- A gap stands before the tokens of content behind it. -/
theorem length_gap_le_contentPlace {j : Nat} (hj : j < layout.rows.length)
    (hlt : contentPlace layout.tokens k < contentPlace layout.tokens j) :
    row.gap.length ≤ contentPlace layout.tokens j := by
  have hkj : k < j := (Skeleton.strictMono_place _).lt_iff_lt.mp hlt
  have htake : (layout.rows.take j)[k]? = some row := by rw [List.getElem?_take, if_pos hkj, hrow]
  rw [contentPlace_eq hj, List.length_append]
  exact Nat.le_add_left_of_le (Row.length_gap_le (List.mem_of_getElem? htake))

/-- Tokens move behind a gap whose length changes, and only there. -/
theorem contentPlace_setRow (row' : Row) {j : Nat} (hj : j < layout.rows.length) :
    contentPlace (layout.setRow k row').tokens j =
      if contentPlace layout.tokens k < contentPlace layout.tokens j then
        contentPlace layout.tokens j + row'.gap.length - row.gap.length
      else contentPlace layout.tokens j := by
  have hset : j < (layout.setRow k row').rows.length := by simpa [setRow] using hj
  have hiff : contentPlace layout.tokens k < contentPlace layout.tokens j ↔ k < j :=
    (Skeleton.strictMono_place _).lt_iff_lt
  simp only [hiff]
  rw [contentPlace_eq hset, contentPlace_eq hj]
  simp only [setRow, List.length_append]
  split
  · rename_i hlt
    have htake : (layout.rows.take j)[k]? = some row := by rw [List.getElem?_take, if_pos hlt, hrow]
    have hlength := Row.length_join_set htake row'
    rw [List.take_set]
    omega
  · rename_i hle
    rw [List.take_set_of_le (Nat.le_of_not_lt hle)]

end Layout

/-- A visit whose own row has the same gap reports the same, but for the index of its left token. -/
theorem Visit.problem?_of_same_gap {layout layout' : Layout} {settings : Settings} {v : Visit}
    (hcontent : contentOf layout'.tokens = contentOf layout.tokens)
    (hgap : layout'.rows[v.site.left]? = layout.rows[v.site.left]?)
    (hfits : v.site.Fits (contentOf layout.tokens) settings) :
    v.problem? layout'.tokens settings = (v.problem? layout.tokens settings).map fun p =>
      p.hinted (contentPlace layout'.tokens v.site.left) := by
  obtain ⟨row, next, last, hrow, hnext, hlast, heq⟩ := Visit.problem?_eq_of_rows hfits
  obtain ⟨row', next', last', hrow', hnext', hlast', heq'⟩ :=
    Visit.problem?_eq_of_rows (hcontent ▸ hfits)
  have hhead {i : Nat} {row row' : Row} (hrow : layout.rows[i]? = some row)
      (hrow' : layout'.rows[i]? = some row') : row'.head = row.head := by
    have hget := congrArg (fun content => content[i]?) hcontent
    simp only [Layout.getElem?_content, hrow, hrow', Option.map_some, Option.some.injEq] at hget
    exact hget
  rw [hgap, hrow] at hrow'
  obtain rfl := Option.some.inj hrow'
  rw [heq, heq', hhead hlast hlast', hhead hnext hnext']
  split <;> rfl

/-! ## What one repair does to the problems -/

section Refilled

variable {layout : Layout} {settings : Settings} {v w : Visit} {row next : Row}
  (hv : v.Meets layout settings row next) (hw : w.site.Fits (contentOf layout.tokens) settings)

include hv hw

/-- Once the gap of a visit holds its repair, no visit to the gap reports anything. -/
theorem Visit.Meets.problem?_of_repair (hleft : w.site.left = v.site.left) {row' : Row}
    (hhead : row'.head = row.head)
    (hpieces : row'.gap.pieces = (v.site.demand.rule row.gap).repair row.gap) :
    w.problem? (layout.setRow v.site.left row').tokens settings = none := by
  have hnear := hv.fits.right_eq hw hleft
  rw [← hleft] at hnear
  have hw' : w.site.Fits (contentOf (layout.setRow v.site.left row').tokens) settings := by
    rwa [Layout.contentOf_setRow hv.row_eq hhead]
  obtain ⟨other, _, hmeets⟩ := Visit.exists_meets hw' hnear
  have hother : (layout.rows.set v.site.left row')[w.site.left]? = some other := hmeets.row_eq
  rw [hleft, List.getElem?_set_self (List.getElem?_eq_some_iff.mp hv.row_eq).1] at hother
  obtain rfl := Option.some.inj hother
  have hfits := hmeets.fits
  rw [Layout.contentOf_setRow hv.row_eq hhead, hleft] at hfits
  obtain ⟨position, hreport⟩ := hmeets.reports
  rw [hreport, if_pos]
  exact (hfits.agree hv.fits).accepts_of_repair row'.blank hpieces

/-- The problems of a gap are those with its anchors. -/
theorem Visit.Meets.anchors_eq_iff (hnodup : (layout.tokens.map Token.id).Nodup) {q : Problem}
    (hq : w.problem? layout.tokens settings = some q) :
    ((q.anchors.left, q.anchors.right) = (row.head.id, next.head.id) ↔
      w.site.left = v.site.left) ∧
        q.anchors.hint = contentPlace layout.tokens w.site.left := by
  obtain ⟨row', next', last', hrow', _, hlast', hreport⟩ := Visit.problem?_eq_of_rows hw
  rw [hq] at hreport
  split at hreport
  · cases hreport
  obtain rfl := Option.some.inj hreport
  refine ⟨⟨fun hsame => ?_, fun hleft => ?_⟩, rfl⟩
  · exact eq_of_nodup_map (layout.nodup_head_id hnodup) hrow' hv.row_eq (Prod.mk.inj hsame).1
  · rw [hv.fits.right_eq hw hleft, hv.next_eq] at hlast'
    rw [hleft, hv.row_eq] at hrow'
    obtain rfl := Option.some.inj hrow'
    obtain rfl := Option.some.inj hlast'
    rfl

end Refilled

/-- Once the gap of a visit holds its repair, the problems of the gap are gone, and those behind it
have their hints moved. -/
theorem detect_setRow {layout : Layout} {checks : CheckSet} {settings : Settings} {v : Visit}
    {row next row' : Row} (hv : v.Meets layout settings row next) (hhead : row'.head = row.head)
    (hpieces : row'.gap.pieces = (v.site.demand.rule row.gap).repair row.gap)
    (hnodup : (layout.tokens.map Token.id).Nodup) (hspots : SpotsInOrder layout.tokens)
    (hspots' : SpotsInOrder (layout.setRow v.site.left row').tokens) :
    detect (layout.setRow v.site.left row').tokens checks settings =
      ((detect layout.tokens checks settings).filter fun q =>
          (q.anchors.left, q.anchors.right) != (row.head.id, next.head.id)).map fun q =>
        if contentPlace layout.tokens v.site.left < q.anchors.hint then
          q.hinted (q.anchors.hint + row'.gap.length - row.gap.length)
        else q := by
  have hcontent := Layout.contentOf_setRow hv.row_eq hhead
  rw [detect_eq_filterMap_schedule hspots', detect_eq_filterMap_schedule hspots, hcontent,
    List.filter_filterMap, List.map_filterMap]
  apply List.filterMap_congr
  intro w hw
  have hfits := fits_of_mem_schedule hw
  by_cases hleft : w.site.left = v.site.left
  · rw [hv.problem?_of_repair hfits hleft hhead hpieces]
    cases hq : w.problem? layout.tokens settings with
    | none => rfl
    | some q =>
      have hsame := ((hv.anchors_eq_iff hfits hnodup hq).1).mpr hleft
      rw [Option.filter_some, if_neg (by simp [hsame]), Option.map_none]
  · have hgap : (layout.setRow v.site.left row').rows[w.site.left]? =
        layout.rows[w.site.left]? := List.getElem?_set_ne (Ne.symm hleft)
    rw [Visit.problem?_of_same_gap hcontent hgap hfits]
    cases hq : w.problem? layout.tokens settings with
    | none => rfl
    | some q =>
      obtain ⟨hsame, hhint⟩ := hv.anchors_eq_iff hfits hnodup hq
      have hkeep := mt hsame.mp hleft
      rw [Option.filter_some, if_pos (by simpa using hkeep), Option.map_some, Option.map_some,
        Layout.contentPlace_setRow hv.row_eq row' hfits.left_lt_length, ← hhint]
      split <;> rfl

/-- A repair of a problem that is detected on an orderly stream refills the row of its visit. -/
theorem TokenStream.Orderly.exists_refill {t : TokenStream} (h : t.Orderly) {layout : Layout}
    (htokens : t.tokens = layout.tokens) {checks : CheckSet} {settings : Settings} {p : Problem}
    (hp : p ∈ detect layout.tokens checks settings) (hfixable : p.fixable = true) :
    ∃ (v : Visit) (row next row' : Row), v.Meets layout settings row next ∧
      p.anchors = ⟨row.head.id, next.head.id, contentPlace layout.tokens v.site.left⟩ ∧
      row'.head = row.head ∧
      row'.gap.pieces = (v.site.demand.rule row.gap).repair row.gap ∧
      (t.fix p).outcome = .fixed row.gap.length row'.gap.length ∧
      (t.fix p).stream.tokens = (layout.setRow v.site.left row').tokens := by
  have hends := h.ends
  rw [htokens] at hends
  obtain ⟨v, _, row, next, hmeets, hrule, hhint, hrep⟩ := exists_visit_of_fixable hends hp hfixable
  obtain ⟨hfix, _, _⟩ := fix_eq_of_row htokens h.nodup h.fresh hrep.row_eq hrep.next_eq
    hrep.left hrep.right hrep.rejects hrep.line
  have hpieces := row.pieces_refill next.head t.nextId (p.rule.repair row.gap)
  refine ⟨v, row, next, row.refill next.head t.nextId (p.rule.repair row.gap), hmeets, ?_, rfl,
    hrule ▸ hpieces, ?_, ?_⟩
  · rw [← hrep.left, ← hrep.right, ← hhint]
  · rw [hfix]
    conv_lhs => rw [← hpieces, Gap.pieces, List.length_map]
  · rw [hfix]
    rfl

namespace Linter

/-- A repair of a problem that is detected on an orderly stream succeeds. It takes the problems of
its gap away and moves the hints of those behind it. -/
theorem detect_fix (linter : Linter) {t : TokenStream} (h : t.Orderly) {p : Problem}
    (hp : p ∈ linter.detect t) (hfixable : p.fixable = true) :
    ∃ removed inserted, (t.fix p).outcome = .fixed removed inserted ∧
      linter.detect (t.fix p).stream = ((linter.detect t).filter fun q =>
          (q.anchors.left, q.anchors.right) != (p.anchors.left, p.anchors.right)).map (fun q =>
        if p.anchors.hint < q.anchors.hint then q.hinted (q.anchors.hint + inserted - removed)
        else q) ∧
      ∀ q ∈ linter.detect t, p.anchors.hint < q.anchors.hint → removed ≤ q.anchors.hint := by
  obtain ⟨layout, htokens⟩ : ∃ layout : Layout, t.tokens = layout.tokens :=
    ⟨_, (Layout.tokens_ofTokens t.tokens).symm⟩
  have hnodup := h.nodup
  have hspots := h.located.spotsInOrder
  have hspots' := (h.fix p).located.spotsInOrder
  have hdetect : linter.detect t =
      ManifestSpacing.detect layout.tokens linter.checks linter.settings := by
    rw [detect, htokens]
  rw [htokens] at hnodup hspots
  rw [hdetect] at hp ⊢
  obtain ⟨v, row, next, row', hmeets, hanchors, hhead, hpieces, houtcome, hstream⟩ :=
    h.exists_refill htokens hp hfixable
  rw [hstream] at hspots'
  refine ⟨_, _, houtcome, ?_, ?_⟩
  · rw [detect, hstream, hanchors]
    exact detect_setRow hmeets hhead hpieces hnodup hspots hspots'
  · intro q hq hlt
    obtain ⟨w, hw, hwq⟩ := mem_detect_iff.mp hq
    have hfits := fits_of_mem_schedule hw
    rw [(hmeets.anchors_eq_iff hfits hnodup hwq).2] at hlt ⊢
    rw [hanchors] at hlt
    exact Layout.length_gap_le_contentPlace hmeets.row_eq hfits.left_lt_length hlt

/-- Streams that some number of repairs lead to, each of a problem detected right before it. -/
inductive Repairs (linter : Linter) (s : TokenStream) : Nat → TokenStream → Prop where
  | start : Repairs linter s 0 s
  | step {n : Nat} {t : TokenStream} {p : Problem} (h : Repairs linter s n t)
      (hp : p ∈ linter.detect t) (hfixable : p.fixable = true) :
      Repairs linter s (n + 1) (t.fix p).stream

namespace Repairs

variable {linter : Linter} {s t : TokenStream} {n : Nat}

/-- Repairs keep a stream orderly. -/
theorem orderly (h : linter.Repairs s n t) (hs : s.Orderly) : t.Orderly := by
  induction h with
  | start => exact hs
  | step _ _ _ ih => exact ih.fix _

/-- Every repair leaves fewer problems. -/
theorem length_detect_le (h : linter.Repairs s n t) (hs : s.Orderly) :
    n + (linter.detect t).length ≤ (linter.detect s).length := by
  induction h with
  | start => rw [Nat.zero_add]
  | @step n t p h hp hfixable ih =>
    obtain ⟨removed, inserted, _, hdetect, _⟩ := linter.detect_fix (h.orderly hs) hp hfixable
    have hfewer : ((linter.detect t).filter fun q =>
        (q.anchors.left, q.anchors.right) != (p.anchors.left, p.anchors.right)).length <
          (linter.detect t).length :=
      List.length_filter_lt_length_iff_exists.mpr ⟨p, hp, by simp⟩
    rw [hdetect, List.length_map]
    omega

end Repairs

/-- However a lexed manifest has been repaired so far, a further repair of a problem that can be
repaired replaces its gap, and detection then finds what it found before without the problems of
that gap: in the same order and alike in all but the hints behind the gap, which move by as many
tokens as it gained. No repair brings a new problem, so repairs come to an end. -/
theorem fix_removes_problems_of_gap (linter : Linter) {source : String} {s : TokenStream}
    (hlex : lex source = .ok s) {n : Nat} {t : TokenStream} (hrepairs : linter.Repairs s n t) :
    n + (linter.detect t).length ≤ (linter.detect s).length ∧
      ∀ p ∈ linter.detect t, p.fixable = true → ∃ removed inserted,
        (t.fix p).outcome = .fixed removed inserted ∧
        linter.detect (t.fix p).stream = ((linter.detect t).filter fun q =>
            (q.anchors.left, q.anchors.right) != (p.anchors.left, p.anchors.right)).map (fun q =>
          if p.anchors.hint < q.anchors.hint then q.hinted (q.anchors.hint + inserted - removed)
          else q) ∧
        ∀ q ∈ linter.detect t, p.anchors.hint < q.anchors.hint → removed ≤ q.anchors.hint := by
  have hs := TokenStream.Orderly.of_lex hlex
  exact ⟨hrepairs.length_detect_le hs, fun p hp hfixable =>
    linter.detect_fix (hrepairs.orderly hs) hp hfixable⟩

/-- The gap between the braces is repaired before the one in front of it, so that a stale position
and a moved hint remain. -/
theorem fix_removes_problems_of_gap_out_of_order :
    ∃ s t p, lex "\x7b\t\x7d\x7ba\x7d" = .ok s ∧ standard.Repairs s 1 t ∧
      p ∈ standard.detect t ∧ p.fixable = true ∧
      1 + (standard.detect t).length ≤ (standard.detect s).length ∧ ∃ removed inserted,
        (t.fix p).outcome = .fixed removed inserted ∧
        standard.detect (t.fix p).stream = ((standard.detect t).filter fun q =>
            (q.anchors.left, q.anchors.right) != (p.anchors.left, p.anchors.right)).map (fun q =>
          if p.anchors.hint < q.anchors.hint then q.hinted (q.anchors.hint + inserted - removed)
          else q) ∧
        ∀ q ∈ standard.detect t, p.anchors.hint < q.anchors.hint → removed ≤ q.anchors.hint := by
  obtain ⟨s, hlex, hfirst, hp⟩ : ∃ s, lex "\x7b\t\x7d\x7ba\x7d" = .ok s ∧
      (standard.detect s)[1]? =
        some ⟨.error, ⟨1, 4⟩, .closingBraceAfter, false, true, ⟨2, 3, 2⟩, .after .loose⟩ ∧
      (standard.detect (s.fix ⟨.error, ⟨1, 4⟩, .closingBraceAfter, false, true, ⟨2, 3, 2⟩,
        .after .loose⟩).stream)[0]? = some ⟨.error, ⟨1, 2⟩, .closingBraceBefore, false, true,
          ⟨0, 2, 0⟩, .before .emptyPair⟩ :=
    ⟨⟨[⟨0, .openBrace, "\x7b", ⟨1, 1⟩⟩, ⟨1, .whitespace, "\t", ⟨1, 2⟩⟩,
      ⟨2, .closeBrace, "\x7d", ⟨1, 3⟩⟩, ⟨3, .openBrace, "\x7b", ⟨1, 4⟩⟩, ⟨4, .name, "a", ⟨1, 5⟩⟩,
      ⟨5, .closeBrace, "\x7d", ⟨1, 6⟩⟩], 6⟩, by cbv, by cbv, by cbv⟩
  have hrepairs := Repairs.step .start (List.mem_of_getElem? hfirst) rfl
  obtain ⟨hlength, hfix⟩ := fix_removes_problems_of_gap standard hlex hrepairs
  exact ⟨s, _, _, hlex, hrepairs, List.mem_of_getElem? hp, rfl, hlength,
    hfix _ (List.mem_of_getElem? hp) rfl⟩

end Linter

end ManifestSpacing
