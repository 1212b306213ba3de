import ManifestSpacing.Proofs.Lint.LiveRepairs

/-!
# The rows of problems in report order

Problems of a lexed manifest are reported row by row. Two of them can share a
row only between two closing braces, where both checks reject what stands
there. It is then one stretch of whitespace, and both put one space in its
place: the repair of a shared gap moves no other token.
-/

namespace ManifestSpacing

/-! ## The schedule -/

/-- The order of checks tells them apart. -/
theorem Check.rank_injective {check other : Check} (h : check.rank = other.rank) :
    check = other := by
  cases check <;> cases other <;> first | rfl | cases h

/-- Visits come in strict order, by their rows and for one row by their checks. -/
theorem pairwise_rank_schedule (tokens : List Token) (checks : CheckSet) (settings : Settings) :
    (schedule (contentOf tokens) checks settings).Pairwise fun v w =>
      v.site.left < w.site.left ∨
        v.site.left = w.site.left ∧ v.check.rank < w.check.rank := by
  have hsorted := pairwise_stableSort Visit.precedes_trans Visit.precedes_total
    (visits (contentOf tokens) checks settings)
  have hdistinct := pairwise_visits tokens checks settings
  rw [← (stableSort_perm Visit.precedes _).pairwise_iff
    fun hne => hne.imp Ne.symm Ne.symm] at hdistinct
  refine (hsorted.and hdistinct).imp fun {v w} ⟨hprecedes, hne⟩ => ?_
  rcases Visit.precedes_iff.mp hprecedes with hlt | ⟨heq, hle⟩
  · exact Or.inl hlt
  · refine Or.inr ⟨heq, Nat.lt_of_le_of_ne hle fun hrank => ?_⟩
    exact hne.elim (fun h => h (Check.rank_injective hrank)) fun h => h heq

/-- What the check of a visit asks for there. -/
theorem asks_of_mem_schedule {tokens : List Token} {checks : CheckSet} {settings : Settings}
    {v : Visit} (h : v ∈ schedule (contentOf tokens) checks settings) :
    ∃ a, (contentOf tokens)[v.site.left]? = some a ∧ v.check.Asks a.kind v.site.demand := by
  obtain ⟨check, _, hv⟩ := List.mem_flatMap.mp (mem_stableSort.mp h)
  obtain ⟨site, hsite, rfl⟩ := List.mem_map.mp hv
  exact asks_of_mem_sites (fun _ => isBlank_of_mem_contentOf) hsite

/-- Different checks make different demands behind one token. -/
theorem demand_ne_of_rank_lt {tokens : List Token} {checks : CheckSet} {settings : Settings}
    {v w : Visit} (hv : v ∈ schedule (contentOf tokens) checks settings)
    (hw : w ∈ schedule (contentOf tokens) checks settings) (hleft : v.site.left = w.site.left)
    (hrank : v.check.rank < w.check.rank) : v.site.demand ≠ w.site.demand := by
  intro hdemand
  obtain ⟨a, ha, hasksv⟩ := asks_of_mem_schedule hv
  obtain ⟨b, hb, hasksw⟩ := asks_of_mem_schedule hw
  rw [hleft] at ha
  obtain rfl := Option.some.inj (ha.symm.trans hb)
  have hsame : v.check = w.check := (hdemand ▸ hasksv).check_eq hasksw
  rw [hsame] at hrank
  exact absurd hrank (Nat.lt_irrefl _)

/-- Visits come in the order of their rows, and those to one row make different demands. -/
theorem pairwise_schedule (tokens : List Token) (checks : CheckSet) (settings : Settings) :
    (schedule (contentOf tokens) checks settings).Pairwise fun v w =>
      v.site.left ≤ w.site.left ∧
        (v.site.left = w.site.left → v.site.demand ≠ w.site.demand) := by
  refine (pairwise_rank_schedule tokens checks settings).imp_of_mem ?_
  rintro v w hv hw (hlt | ⟨heq, hrank⟩)
  · exact ⟨Nat.le_of_lt hlt, fun heq => absurd heq (Nat.ne_of_lt hlt)⟩
  · exact ⟨Nat.le_of_eq heq, fun _ => demand_ne_of_rank_lt hv hw heq hrank⟩

/-! ## Shared gaps -/

/-- Blanks without a line end are read as one token. -/
theorem Lexer.Readable.length_eq_one {gap : Gap} (h : Readable gap.pieces)
    (hline : gap.hasNewline = false) (hne : gap ≠ []) : gap.length = 1 := by
  rw [Gap.hasNewline_eq, List.any_eq_false] at hline
  have hapart := h.apart
  cases gap with
  | nil => exact absurd rfl hne
  | cons t gap =>
    cases gap with
    | nil => rfl
    | cons u gap =>
      rcases (List.isChain_cons.mp hapart).1 _ rfl with hnewline | hnewline
      · exact absurd hnewline (hline _ (by simp [Gap.pieces]))
      · exact absurd hnewline (hline _ (by simp [Gap.pieces]))

/-- Demands that differ and reject one gap put as many tokens into it as it has. -/
theorem Demand.Agree.length_repair {demand other : Demand} (h : Demand.Agree demand other)
    (hne : demand ≠ other) {gap : Gap} (hread : Lexer.Readable gap.pieces)
    (hdemand : (demand.rule gap).accepts gap = false)
    (hother : (other.rule gap).accepts gap = false) :
    ((demand.rule gap).repair gap).length = gap.length := by
  have hone : (Demand.rule (.follower .nested) gap).accepts gap = false → gap.length = 1 := by
    intro hnested
    simp only [Demand.rule, GapRule.accepts, Bool.or_eq_false_iff] at hnested
    exact hread.length_eq_one hnested.1.1 (by simpa using hnested.1.2)
  cases h with
  | same => exact absurd rfl hne
  | bodyNested =>
    rw [Demand.Agree.bodyNested.repair_eq hdemand hother, hone hother]
    rfl
  | nestedBody =>
    rw [hone hdemand]
    rfl

/-! ## Problems in turn -/

/-- Whether a problem mends a row before that of another, or the same row by as many tokens as
were there. -/
def Problem.InTurn (layout : Layout) (p q : Problem) : Prop :=
  ∀ (j k : Nat) (row row' : Row), layout.rows[j]? = some row → layout.rows[k]? = some row' →
    p.Mends row → q.Mends row' →
      j ≤ k ∧ (j = k → (p.rule.repair row.gap).length = row.gap.length)

/-- The problems of a lexed manifest are reported in turn. -/
theorem pairwise_inTurn {layout : Layout} {id : TokenId}
    (hlexes : Lexer.Lexes [] .start id layout.tokens) (checks : CheckSet) (settings : Settings) :
    (detect layout.tokens checks settings).Pairwise (Problem.InTurn layout) := by
  obtain ⟨_, _, _, hrows⟩ := hlexes.readable layout.blank
  rw [detect_eq_filterMap_schedule hlexes.spotsInOrder, List.pairwise_filterMap]
  refine (pairwise_schedule layout.tokens checks settings).imp_of_mem ?_
  rintro v w hv hw ⟨hle, hne⟩ p hp q hq j k row row' hrow hrow' hpmends hqmends
  obtain ⟨hvsite, hvrule, hvrejects⟩ :=
    Visit.site_eq_of_mends (fits_of_mem_schedule hv) hlexes.nodup hp hrow hpmends
  obtain ⟨hwsite, hwrule, hwrejects⟩ :=
    Visit.site_eq_of_mends (fits_of_mem_schedule hw) hlexes.nodup hq hrow' hqmends
  rw [hvsite, hwsite] at hle hne
  refine ⟨hle, fun hjk => ?_⟩
  subst hjk
  obtain rfl := Option.some.inj (hrow.symm.trans hrow')
  have hvfits := fits_of_mem_schedule hv
  have hwfits := fits_of_mem_schedule hw
  rw [hvsite] at hvfits
  rw [hwsite] at hwfits
  rw [hvrule] at hvrejects ⊢
  rw [hwrule] at hwrejects
  exact (hvfits.agree hwfits).length_repair (hne rfl)
    (hrows.tidy row (List.mem_of_getElem? hrow)).2 hvrejects hwrejects

end ManifestSpacing
