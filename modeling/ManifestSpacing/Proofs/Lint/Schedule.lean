import ManifestSpacing.Proofs.Check.Distinct
import ManifestSpacing.Proofs.Lexical.Places
import ManifestSpacing.Order.StableSort

/-!
# The order in which problems are reported

The problems of a lexed manifest come in the order of the sites at which they
are found: a schedule of visits that depends on the content alone. The blanks
only decide which visits report a problem. A visit to neighbours reports one
exactly when its rule rejects the gap, and it can be repaired; a visit across
a comment always reports one that cannot.
-/

namespace ManifestSpacing

/-- A check looking at one of its sites. -/
structure Visit where
  /-- The check. -/
  check : Check
  /-- The site, by indices into the content. -/
  site : Site
  deriving DecidableEq, Repr

namespace Visit

/-- The order of visits: by the left token, then by check. -/
def precedes (v w : Visit) : Bool :=
  v.site.left < w.site.left ||
    (v.site.left == w.site.left && v.check.rank ≤ w.check.rank)

/-- The gap that a visit looks at. -/
def gap (v : Visit) (tokens : List Token) : Gap :=
  Gap.between tokens (contentPlace tokens v.site.left) (contentPlace tokens v.site.right)

/-- The problem that a visit reports. -/
def problem? (tokens : List Token) (settings : Settings) (v : Visit) : Option Problem :=
  (Outline.ofTokens tokens settings).judge v.check (v.site.move (contentPlace tokens))

theorem precedes_iff {v w : Visit} : v.precedes w = true ↔
    v.site.left < w.site.left ∨ v.site.left = w.site.left ∧ v.check.rank ≤ w.check.rank := by
  simp [precedes]

theorem precedes_trans (u v w : Visit) (huv : u.precedes v = true) (hvw : v.precedes w = true) :
    u.precedes w = true := by
  rw [precedes_iff] at *
  omega

theorem precedes_total (v w : Visit) : v.precedes w = true ∨ w.precedes v = true := by
  rw [precedes_iff, precedes_iff]
  omega

end Visit

/-- All visits of some checks to some content, check by check. -/
def visits (content : List Token) (checks : CheckSet) (settings : Settings) : List Visit :=
  checks.checks.flatMap fun check =>
    (check.sites (Outline.ofTokens content settings)).map (Visit.mk check)

/-- All visits in report order. -/
def schedule (content : List Token) (checks : CheckSet) (settings : Settings) : List Visit :=
  stableSort Visit.precedes (visits content checks settings)

/-- The schedule depends on nothing but the kinds and the texts. -/
theorem schedule_eq_of_map_face {ts us : List Token} (h : ts.map Token.face = us.map Token.face)
    (checks : CheckSet) (settings : Settings) :
    schedule ts checks settings = schedule us checks settings := by
  simp only [schedule, visits, sites_eq_of_map_face h settings]

theorem isBlank_of_mem_contentOf {tokens : List Token} {t : Token} (h : t ∈ contentOf tokens) :
    t.kind.isBlank = false := by
  simpa using (List.mem_filter.mp h).2

/-- No check visits a token twice. -/
theorem pairwise_visits (tokens : List Token) (checks : CheckSet) (settings : Settings) :
    (visits (contentOf tokens) checks settings).Pairwise fun v w =>
      v.check ≠ w.check ∨ v.site.left ≠ w.site.left := by
  refine List.pairwise_flatMap.mpr ⟨fun check _ => ?_, ?_⟩
  · rw [List.pairwise_map]
    exact (pairwise_left_sites (fun _ => isBlank_of_mem_contentOf) check).imp Or.inr
  · have hnodup : checks.checks.Nodup := checks.ordered.nodup (by decide)
    refine hnodup.imp fun {check other} hne v hv w hw => Or.inl ?_
    obtain ⟨_, _, rfl⟩ := List.mem_map.mp hv
    obtain ⟨_, _, rfl⟩ := List.mem_map.mp hw
    exact hne

/-- Every visit is to a site that fits. -/
theorem fits_of_mem_schedule {tokens : List Token} {checks : CheckSet} {settings : Settings}
    {v : Visit} (h : v ∈ schedule (contentOf tokens) checks settings) :
    v.site.Fits (contentOf tokens) settings := by
  obtain ⟨check, _, hv⟩ := List.mem_flatMap.mp (mem_stableSort.mp h)
  obtain ⟨site, hsite, rfl⟩ := List.mem_map.mp hv
  exact fits_of_mem_sites (fun _ => isBlank_of_mem_contentOf) hsite

/-! ## What a visit reports -/

namespace Problem

/-- Earlier places are reported first. -/
theorem precedes_of_before {p q : Problem} (h : p.position.Before q.position) :
    p.precedes q = true := by
  simp only [precedes, Bool.or_eq_true, Bool.and_eq_true, decide_eq_true_eq, beq_iff_eq]
  rcases h with h | ⟨h, h'⟩
  · exact Or.inl h
  · exact Or.inr ⟨h, Or.inl h'⟩

/-- Later places are not reported first. -/
theorem precedes_eq_false_of_before {p q : Problem} (h : q.position.Before p.position) :
    p.precedes q = false := by
  rw [Bool.eq_false_iff]
  intro hp
  simp only [precedes, Bool.or_eq_true, Bool.and_eq_true, decide_eq_true_eq, beq_iff_eq] at hp
  unfold Position.Before at h
  omega

/-- At one place the checks are reported in their order. -/
theorem precedes_of_eq {p q : Problem} (h : p.position = q.position) :
    p.precedes q = decide (p.check.rank ≤ q.check.rank) := by
  simp [precedes, h]

end Problem

/-- A judged site has a problem exactly when its rule rejects the gap; the problem lies right
behind the left token. -/
theorem Outline.judge_eq {tokens : List Token} {settings : Settings} {check : Check} {site : Site}
    {a b spot : Token} (hlt : site.left < site.right) (ha : tokens[site.left]? = some a)
    (hb : tokens[site.right]? = some b) (hspot : tokens[site.left + 1]? = some spot) :
    (Outline.ofTokens tokens settings).judge check site =
      if (site.demand.rule (Gap.between tokens site.left site.right)).accepts
        (Gap.between tokens site.left site.right) then none
      else some ⟨settings.severityOf check, spot.position, check, false,
        !(Gap.between tokens site.left site.right).hasComment, ⟨a.id, b.id, site.left⟩,
        site.demand.rule (Gap.between tokens site.left site.right)⟩ := by
  have hindex : (if site.left + 1 < site.right then site.left + 1 else site.right) =
      site.left + 1 := by
    split <;> omega
  simp only [judge, problem?, ofTokens, hindex, ha, hb, hspot]
  rfl

section Visits

variable {tokens : List Token} {settings : Settings} {v : Visit}

/-- What a visit to a site that fits reports. -/
theorem Visit.problem?_eq (h : v.site.Fits (contentOf tokens) settings) :
    ∃ a b spot, (contentOf tokens)[v.site.left]? = some a ∧
      (contentOf tokens)[v.site.right]? = some b ∧
      tokens[contentPlace tokens v.site.left + 1]? = some spot ∧
      v.problem? tokens settings =
        if (v.site.demand.rule (v.gap tokens)).accepts (v.gap tokens) then none
        else some ⟨settings.severityOf v.check, spot.position, v.check, false,
          !(v.gap tokens).hasComment, ⟨a.id, b.id, contentPlace tokens v.site.left⟩,
          v.site.demand.rule (v.gap tokens)⟩ := by
  obtain ⟨hlt, a, b, ha, hb⟩ := h.exists_ends
  have hmove : contentPlace tokens v.site.left < contentPlace tokens v.site.right :=
    Skeleton.strictMono_place _ hlt
  have ha' := ha
  have hb' := hb
  rw [← Outline.getElem?_contentPlace] at ha' hb'
  have hinside := (List.getElem?_eq_some_iff.mp hb').1
  have hspot : tokens[contentPlace tokens v.site.left + 1]? =
      some tokens[contentPlace tokens v.site.left + 1] := List.getElem?_eq_getElem (by omega)
  exact ⟨a, b, _, ha, hb, hspot, Outline.judge_eq hmove ha' hb' hspot⟩

/-- Whatever stands between two indices stands in the gap between them. -/
theorem Gap.mem_between {left right m : Nat} {t : Token} (ht : tokens[m]? = some t)
    (hleft : left < m) (hright : m < right) : t ∈ Gap.between tokens left right := by
  rw [Gap.between, List.mem_iff_getElem?]
  refine ⟨m - (left + 1), ?_⟩
  rw [List.getElem?_drop, show left + 1 + (m - (left + 1)) = m by omega, List.getElem?_take,
    if_pos hright, ht]

/-- A visit to tokens that are no neighbours looks across a comment. -/
theorem Visit.hasComment_gap (h : v.site.Fits (contentOf tokens) settings)
    (hfar : v.site.right ≠ v.site.left + 1) :
    v.site.demand = .word ∧ (v.gap tokens).hasComment = true := by
  unfold Visit.gap
  generalize v.site = site at h hfar
  cases h with
  | body => exact absurd rfl hfar
  | follower => exact absurd rfl hfar
  | @word k j _ _ _ _ hlt _ _ hbetween =>
    have hnext : k + 1 < j := Nat.lt_of_le_of_ne hlt (Ne.symm hfar)
    obtain ⟨t, ht, hcomment⟩ := hbetween (k + 1) (Nat.lt_succ_self k) hnext
    rw [← Outline.getElem?_contentPlace] at ht
    refine ⟨rfl, List.any_eq_true.mpr ⟨t, ?_, by simp [hcomment]⟩⟩
    apply Gap.mem_between ht
    · exact Skeleton.strictMono_place _ (Nat.lt_succ_self k)
    · exact Skeleton.strictMono_place _ hnext

/-- A visit across a comment finds its rule broken. -/
theorem Visit.accepts_of_far (h : v.site.Fits (contentOf tokens) settings)
    (hfar : v.site.right ≠ v.site.left + 1) :
    (v.site.demand.rule (v.gap tokens)).accepts (v.gap tokens) = false := by
  obtain ⟨hdemand, hcomment⟩ := Visit.hasComment_gap h hfar
  rw [hdemand, Bool.eq_false_iff]
  intro haccept
  obtain ⟨t, hgap, hkind, _⟩ := (Gap.isSingleSpace_iff _).mp haccept
  rw [hgap, Gap.hasComment, List.any_cons, List.any_nil, Bool.or_false, hkind] at hcomment
  cases hcomment

/-- A visit across a comment reports a problem that cannot be repaired. -/
theorem Visit.problem?_of_far (h : v.site.Fits (contentOf tokens) settings)
    (hfar : v.site.right ≠ v.site.left + 1) : ∃ p, v.problem? tokens settings = some p ∧
      p.fixable = false ∧ p.fixed = false ∧ p.check = v.check ∧
      p.severity = settings.severityOf v.check ∧ p.rule = .singleSpace := by
  obtain ⟨hdemand, hcomment⟩ := Visit.hasComment_gap h hfar
  obtain ⟨a, b, spot, _, _, _, heq⟩ := Visit.problem?_eq h
  rw [Visit.accepts_of_far h hfar, if_neg Bool.false_ne_true] at heq
  refine ⟨_, heq, ?_, rfl, rfl, rfl, ?_⟩
  · simp only [hcomment, Bool.not_true]
  · simp only [hdemand, Demand.rule]

end Visits

/-- The findings of some checks are those of their visits. -/
theorem flatMap_problems_eq (tokens : List Token) (checks : CheckSet) (settings : Settings) :
    (checks.checks.flatMap fun check => check.problems (Outline.ofTokens tokens settings)) =
      (visits (contentOf tokens) checks settings).filterMap (Visit.problem? tokens settings) := by
  rw [visits, List.filterMap_flatMap]
  congr 1
  funext check
  rw [problems_eq_filterMap_sites, Outline.sites_eq_map_move, List.filterMap_map,
    List.filterMap_map]
  rfl

/-- Problems are detected at sites. -/
theorem mem_detect_iff_judge {tokens : List Token} {checks : CheckSet} {settings : Settings}
    {p : Problem} : p ∈ detect tokens checks settings ↔ ∃ check ∈ checks.checks,
      ∃ site ∈ check.sites (Outline.ofTokens tokens settings),
        (Outline.ofTokens tokens settings).judge check site = some p := by
  simp only [detect, mem_stableSort, List.mem_flatMap, problems_eq_filterMap_sites,
    List.mem_filterMap]

/-- Problems are detected on visits. -/
theorem mem_detect_iff {tokens : List Token} {checks : CheckSet} {settings : Settings}
    {p : Problem} : p ∈ detect tokens checks settings ↔
      ∃ v ∈ schedule (contentOf tokens) checks settings, v.problem? tokens settings = some p := by
  rw [detect, flatMap_problems_eq, mem_stableSort, List.mem_filterMap]
  simp only [schedule, mem_stableSort]

/-- Whether the place behind a token of content lies before the place behind each later one. -/
def SpotsInOrder (tokens : List Token) : Prop :=
  ∀ (i j : Nat) (t u : Token), i < j → tokens[contentPlace tokens i + 1]? = some t →
    tokens[contentPlace tokens j + 1]? = some u → t.position.Before u.position

/-- A lexed manifest has its places in order. -/
theorem Lexer.Lexes.spotsInOrder {opens : List OpenString} {here : Position} {id : TokenId}
    {tokens : List Token} (h : Lexer.Lexes opens here id tokens) : SpotsInOrder tokens :=
  fun _ _ _ _ hij ht hu => h.before_of_lt (Nat.succ_lt_succ (Skeleton.strictMono_place _ hij)) ht hu

/-- Where places are in order the problems are reported visit by visit. -/
theorem detect_eq_filterMap_schedule {tokens : List Token} (h : SpotsInOrder tokens)
    (checks : CheckSet) (settings : Settings) : detect tokens checks settings =
      (schedule (contentOf tokens) checks settings).filterMap (Visit.problem? tokens settings) := by
  rw [detect, flatMap_problems_eq, schedule]
  apply stableSort_filterMap Visit.precedes_trans Visit.precedes_total
  -- a problem lies right behind its left token, so places order problems as visits are ordered
  intro v hv w hw p q hp hq
  obtain ⟨_, _, spot, _, _, hspot, hveq⟩ :=
    Visit.problem?_eq (fits_of_mem_schedule (mem_stableSort.mpr hv))
  obtain ⟨_, _, spot', _, _, hspot', hweq⟩ :=
    Visit.problem?_eq (fits_of_mem_schedule (mem_stableSort.mpr hw))
  rw [hp] at hveq
  rw [hq] at hweq
  split at hveq
  · cases hveq
  split at hweq
  · cases hweq
  obtain rfl := Option.some.inj hveq
  obtain rfl := Option.some.inj hweq
  rcases Nat.lt_trichotomy v.site.left w.site.left with hlt | heq | hgt
  · have hbefore := h _ _ _ _ hlt hspot hspot'
    rw [Problem.precedes_of_before hbefore]
    exact (Visit.precedes_iff.mpr (Or.inl hlt)).symm
  · rw [heq, hspot'] at hspot
    obtain rfl := Option.some.inj hspot
    refine Eq.trans (Problem.precedes_of_eq rfl) ?_
    simp [Visit.precedes, heq]
  · have hbefore := h _ _ _ _ hgt hspot' hspot
    rw [Problem.precedes_eq_false_of_before hbefore, Eq.comm, Bool.eq_false_iff]
    intro hvw
    rw [Visit.precedes_iff] at hvw
    omega

end ManifestSpacing
