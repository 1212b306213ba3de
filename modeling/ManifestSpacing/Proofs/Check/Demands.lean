import ManifestSpacing.Proofs.Check.Sites

/-!
# What sites demand together

A site is one of three things: a closing brace with the token before it, a
closing brace with the token behind it, or a name of an inheritance with
nothing but comments in between. Two demands on one gap are the same or are
those of two closing braces in a row. Then neither undoes the other: they put
the same pieces into a gap that both reject, and each accepts what the other
puts there.
-/

namespace ManifestSpacing

/-- The sites depend on nothing but the kinds and the texts. -/
theorem sites_eq_of_map_face {ts us : List Token} (h : ts.map Token.face = us.map Token.face)
    (settings : Settings) (check : Check) :
    check.sites (Outline.ofTokens ts settings) = check.sites (Outline.ofTokens us settings) := by
  have hkinds : us.map Token.kind = ts.map Token.kind := by
    have hh := congrArg (List.map Prod.fst) h
    rw [List.map_map, List.map_map] at hh
    exact hh.symm
  have houtline : Outline.ofTokens us settings =
      { Outline.ofTokens ts settings with tokens := us } := by
    simp only [Outline.ofTokens, hkinds]
  have hclass (i : Nat) : (ts[i]?).map (FollowerClass.classify settings.tight) =
      (us[i]?).map (FollowerClass.classify settings.tight) := by
    have hfactor : FollowerClass.classify settings.tight =
        (fun face : TokenKind × String =>
          FollowerClass.classify settings.tight ⟨0, face.1, face.2, .start⟩) ∘ Token.face := rfl
    have hget : (ts[i]?).map Token.face = (us[i]?).map Token.face := by
      rw [← List.getElem?_map, ← List.getElem?_map, h]
    rw [hfactor, ← Option.map_map, ← Option.map_map, hget]
  rw [houtline]
  cases check with
  | inheritsNameBefore => rfl
  | inheritsNameAfter => rfl
  | closingBraceBefore => rfl
  | closingBraceAfter =>
    simp only [Check.sites]
    congr 1
    funext brace
    cases hnext : Neighbors.nextContent? (Outline.ofTokens ts settings).kinds brace with
    | none => rfl
    | some next =>
      have hh := congrArg (Option.map fun c => (⟨brace, next, .follower c⟩ : Site)) (hclass next)
      rw [Option.map_map, Option.map_map] at hh
      exact hh

/-! ## What a site can be -/

/-- What the sites of some content can be. -/
inductive Site.Fits (content : List Token) (settings : Settings) : Site → Prop where
  /-- A closing brace with the token before it. -/
  | body {k : Nat} {a b : Token} (ha : content[k]? = some a) (hb : content[k + 1]? = some b)
      (hclose : b.kind = .closeBrace) :
      Fits content settings ⟨k, k + 1, .body (a.kind == .openBrace &&
        (Pairing.ofKinds (content.map Token.kind)).partner? (k + 1) == some k)⟩
  /-- A closing brace with the token behind it. -/
  | follower {k : Nat} {a b : Token} (ha : content[k]? = some a) (hb : content[k + 1]? = some b)
      (hclose : a.kind = .closeBrace) :
      Fits content settings ⟨k, k + 1, .follower (FollowerClass.classify settings.tight b)⟩
  /-- A keyword and a name, or a name and a brace, with comments in between. -/
  | word {k j : Nat} {a b : Token} (ha : content[k]? = some a) (hb : content[j]? = some b)
      (hlt : k < j) (hleft : a.kind = .inheritsWord ∨ a.kind = .name ∨ a.kind = .classRef)
      (hright : b.kind = .name ∨ b.kind = .classRef ∨ b.kind = .openBrace)
      (hbetween : ∀ m, k < m → m < j → ∃ t, content[m]? = some t ∧ t.kind = .comment) :
      Fits content settings ⟨k, j, .word⟩

section Fits

variable {content : List Token} {settings : Settings}

/-- A site that fits lies between two tokens of content, in their order. -/
theorem Site.Fits.exists_ends {site : Site} (h : site.Fits content settings) :
    site.left < site.right ∧
      ∃ a b, content[site.left]? = some a ∧ content[site.right]? = some b := by
  cases h with
  | body ha hb _ => exact ⟨Nat.lt_succ_self _, _, _, ha, hb⟩
  | follower ha hb _ => exact ⟨Nat.lt_succ_self _, _, _, ha, hb⟩
  | word ha hb hlt _ _ _ => exact ⟨hlt, _, _, ha, hb⟩

/-- A kind at an index is that of a token. -/
theorem kind_eq_some {i : Nat} {kind : TokenKind}
    (h : (content.map Token.kind)[i]? = some kind) : ∃ t, content[i]? = some t ∧ t.kind = kind := by
  rw [List.getElem?_map] at h
  exact Option.map_eq_some_iff.mp h

private theorem getElem?_of_any {test : TokenKind → Bool} {i : Nat}
    (h : ((content.map Token.kind)[i]?).any test = true) :
    ∃ t, content[i]? = some t ∧ test t.kind = true := by
  obtain ⟨kind, hkind, hyes⟩ := (Option.any_eq_true _ _).mp h
  obtain ⟨t, ht, rfl⟩ := kind_eq_some hkind
  exact ⟨t, ht, hyes⟩

variable (hsolid : ∀ t ∈ content, t.kind.isBlank = false)

include hsolid

private theorem nextCode?_eq_some {i j : Nat}
    (h : Neighbors.nextCode? (content.map Token.kind) i = some j) :
    i < j ∧ ∀ m, i < m → m < j → ∃ t, content[m]? = some t ∧ t.kind = .comment := by
  have hlt := (Neighbors.after?_bounds h).2
  obtain ⟨hij, _, hbetween⟩ := Neighbors.after?_eq_some h
  refine ⟨hij, fun m him hmj => ?_⟩
  rw [List.length_map] at hlt
  have hget : content[m]? = some content[m] := List.getElem?_eq_getElem (by omega)
  refine ⟨content[m], hget, ?_⟩
  have htrivia := hbetween m him hmj
  rw [List.getElem?_map, hget] at htrivia
  simp only [Option.map_some, Option.any_some, Bool.not_eq_eq_eq_not, Bool.not_false,
    TokenKind.isTrivia, hsolid content[m] (List.getElem_mem _), Bool.false_or,
    beq_iff_eq] at htrivia
  exact htrivia

/-- The content before a token of content is its neighbour. -/
theorem prevContent?_eq_some {i j : Nat} (hi : i < content.length)
    (h : Neighbors.prevContent? (content.map Token.kind) i = some j) : i = j + 1 := by
  obtain ⟨hji, _, hbetween⟩ := Neighbors.before?_eq_some h
  by_contra hne
  have hget : content[j + 1]? = some content[j + 1] := List.getElem?_eq_getElem (by omega)
  have hblank := hbetween (j + 1) (by omega) (by omega)
  rw [List.getElem?_map, hget, Option.map_some, Option.any_some,
    hsolid content[j + 1] (List.getElem_mem _)] at hblank
  cases hblank

private theorem nextContent?_eq_some {i j : Nat}
    (h : Neighbors.nextContent? (content.map Token.kind) i = some j) : j = i + 1 := by
  have hlt := (Neighbors.after?_bounds h).2
  obtain ⟨hij, _, hbetween⟩ := Neighbors.after?_eq_some h
  rw [List.length_map] at hlt
  by_contra hne
  have hget : content[i + 1]? = some content[i + 1] := List.getElem?_eq_getElem (by omega)
  have hblank := hbetween (i + 1) (by omega) (by omega)
  rw [List.getElem?_map, hget, Option.map_some, Option.any_some,
    hsolid content[i + 1] (List.getElem_mem _)] at hblank
  cases hblank

/-- The name that a keyword inherits from stands behind it, with nothing but comments between. -/
theorem parent?_eq_some {i j : Nat}
    (h : InheritedName.parent? (Outline.ofTokens content settings) i = some j) :
    i < j ∧ (∀ m, i < m → m < j → ∃ t, content[m]? = some t ∧ t.kind = .comment) ∧
      ∃ t, content[j]? = some t ∧ (t.kind = .name ∨ t.kind = .classRef) := by
  unfold InheritedName.parent? at h
  split at h
  · cases h
  · rename_i name hnext
    split at h
    · rename_i hkind
      cases h
      obtain ⟨hlt, hbetween⟩ := nextCode?_eq_some hsolid hnext
      refine ⟨hlt, hbetween, ?_⟩
      rcases hkind with hkind | hkind
      · obtain ⟨t, ht, htk⟩ := kind_eq_some hkind
        exact ⟨t, ht, Or.inl htk⟩
      · obtain ⟨t, ht, htk⟩ := kind_eq_some hkind
        exact ⟨t, ht, Or.inr htk⟩
    · cases h

/-- Every site of some content fits it. -/
theorem fits_of_mem_sites {check : Check} {site : Site}
    (h : site ∈ check.sites (Outline.ofTokens content settings)) : site.Fits content settings := by
  cases check with
  | inheritsNameBefore =>
    obtain ⟨keyword, hkeyword, hsite⟩ := List.mem_filterMap.mp h
    obtain ⟨name, hname, rfl⟩ := Option.map_eq_some_iff.mp hsite
    have hword := (List.mem_filter.mp hkeyword).2
    obtain ⟨a, ha, hak⟩ := kind_eq_some (eq_of_beq hword)
    obtain ⟨hlt, hbetween, b, hb, hbk⟩ := parent?_eq_some hsolid hname
    exact .word ha hb hlt (Or.inl hak) (hbk.imp_right Or.inl) hbetween
  | inheritsNameAfter =>
    obtain ⟨keyword, _, hsite⟩ := List.mem_filterMap.mp h
    obtain ⟨name, hname, hsite⟩ := Option.bind_eq_some_iff.mp hsite
    obtain ⟨brace, hbrace, hsite⟩ := Option.bind_eq_some_iff.mp hsite
    split at hsite
    · rename_i hopen
      cases hsite
      obtain ⟨_, _, a, ha, hak⟩ := parent?_eq_some hsolid hname
      obtain ⟨hlt, hbetween⟩ := nextCode?_eq_some hsolid hbrace
      obtain ⟨b, hb, hbk⟩ := kind_eq_some hopen
      exact .word ha hb hlt (Or.inr hak) (Or.inr (Or.inr hbk)) hbetween
    · cases hsite
  | closingBraceBefore =>
    obtain ⟨brace, hbrace, hsite⟩ := List.mem_filterMap.mp h
    obtain ⟨prev, hprev, rfl⟩ := Option.map_eq_some_iff.mp hsite
    have hchecked := (List.mem_filter.mp hbrace).2
    simp only [Bool.and_eq_true, beq_iff_eq] at hchecked
    obtain ⟨b, hb, hbk⟩ := kind_eq_some hchecked.1.1
    obtain ⟨a, ha, _⟩ := getElem?_of_any (Neighbors.before?_eq_some hprev).2.1
    obtain rfl := prevContent?_eq_some hsolid (List.getElem?_eq_some_iff.mp hb).1 hprev
    have hkind : ((Outline.ofTokens content settings).kinds[prev]? == some .openBrace) =
        (a.kind == .openBrace) := by
      rw [show (Outline.ofTokens content settings).kinds[prev]? = some a.kind by
        simp only [Outline.ofTokens, List.getElem?_map, ha, Option.map_some], Bool.eq_iff_iff]
      simp
    rw [hkind]
    exact .body ha hb hbk
  | closingBraceAfter =>
    obtain ⟨brace, hbrace, hsite⟩ := List.mem_filterMap.mp h
    obtain ⟨next, hnext, hsite⟩ := Option.bind_eq_some_iff.mp hsite
    obtain ⟨b, hb, rfl⟩ := Option.map_eq_some_iff.mp hsite
    have hchecked := (List.mem_filter.mp hbrace).2
    simp only [Bool.and_eq_true, beq_iff_eq] at hchecked
    obtain ⟨a, ha, hak⟩ := kind_eq_some hchecked.1.1
    obtain rfl := nextContent?_eq_some hsolid hnext
    exact .follower ha hb hak

end Fits

/-! ## Two demands on one gap -/

namespace Demand

private theorem hasNewline_eq_false_of_space {gap : Gap} (h : gap.pieces = [.space]) :
    gap.hasNewline = false := by
  rw [Gap.hasNewline_eq, h]
  rfl

private theorem hasNewline_of_collapse {gap gap' : Gap}
    (h : gap'.pieces = GapRule.collapseNewlines gap) : gap'.hasNewline = true := by
  rw [Gap.hasNewline_iff, Gap.newlineCount_eq, h, GapRule.countP_collapseNewlines]
  exact Nat.one_pos

/-- A demand judges what its rule put into a gap by the same rule. -/
theorem rule_eq_of_repair (demand : Demand) {gap gap' : Gap}
    (h : gap'.pieces = (demand.rule gap).repair gap) : demand.rule gap' = demand.rule gap := by
  cases demand with
  | body afterOpener =>
    cases hline : gap.hasNewline with
    | true =>
      have hrule : Demand.rule (.body afterOpener) gap = .before .lineBreakBody := by
        simp only [rule, BodyClass.classify, hline, if_true]
      rw [hrule] at h ⊢
      simp only [rule, BodyClass.classify, hasNewline_of_collapse h, if_true]
    | false =>
      cases afterOpener with
      | true =>
        have hrule : Demand.rule (.body true) gap = .before .emptyPair := by
          simp only [rule, BodyClass.classify, hline, Bool.false_eq_true, if_false, if_true]
        rw [hrule] at h ⊢
        rw [List.map_eq_nil_iff.mp h]
        rfl
      | false =>
        have hrule : Demand.rule (.body false) gap = .before .inlineBody := by
          simp only [rule, BodyClass.classify, hline, Bool.false_eq_true, if_false]
        rw [hrule] at h ⊢
        simp only [rule, BodyClass.classify, hasNewline_eq_false_of_space h, Bool.false_eq_true,
          if_false]
  | follower next => rfl
  | word => rfl

/-- Two demands that are the same or those of two closing braces in a row. -/
inductive Agree : Demand → Demand → Prop where
  | same {demand : Demand} : Agree demand demand
  | bodyNested : Agree (.body false) (.follower .nested)
  | nestedBody : Agree (.follower .nested) (.body false)

/-- A demand accepts what an agreeing one put into a gap. -/
theorem Agree.accepts_of_repair {demand other : Demand} (h : Agree demand other) {gap gap' : Gap}
    (hblank : gap'.IsBlank) (hpieces : gap'.pieces = (other.rule gap).repair gap) :
    (demand.rule gap').accepts gap' = true := by
  have hself := GapRule.accepts_of_pieces_eq_repair hblank hpieces
  cases h with
  | same => rwa [rule_eq_of_repair _ hpieces]
  | bodyNested =>
    have hspace : gap'.pieces = [.space] := hpieces
    have hrule : Demand.rule (.body false) gap' = .before .inlineBody := by
      simp only [rule, BodyClass.classify, hasNewline_eq_false_of_space hspace, Bool.false_eq_true,
        if_false]
    rw [hrule]
    exact (Gap.isSingleSpace_iff_pieces hblank).mpr hspace
  | nestedBody =>
    rw [← rule_eq_of_repair _ hpieces] at hself
    simp only [rule, BodyClass.classify] at hself ⊢
    cases hline : gap'.hasNewline with
    | true => simp only [GapRule.accepts, hline, Bool.true_or]
    | false =>
      simp only [hline, Bool.false_eq_true, if_false, GapRule.accepts] at hself
      simp only [GapRule.accepts, hself, Bool.or_true]

/-- Agreeing demands put the same pieces into a gap that both reject. -/
theorem Agree.repair_eq {demand other : Demand} (h : Agree demand other) {gap : Gap}
    (hdemand : (demand.rule gap).accepts gap = false)
    (hother : (other.rule gap).accepts gap = false) :
    (demand.rule gap).repair gap = (other.rule gap).repair gap := by
  have hspace : (Demand.rule (.follower .nested) gap).accepts gap = false →
      (Demand.rule (.body false) gap).repair gap = [.space] := by
    intro hnested
    simp only [rule, GapRule.accepts, Bool.or_eq_false_iff] at hnested
    simp only [rule, BodyClass.classify, hnested.1.1, Bool.false_eq_true, if_false]
    rfl
  cases h with
  | same => rfl
  | bodyNested => exact hspace hother
  | nestedBody => exact (hspace hdemand).symm

end Demand

section Neighbours

variable {content : List Token} {settings : Settings} {k : Nat}

/-- All demands on one gap agree. -/
theorem Site.Fits.agree {demand other : Demand}
    (h : Site.Fits content settings ⟨k, k + 1, demand⟩)
    (h' : Site.Fits content settings ⟨k, k + 1, other⟩) : Demand.Agree demand other := by
  have hkind {a b : Token} {i : Nat} (ha : content[i]? = some a) (hb : content[i]? = some b) :
      a = b := Option.some.inj (ha.symm.trans hb)
  -- a closing brace is neither before nor behind the gap of a name
  have hleft {a : Token} (hclose : a.kind = .closeBrace) :
      ¬ (a.kind = .inheritsWord ∨ a.kind = .name ∨ a.kind = .classRef) := by
    simp [hclose]
  have hright {b : Token} (hclose : b.kind = .closeBrace) :
      ¬ (b.kind = .name ∨ b.kind = .classRef ∨ b.kind = .openBrace) := by
    simp [hclose]
  cases h with
  | body ha hb hclose =>
    cases h' with
    | body ha' _ _ =>
      obtain rfl := hkind ha ha'
      exact .same
    | follower ha' hb' hclose' =>
      obtain rfl := hkind ha ha'
      obtain rfl := hkind hb hb'
      have hnested : FollowerClass.classify settings.tight _ = .nested := if_pos hclose
      rw [hclose', hnested]
      exact .bodyNested
    | word _ hb' _ _ hnext _ =>
      obtain rfl := hkind hb hb'
      exact absurd hnext (hright hclose)
  | follower ha hb hclose =>
    cases h' with
    | body ha' hb' hclose' =>
      obtain rfl := hkind ha ha'
      obtain rfl := hkind hb hb'
      have hnested : FollowerClass.classify settings.tight _ = .nested := if_pos hclose'
      rw [hclose, hnested]
      exact .nestedBody
    | follower _ hb' _ =>
      obtain rfl := hkind hb hb'
      exact .same
    | word ha' _ _ hprev _ _ =>
      obtain rfl := hkind ha ha'
      exact absurd hprev (hleft hclose)
  | word ha hb _ hprev hnext _ =>
    cases h' with
    | body _ hb' hclose =>
      obtain rfl := hkind hb hb'
      exact absurd hnext (hright hclose)
    | follower ha' _ hclose =>
      obtain rfl := hkind ha ha'
      exact absurd hprev (hleft hclose)
    | word => exact .same

/-- A gap that is judged is not the start of a site across comments. -/
theorem Site.Fits.right_eq {demand : Demand} {site : Site}
    (h : Site.Fits content settings ⟨k, k + 1, demand⟩) (h' : site.Fits content settings)
    (hleft : site.left = k) : site.right = k + 1 := by
  subst hleft
  by_contra hfar
  cases h' with
  | body => exact hfar rfl
  | follower => exact hfar rfl
  | @word i j a' b' ha' _ hlt hprev _ hbetween =>
    obtain ⟨t, ht, hcomment⟩ :=
      hbetween (i + 1) (Nat.lt_succ_self i) (Nat.lt_of_le_of_ne hlt (Ne.symm hfar))
    cases h with
    | body ha hb hclose =>
      rw [Option.some.inj (hb.symm.trans ht), hcomment] at hclose
      cases hclose
    | follower ha _ hclose =>
      rw [Option.some.inj (ha'.symm.trans ha), hclose] at hprev
      rcases hprev with hkind | hkind | hkind <;> cases hkind
    | word _ hb _ _ hnext _ =>
      rw [Option.some.inj (hb.symm.trans ht), hcomment] at hnext
      rcases hnext with hkind | hkind | hkind <;> cases hkind

/-- The rule by which a site judges a gap governs it. -/
theorem Site.Fits.governs {demand : Demand} {a b : Token} {gap : Gap}
    (h : Site.Fits content settings ⟨k, k + 1, demand⟩) (ha : content[k]? = some a)
    (hb : content[k + 1]? = some b) : (demand.rule gap).Governs a.kind b.kind gap := by
  cases h with
  | @body _ a' b' ha' hb' hclose =>
    obtain rfl := Option.some.inj (ha.symm.trans ha')
    obtain rfl := Option.some.inj (hb.symm.trans hb')
    simp only [Demand.rule, BodyClass.classify]
    split
    · rename_i hline
      exact ⟨hclose, hline⟩
    · rename_i hline
      split
      · rename_i hopener
        rw [Bool.and_eq_true] at hopener
        exact ⟨eq_of_beq hopener.1, hclose⟩
      · exact ⟨hclose, Bool.eq_false_iff.mpr hline⟩
  | follower ha' _ hclose =>
    obtain rfl := Option.some.inj (ha.symm.trans ha')
    exact hclose
  | word ha' _ _ hleft _ _ =>
    obtain rfl := Option.some.inj (ha.symm.trans ha')
    exact hleft

end Neighbours

end ManifestSpacing
