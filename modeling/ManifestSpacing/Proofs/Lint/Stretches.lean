import ManifestSpacing.Proofs.Lint.OneRepair
import ManifestSpacing.Proofs.Check.Demands
import ManifestSpacing.Proofs.Structure.Matching

/-!
# Where the checks look

The gaps that a check looks at, said of two tokens of a manifest and what
stands around them: a closing brace and the nearest token that is not blank on
either side of it, a keyword of inheritance and the name that is the next code
behind it, and that name and the brace that is the next code behind the name.
The sites of the checks are exactly these.
-/

namespace ManifestSpacing

/-! ## Two tokens of a manifest -/

/-- A token sequence, seen from two of its tokens. -/
structure Stretch where
  /-- What comes before the left token. -/
  ahead : List Token
  /-- The token before the gap. -/
  left : Token
  /-- What stands between the two. -/
  gap : Gap
  /-- The token behind the gap. -/
  right : Token
  /-- What comes after the right token. -/
  behind : List Token

namespace Stretch

/-- The whole sequence. -/
def tokens (v : Stretch) : List Token := v.ahead ++ v.left :: (v.gap ++ v.right :: v.behind)

/-- The kinds of the whole sequence. -/
def kinds (v : Stretch) : List TokenKind := v.tokens.map Token.kind

/-- The index of the left token. -/
def leftIndex (v : Stretch) : Nat := v.ahead.length

/-- The index of the right token. -/
def rightIndex (v : Stretch) : Nat := v.ahead.length + 1 + v.gap.length

end Stretch

/-- Whether the token at an index is a closing brace that is looked at: it is matched and, unless
all of them are looked at, no brace of a conditional in value position. -/
structure IsChecked (settings : Settings) (kinds : List TokenKind) (brace : Nat) : Prop where
  closes : kinds[brace]? = some .closeBrace
  matched : ∃ opener, (Pairing.ofKinds kinds).partner? brace = some opener
  plain : settings.checkExpressionBraces = true ∨
    brace ∉ ValueConditional.braces kinds (Pairing.ofKinds kinds)

namespace Stretch

/-- Whether the stretch leads to a closing brace from the nearest token that is not blank. -/
structure EndsBody (settings : Settings) (v : Stretch) : Prop where
  solid : v.left.kind.isBlank = false
  blank : v.gap.IsBlank
  brace : IsChecked settings v.kinds v.rightIndex

/-- Whether the left token is the opener of the right one. -/
def IsPair (v : Stretch) : Prop :=
  (Pairing.ofKinds v.kinds).partner? v.rightIndex = some v.leftIndex

/-- Whether the stretch leads from a closing brace to the nearest token that is not blank. -/
structure FollowsBody (settings : Settings) (v : Stretch) : Prop where
  brace : IsChecked settings v.kinds v.leftIndex
  blank : v.gap.IsBlank
  solid : v.right.kind.isBlank = false

/-- Whether the stretch leads from an inherits keyword to a name, the next code behind it. -/
structure NamesParent (v : Stretch) : Prop where
  keyword : v.left.kind = .inheritsWord
  trivia : ∀ t ∈ v.gap, t.kind.isTrivia = true
  name : v.right.kind = .name ∨ v.right.kind = .classRef

/-- Whether the stretch leads from the name of a parent to an opening brace, the next code behind
it. -/
structure OpensBody (v : Stretch) : Prop where
  parent : ∃ w : Stretch, w.tokens = v.tokens ∧ w.rightIndex = v.leftIndex ∧ w.NamesParent
  trivia : ∀ t ∈ v.gap, t.kind.isTrivia = true
  brace : v.right.kind = .openBrace

end Stretch

/-! ## Neighbours -/

namespace Stretch

variable (v : Stretch)

theorem getElem?_left : v.tokens[v.leftIndex]? = some v.left := by
  rw [tokens, leftIndex, List.getElem?_append_right (Nat.le_refl _), Nat.sub_self,
    List.getElem?_cons_zero]

theorem getElem?_behind_left (n : Nat) :
    v.tokens[v.leftIndex + 1 + n]? = (v.gap ++ v.right :: v.behind)[n]? := by
  rw [tokens, leftIndex, List.getElem?_append_right (by omega),
    show v.ahead.length + 1 + n - v.ahead.length = n + 1 by omega, List.getElem?_cons_succ]

theorem getElem?_right : v.tokens[v.rightIndex]? = some v.right := by
  have hright := v.getElem?_behind_left v.gap.length
  rw [List.getElem?_append_right (Nat.le_refl _), Nat.sub_self, List.getElem?_cons_zero] at hright
  exact hright

theorem kinds_left : v.kinds[v.leftIndex]? = some v.left.kind := by
  rw [kinds, List.getElem?_map, getElem?_left, Option.map_some]

theorem kinds_right : v.kinds[v.rightIndex]? = some v.right.kind := by
  rw [kinds, List.getElem?_map, getElem?_right, Option.map_some]

theorem between_eq : Gap.between v.tokens v.leftIndex v.rightIndex = v.gap :=
  Gap.between_append v.ahead v.left v.gap v.right v.behind

theorem left_lt_right : v.leftIndex < v.rightIndex := by
  unfold leftIndex rightIndex
  omega

/-- The two indices tell the stretch. -/
theorem eq_of_indices {v w : Stretch} (htokens : v.tokens = w.tokens)
    (hleft : v.leftIndex = w.leftIndex) (hright : v.rightIndex = w.rightIndex) : v = w := by
  obtain ⟨ahead, left, gap, right, behind⟩ := v
  obtain ⟨ahead', left', gap', right', behind'⟩ := w
  have hgap : gap.length = gap'.length := by
    simp only [leftIndex, rightIndex] at hleft hright
    omega
  obtain ⟨rfl, hrest⟩ := List.append_inj htokens hleft
  obtain ⟨rfl, hrest⟩ := List.cons.inj hrest
  obtain ⟨rfl, hrest⟩ := List.append_inj hrest hgap
  obtain ⟨rfl, rfl⟩ := List.cons.inj hrest
  rfl

/-- Nothing between the two tokens passes a test exactly when nothing in the gap does. -/
theorem between_iff {test : TokenKind → Bool} :
    (∀ m, v.leftIndex < m → m < v.rightIndex → (v.kinds[m]?).any test = false) ↔
      ∀ t ∈ v.gap, test t.kind = false := by
  have hkind {n : Nat} (hn : n < v.gap.length) :
      (v.kinds[v.leftIndex + 1 + n]?).any test = test v.gap[n].kind := by
    rw [kinds, List.getElem?_map, getElem?_behind_left, List.getElem?_append_left hn,
      List.getElem?_eq_getElem hn, Option.map_some, Option.any_some]
  constructor
  · intro h t ht
    obtain ⟨n, hn, rfl⟩ := List.getElem_of_mem ht
    rw [← hkind hn]
    exact h _ (by omega) (by unfold rightIndex leftIndex; omega)
  · intro h m hleft hright
    obtain ⟨n, rfl⟩ := Nat.exists_eq_add_of_lt hleft
    have hn : n < v.gap.length := by
      unfold rightIndex leftIndex at hright
      omega
    rw [Nat.add_right_comm, hkind hn]
    exact h _ (List.getElem_mem hn)

theorem after?_iff {test : TokenKind → Bool} :
    Neighbors.after? test v.kinds v.leftIndex = some v.rightIndex ↔
      test v.right.kind = true ∧ ∀ t ∈ v.gap, test t.kind = false := by
  rw [Neighbors.after?_eq_some_iff, kinds_right, Option.any_some, between_iff]
  exact and_iff_right v.left_lt_right

theorem before?_iff {test : TokenKind → Bool} :
    Neighbors.before? test v.kinds v.rightIndex = some v.leftIndex ↔
      test v.left.kind = true ∧ ∀ t ∈ v.gap, test t.kind = false := by
  rw [Neighbors.before?_eq_some_iff, kinds_left, Option.any_some, between_iff]
  exact and_iff_right v.left_lt_right

/-- Two tokens of a sequence make a stretch of it. -/
theorem exists_of_lt {tokens : List Token} {i j : Nat} {a b : Token} (hlt : i < j)
    (ha : tokens[i]? = some a) (hb : tokens[j]? = some b) :
    ∃ v : Stretch, v.tokens = tokens ∧ v.leftIndex = i ∧ v.rightIndex = j := by
  obtain ⟨xs, ys, hi, htokens, hj⟩ := Gap.exists_split ha hb hlt
  refine ⟨⟨xs, a, Gap.between tokens i j, b, ys⟩, htokens.symm, hi, ?_⟩
  rw [rightIndex, hi]
  exact hj.symm

end Stretch

/-! ## Sites -/

section Looks

variable {tokens : List Token} {settings : Settings}

theorem mem_indicesOf_iff {kind : TokenKind} {i : Nat} :
    i ∈ (Outline.ofTokens tokens settings).indicesOf kind ↔
      (tokens.map Token.kind)[i]? = some kind := by
  simp only [Outline.indicesOf, Outline.ofTokens, List.mem_filter, List.mem_range, beq_iff_eq,
    and_iff_right_iff_imp]
  exact fun h => (List.getElem?_eq_some_iff.mp h).1

theorem mem_checkedCloseBraces_iff {i : Nat} :
    i ∈ (Outline.ofTokens tokens settings).checkedCloseBraces ↔
      IsChecked settings (tokens.map Token.kind) i := by
  have hexempt : (Outline.ofTokens tokens settings).exempt.contains i = false ↔
      settings.checkExpressionBraces = true ∨ i ∉ ValueConditional.braces
        (tokens.map Token.kind) (Pairing.ofKinds (tokens.map Token.kind)) := by
    cases hall : settings.checkExpressionBraces <;> simp [Outline.ofTokens, hall]
  simp only [Outline.checkedCloseBraces, List.mem_filter, List.mem_range, Bool.and_eq_true,
    beq_iff_eq, Bool.not_eq_true', hexempt, Option.isSome_iff_exists]
  constructor
  · rintro ⟨_, ⟨hcloses, hmatched⟩, hplain⟩
    exact ⟨hcloses, hmatched, hplain⟩
  · rintro ⟨hcloses, hmatched, hplain⟩
    exact ⟨(List.getElem?_eq_some_iff.mp hcloses).1, ⟨hcloses, hmatched⟩, hplain⟩

theorem parent?_eq_some_iff {i j : Nat} :
    InheritedName.parent? (Outline.ofTokens tokens settings) i = some j ↔
      Neighbors.nextCode? (tokens.map Token.kind) i = some j ∧
        ((tokens.map Token.kind)[j]? = some .name ∨
          (tokens.map Token.kind)[j]? = some .classRef) := by
  have hkinds : (Outline.ofTokens tokens settings).kinds = tokens.map Token.kind := rfl
  rw [InheritedName.parent?, hkinds]
  cases Neighbors.nextCode? (tokens.map Token.kind) i with
  | none => simp
  | some name =>
    simp only [Option.ite_none_right_eq_some, Option.some.injEq, and_comm]
    exact and_congr_right fun hname => by rw [hname]

end Looks

namespace Stretch

variable (v : Stretch) {settings : Settings} {demand : Demand}

/-- The gap with a demand on it. -/
def site (demand : Demand) : Site := ⟨v.leftIndex, v.rightIndex, demand⟩

instance : Decidable v.IsPair := inferInstanceAs (Decidable (_ = _))

theorem namesParent_iff (settings : Settings) :
    v.NamesParent ↔ v.kinds[v.leftIndex]? = some .inheritsWord ∧
      InheritedName.parent? (Outline.ofTokens v.tokens settings) v.leftIndex =
        some v.rightIndex := by
  have htrivia (t : Token) : (!t.kind.isTrivia) = false ↔ t.kind.isTrivia = true := by simp
  rw [parent?_eq_some_iff, Neighbors.nextCode?, ← kinds, after?_iff, kinds_left, kinds_right]
  simp only [Option.some.injEq, htrivia]
  constructor
  · rintro ⟨hkeyword, hgap, hname⟩
    refine ⟨hkeyword, ⟨?_, hgap⟩, hname⟩
    rcases hname with hname | hname <;> rw [hname] <;> rfl
  · rintro ⟨hkeyword, ⟨_, hgap⟩, hname⟩
    exact ⟨hkeyword, hgap, hname⟩

/-- The opener of a closing brace is an opening brace. -/
theorem IsPair.openBrace {v : Stretch} (h : v.IsPair) (hright : v.right.kind = .closeBrace) :
    v.left.kind = .openBrace := by
  obtain ⟨family, hpair | hpair⟩ := Pairing.partner?_eq_some_iff.mp h
  · have hkind := (Family.getElem?_of_mem_pairs hpair).1
    rw [kinds_right, hright] at hkind
    exact absurd (Option.some.inj hkind).symm (Family.opener_ne_closer family .brace)
  · obtain ⟨hopener, hcloser⟩ := Family.getElem?_of_mem_pairs hpair
    rw [kinds_right, hright] at hcloser
    have hfamily : Family.brace = family := Family.closer_inj (Option.some.inj hcloser)
    rw [kinds_left, ← hfamily] at hopener
    exact Option.some.inj hopener

theorem kinds_ofTokens : (Outline.ofTokens v.tokens settings).kinds = v.kinds := rfl

theorem mem_sites_inheritsNameBefore :
    v.site demand ∈ Check.inheritsNameBefore.sites (Outline.ofTokens v.tokens settings) ↔
      v.NamesParent ∧ demand = .word := by
  rw [v.namesParent_iff settings, Check.sites, List.mem_filterMap]
  constructor
  · rintro ⟨keyword, hkeyword, hsite⟩
    obtain ⟨name, hname, hsite⟩ := Option.map_eq_some_iff.mp hsite
    obtain ⟨rfl, rfl, rfl⟩ := Site.mk.inj hsite
    exact ⟨⟨mem_indicesOf_iff.mp hkeyword, hname⟩, rfl⟩
  · rintro ⟨⟨hkeyword, hname⟩, rfl⟩
    exact ⟨_, mem_indicesOf_iff.mpr hkeyword, Option.map_eq_some_iff.mpr ⟨_, hname, rfl⟩⟩

theorem mem_sites_inheritsNameAfter :
    v.site demand ∈ Check.inheritsNameAfter.sites (Outline.ofTokens v.tokens settings) ↔
      v.OpensBody ∧ demand = .word := by
  rw [Check.sites, List.mem_filterMap]
  constructor
  · rintro ⟨keyword, hkeyword, hsite⟩
    obtain ⟨name, hname, hsite⟩ := Option.bind_eq_some_iff.mp hsite
    obtain ⟨brace, hbrace, hsite⟩ := Option.bind_eq_some_iff.mp hsite
    obtain ⟨hopens, hsite⟩ := Option.ite_none_right_eq_some.mp hsite
    obtain ⟨rfl, rfl, rfl⟩ := Site.mk.inj (Option.some.inj hsite)
    rw [kinds_ofTokens, Neighbors.nextCode?, after?_iff] at hbrace
    rw [kinds_ofTokens, kinds_right] at hopens
    refine ⟨⟨?_, ?_, Option.some.inj hopens⟩, rfl⟩
    · -- the keyword and the name make a stretch of their own
      obtain ⟨t, ht, _⟩ := kind_eq_some (mem_indicesOf_iff.mp hkeyword)
      have hlt := (Neighbors.after?_bounds (parent?_eq_some_iff.mp hname).1).1
      obtain ⟨w, hw, rfl, hright⟩ := exists_of_lt hlt ht v.getElem?_left
      refine ⟨w, hw, hright, (w.namesParent_iff settings).mpr ⟨?_, ?_⟩⟩
      · rw [kinds, hw]
        exact mem_indicesOf_iff.mp hkeyword
      · rw [hw, hright]
        exact hname
    · exact fun t ht => by simpa using hbrace.2 t ht
  · rintro ⟨⟨⟨w, hw, hright, hparent⟩, htrivia, hopens⟩, rfl⟩
    obtain ⟨hkeyword, hname⟩ := (w.namesParent_iff settings).mp hparent
    rw [kinds, hw] at hkeyword
    rw [hw, hright] at hname
    have hbrace : Neighbors.nextCode? v.kinds v.leftIndex = some v.rightIndex :=
      v.after?_iff.mpr ⟨by rw [hopens]; rfl, fun t ht => by rw [htrivia t ht]; rfl⟩
    refine ⟨w.leftIndex, mem_indicesOf_iff.mpr hkeyword, ?_⟩
    rw [hname, Option.bind_some, kinds_ofTokens, hbrace, Option.bind_some, kinds_right, hopens,
      if_pos rfl]
    rfl

theorem mem_sites_closingBraceBefore :
    v.site demand ∈ Check.closingBraceBefore.sites (Outline.ofTokens v.tokens settings) ↔
      v.EndsBody settings ∧ demand = .body (decide v.IsPair) := by
  have hpairing : (Outline.ofTokens v.tokens settings).pairing = Pairing.ofKinds v.kinds := rfl
  have hpair (h : IsChecked settings v.kinds v.rightIndex) :
      (v.kinds[v.leftIndex]? == some .openBrace &&
        (Pairing.ofKinds v.kinds).partner? v.rightIndex == some v.leftIndex) =
          decide v.IsPair := by
    have hright : v.right.kind = .closeBrace :=
      Option.some.inj (v.kinds_right.symm.trans h.closes)
    rw [kinds_left, Bool.eq_iff_iff, Bool.and_eq_true, beq_iff_eq, beq_iff_eq, decide_eq_true_eq,
      Option.some.injEq]
    exact and_iff_right_of_imp fun hpair => IsPair.openBrace hpair hright
  rw [Check.sites, List.mem_filterMap, kinds_ofTokens, hpairing]
  constructor
  · rintro ⟨brace, hbrace, hsite⟩
    obtain ⟨prev, hprev, hsite⟩ := Option.map_eq_some_iff.mp hsite
    obtain ⟨rfl, rfl, hdemand⟩ := Site.mk.inj hsite
    have hchecked := mem_checkedCloseBraces_iff.mp hbrace
    obtain ⟨hsolid, hblank⟩ := v.before?_iff.mp hprev
    rw [← hdemand, hpair hchecked]
    exact ⟨⟨by simpa using hsolid, fun t ht => by simpa using hblank t ht, hchecked⟩, rfl⟩
  · rintro ⟨⟨hsolid, hblank, hbrace⟩, rfl⟩
    have hprev : Neighbors.prevContent? v.kinds v.rightIndex = some v.leftIndex :=
      v.before?_iff.mpr ⟨by rw [hsolid]; rfl, fun t ht => by rw [hblank t ht]; rfl⟩
    refine ⟨v.rightIndex, mem_checkedCloseBraces_iff.mpr hbrace, ?_⟩
    rw [hprev, Option.map_some, hpair hbrace]
    rfl

theorem mem_sites_closingBraceAfter :
    v.site demand ∈ Check.closingBraceAfter.sites (Outline.ofTokens v.tokens settings) ↔
      v.FollowsBody settings ∧
        demand = .follower (FollowerClass.classify settings.tight v.right) := by
  rw [Check.sites, List.mem_filterMap]
  constructor
  · rintro ⟨brace, hbrace, hsite⟩
    obtain ⟨next, hnext, hsite⟩ := Option.bind_eq_some_iff.mp hsite
    obtain ⟨follower, hfollower, hsite⟩ := Option.map_eq_some_iff.mp hsite
    obtain ⟨rfl, rfl, rfl⟩ := Site.mk.inj hsite
    obtain rfl := Option.some.inj (hfollower.symm.trans v.getElem?_right)
    rw [kinds_ofTokens, Neighbors.nextContent?, after?_iff] at hnext
    obtain ⟨hsolid, hblank⟩ := hnext
    exact ⟨⟨mem_checkedCloseBraces_iff.mp hbrace, fun t ht => by simpa using hblank t ht,
      by simpa using hsolid⟩, rfl⟩
  · rintro ⟨⟨hbrace, hblank, hsolid⟩, rfl⟩
    have hnext : Neighbors.nextContent? v.kinds v.leftIndex = some v.rightIndex :=
      v.after?_iff.mpr ⟨by rw [hsolid]; rfl, fun t ht => by rw [hblank t ht]; rfl⟩
    refine ⟨v.leftIndex, mem_checkedCloseBraces_iff.mpr hbrace, ?_⟩
    rw [kinds_ofTokens, hnext, Option.bind_some]
    exact Option.map_eq_some_iff.mpr ⟨v.right, v.getElem?_right, rfl⟩

end Stretch

end ManifestSpacing
