import ManifestSpacing.Proofs.Structure.Matching
import ManifestSpacing.Proofs.Structure.Skeleton
import Mathlib.Data.Prod.Basic

/-!
# Partners

An opener and a closer belong together exactly when they enclose a stretch in
which their family is balanced, wherever they stand and however malformed the
rest is. Each of two partners is that of the other, nothing but delimiters has
a partner, and a closer goes without one only if it ends no such stretch. The
families do not meet: what is paired within one of them depends on its own
delimiters alone.
-/

namespace ManifestSpacing

namespace Family

/-- Whether a kind is a delimiter of a family. -/
def owns (family : Family) (kind : TokenKind) : Bool :=
  kind == family.opener || kind == family.closer

/-- Whether an opener and a closer of a family stand at two indices, and the family is balanced
strictly between them. -/
structure Encloses (family : Family) (kinds : List TokenKind) (i j : Nat) : Prop where
  lt : i < j
  opens : kinds[i]? = some family.opener
  closes : kinds[j]? = some family.closer
  balanced : family.Balanced ((kinds.take j).drop (i + 1))

variable {family : Family} {kinds : List TokenKind} {kind : TokenKind} {i j : Nat}

theorem owns_iff : family.owns kind = true ↔ kind = family.opener ∨ kind = family.closer := by
  simp [owns]

/-- A delimiter belongs to one family. -/
theorem eq_of_owns {other : Family} (h : family.owns kind = true) (h' : other.owns kind = true) :
    family = other := by
  rcases owns_iff.mp h with rfl | rfl <;> rcases owns_iff.mp h' with h' | h'
  · exact opener_inj h'
  · exact absurd h' (opener_ne_closer family other)
  · exact absurd h'.symm (opener_ne_closer other family)
  · exact closer_inj h'

/-- Matching pairs what encloses a balanced stretch. -/
theorem mem_pairs_iff_encloses : (i, j) ∈ family.pairs kinds ↔ family.Encloses kinds i j := by
  constructor
  · intro h
    obtain ⟨hopens, hcloses⟩ := getElem?_of_mem_pairs h
    obtain ⟨xs, mid, ys, rfl, rfl, rfl, hmid⟩ := mem_pairs_iff.mp h
    exact ⟨by omega, hopens, hcloses, (drop_take_append xs _ mid _ ys).symm ▸ hmid⟩
  · intro h
    obtain ⟨xs, ys, rfl, hkinds, hj⟩ := exists_split_of_lt h.opens h.closes h.lt
    exact mem_pairs_iff.mpr ⟨xs, _, ys, hkinds, rfl, hj, h.balanced⟩

/-- Both ends of a pair are delimiters of its family. -/
theorem owns_of_mem_pairs (h : (i, j) ∈ family.pairs kinds) :
    (kinds[i]?).any family.owns = true ∧ (kinds[j]?).any family.owns = true := by
  obtain ⟨hopens, hcloses⟩ := getElem?_of_mem_pairs h
  rw [hopens, hcloses]
  exact ⟨owns_iff.mpr (Or.inl rfl), owns_iff.mpr (Or.inr rfl)⟩

/-- The pairs of a family are the pairs among its own delimiters. -/
theorem mem_pairs_place_iff {k m : Nat} :
    (Skeleton.place family.owns kinds k, Skeleton.place family.owns kinds m) ∈ family.pairs kinds ↔
      (k, m) ∈ family.pairs (kinds.filter family.owns) := by
  have hinj : Function.Injective (Skeleton.place family.owns kinds) :=
    (Skeleton.strictMono_place kinds).injective
  rw [Skeleton.family_pairs_place (owns_iff.mpr (Or.inl rfl)) (owns_iff.mpr (Or.inr rfl))]
  exact @List.mem_map_of_injective _ _ _ (Function.Injective.prodMap hinj hinj) (k, m) _

end Family

namespace Pairing

variable {family : Family} {kinds : List TokenKind} {i j : Nat}

/-- Only delimiters have partners. -/
theorem partner?_eq_none (h : ∀ family : Family, (kinds[i]?).any family.owns = false) :
    (ofKinds kinds).partner? i = none := by
  rw [Option.eq_none_iff_forall_ne_some]
  intro j hj
  obtain ⟨family, hpair⟩ := partner?_eq_some_iff.mp hj
  have howns : (kinds[i]?).any family.owns = true :=
    hpair.elim (fun hpair => (Family.owns_of_mem_pairs hpair).1)
      fun hpair => (Family.owns_of_mem_pairs hpair).2
  exact Bool.false_ne_true ((h family).symm.trans howns)

/-- The partner of a delimiter is found among the pairs of its family. -/
theorem partner?_eq_some_iff_of_owns (h : (kinds[i]?).any family.owns = true) :
    (ofKinds kinds).partner? i = some j ↔
      (i, j) ∈ family.pairs kinds ∨ (j, i) ∈ family.pairs kinds := by
  have hfamily {other : Family} (hother : (kinds[i]?).any other.owns = true) : other = family := by
    obtain ⟨kind, hkind, howns⟩ := (Option.any_eq_true _ _).mp h
    rw [hkind] at hother
    exact Family.eq_of_owns hother howns
  rw [partner?_eq_some_iff]
  constructor
  · rintro ⟨other, hpair | hpair⟩
    · exact Or.inl (hfamily (Family.owns_of_mem_pairs hpair).1 ▸ hpair)
    · exact Or.inr (hfamily (Family.owns_of_mem_pairs hpair).2 ▸ hpair)
  · exact fun hpair => ⟨family, hpair⟩

/-- Each of two partners is that of the other. -/
theorem partner?_comm :
    (ofKinds kinds).partner? i = some j ↔ (ofKinds kinds).partner? j = some i := by
  simp only [partner?_eq_some_iff, or_comm]

/-- A later partner closes what an earlier one opens. -/
theorem partner?_eq_some_iff_encloses (hlt : i < j) :
    (ofKinds kinds).partner? i = some j ↔ ∃ family : Family, family.Encloses kinds i j := by
  simp only [partner?_eq_some_iff, Family.mem_pairs_iff_encloses]
  refine exists_congr fun family => or_iff_left fun h => ?_
  exact Nat.lt_asymm hlt h.lt

/-- A closer without a partner ends no stretch that is balanced behind an opener. -/
theorem partner?_closer_eq_none_iff (hcloser : kinds[j]? = some family.closer) :
    (ofKinds kinds).partner? j = none ↔ ¬ ∃ i, family.Encloses kinds i j := by
  have howns : (kinds[j]?).any family.owns = true := by
    rw [hcloser]
    exact Family.owns_iff.mpr (Or.inr rfl)
  rw [Option.eq_none_iff_forall_ne_some, not_exists]
  refine forall_congr' fun i => not_congr ?_
  rw [partner?_eq_some_iff_of_owns howns, Family.mem_pairs_iff_encloses,
    Family.mem_pairs_iff_encloses]
  -- a closer opens nothing
  refine or_iff_right fun h => ?_
  exact Family.opener_ne_closer family family (Option.some.inj (h.opens.symm.trans hcloser))

/-- Which delimiters of a family are partners can be told from those delimiters alone. -/
theorem partner?_place_iff {k m : Nat} :
    (ofKinds kinds).partner? (Skeleton.place family.owns kinds k) =
        some (Skeleton.place family.owns kinds m) ↔
      (ofKinds (kinds.filter family.owns)).partner? k = some m := by
  cases hk : (kinds.filter family.owns)[k]? with
  | none =>
    have hnone : (kinds[Skeleton.place family.owns kinds k]?) = none := by
      rw [Skeleton.getElem?_place, hk]
    rw [partner?_eq_none fun family => by rw [hnone]; rfl,
      partner?_eq_none fun family => by rw [hk]; rfl]
    exact iff_of_false nofun nofun
  | some kind =>
    have howns : ((kinds.filter family.owns)[k]?).any family.owns = true := by
      rw [hk]
      exact (List.mem_filter.mp (List.mem_of_getElem? hk)).2
    have hplace := howns
    rw [← Skeleton.any_place] at hplace
    rw [partner?_eq_some_iff_of_owns howns, partner?_eq_some_iff_of_owns hplace,
      Family.mem_pairs_place_iff, Family.mem_pairs_place_iff]

/-- What a pairing of some kinds tells of each delimiter. -/
structure Exact (pairing : Pairing) (kinds : List TokenKind) : Prop where
  /-- Partners are an opener and a later closer that enclose a balanced stretch of their family. -/
  encloses : ∀ i j, i < j →
    (pairing.partner? i = some j ↔ ∃ family : Family, family.Encloses kinds i j)
  /-- Each of two partners is that of the other. -/
  comm : ∀ i j, pairing.partner? i = some j ↔ pairing.partner? j = some i
  /-- Only delimiters have partners. -/
  others : ∀ i, (∀ family : Family, (kinds[i]?).any family.owns = false) →
    pairing.partner? i = none
  /-- A closer goes without a partner exactly if it ends no balanced stretch behind an opener. -/
  unmatched : ∀ (family : Family) (j : Nat), kinds[j]? = some family.closer →
    (pairing.partner? j = none ↔ ¬ ∃ i, family.Encloses kinds i j)

/-- Matching is exact on all sequences of kinds, balanced or not. Sequences that have the same
delimiters of a family, whatever else stands before, between and behind them, have the same ones
paired. -/
theorem ofKinds_exact (kinds : List TokenKind) :
    (ofKinds kinds).Exact kinds ∧
      ∀ (family : Family) (kinds' : List TokenKind),
        kinds'.filter family.owns = kinds.filter family.owns →
        ∀ k m, (ofKinds kinds').partner? (Skeleton.place family.owns kinds' k) =
            some (Skeleton.place family.owns kinds' m) ↔
          (ofKinds kinds).partner? (Skeleton.place family.owns kinds k) =
            some (Skeleton.place family.owns kinds m) := by
  refine ⟨⟨fun i j => partner?_eq_some_iff_encloses, fun i j => partner?_comm,
    fun i => partner?_eq_none, fun family j => partner?_closer_eq_none_iff⟩, ?_⟩
  intro family kinds' hsame k m
  rw [partner?_place_iff, partner?_place_iff, hsame]

-- braces and brackets cross, a closer is stray and a parenthesis stays open
example : (List.range 6).map (ofKinds [.closeBrace, .openBrace, .openBracket, .closeBrace,
    .openParen, .closeBracket]).partner? = [none, some 3, some 5, some 1, none, some 2] := by
  decide

end Pairing

end ManifestSpacing
