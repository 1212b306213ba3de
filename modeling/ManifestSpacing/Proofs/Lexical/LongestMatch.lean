import ManifestSpacing.Lexical.Grammar

/-!
# What a longest match depends on

A longest match is fixed by the part of the text that its expression can
reach: two texts that agree that far have the same longest match. Reach is
bounded by the characters that an expression never consumes, and a rule whose
derivative by the first character is empty takes no part in the choice.
-/

namespace ManifestSpacing

namespace Regex

/-- A longest match is a matching prefix that no longer prefix beats, and nothing else is. -/
theorem longestMatch_eq_some_iff {r : Regex} {as : List Char} {n : Nat} :
    r.longestMatch as = some n ↔
      n ≤ as.length ∧ Matches r (as.take n) ∧
        ∀ m, n < m → m ≤ as.length → ¬ Matches r (as.take m) := by
  refine ⟨longestMatch_eq_some, ?_⟩
  rintro ⟨hle, hm, hmax⟩
  cases h : r.longestMatch as with
  | none => exact absurd hm (not_matches_of_longestMatch_eq_none h n)
  | some k =>
    obtain ⟨hk, hmk, hmaxk⟩ := longestMatch_eq_some h
    have hnk : ¬ n < k := fun hlt => hmax k hlt hk hmk
    have hkn : ¬ k < n := fun hlt => hmaxk n hlt hle hm
    rw [show k = n by omega]

/-- There is no longest match exactly when no prefix matches. -/
theorem longestMatch_eq_none_iff {r : Regex} {as : List Char} :
    r.longestMatch as = none ↔ ∀ n, n ≤ as.length → ¬ Matches r (as.take n) := by
  refine ⟨fun h n _ => not_matches_of_longestMatch_eq_none h n, ?_⟩
  intro h
  cases hm : r.longestMatch as with
  | none => rfl
  | some n =>
    obtain ⟨hle, hn, _⟩ := longestMatch_eq_some hm
    exact absurd hn (h n hle)

/-- Texts that agree as far as an expression reaches in them have the same longest match. -/
theorem longestMatch_eq_of_take_eq {r : Regex} {as bs : List Char} {k : Nat}
    (hagree : bs.take k = as.take k) (has : ∀ n, r.longestMatch as = some n → n ≤ k)
    (hbs : ∀ m, m ≤ bs.length → Matches r (bs.take m) → m ≤ k) :
    r.longestMatch bs = r.longestMatch as := by
  have htake : ∀ m, m ≤ k → bs.take m = as.take m := by
    intro m hm
    have hh := congrArg (List.take m) hagree
    simpa only [List.take_take, Nat.min_eq_left hm] using hh
  have hlength : ∀ m, m ≤ k → m ≤ bs.length → m ≤ as.length := by
    intro m hm hle
    have hh := congrArg List.length (htake m hm)
    simp only [List.length_take] at hh
    omega
  cases h : r.longestMatch as with
  | none =>
    rw [longestMatch_eq_none_iff]
    intro m hle hm
    have hmk := hbs m hle hm
    rw [htake m hmk] at hm
    exact longestMatch_eq_none_iff.mp h m (hlength m hmk hle) hm
  | some n =>
    obtain ⟨hle, hn, hmax⟩ := longestMatch_eq_some h
    have hnk := has n h
    rw [longestMatch_eq_some_iff, htake n hnk]
    refine ⟨?_, hn, ?_⟩
    · have hh := congrArg List.length (htake n hnk)
      simp only [List.length_take] at hh
      omega
    · intro m hlt hm hmatch
      have hmk := hbs m hm hmatch
      rw [htake m hmk] at hmatch
      exact hmax m hlt (hlength m hmk hm) hmatch

/-- Whether no text of an expression holds any of some characters. -/
def avoids (banned : List Char) : Regex → Bool
  | .never | .epsilon => true
  | .chars set => banned.all fun c => !set.contains c
  | .seq r s | .alt r s => r.avoids banned && s.avoids banned
  | .star r => r.avoids banned

/-- The characters that an expression avoids stand in none of its texts. -/
theorem Matches.not_mem_of_avoids {r : Regex} {banned as : List Char} (hm : Matches r as)
    (h : r.avoids banned = true) : ∀ c ∈ as, c ∉ banned := by
  induction hm with
  | epsilon => exact fun c hc => absurd hc List.not_mem_nil
  | @chars set c hc =>
    intro d hd hbad
    rw [List.mem_singleton.mp hd] at hbad
    have hh := List.all_eq_true.mp h c hbad
    simp only [hc, Bool.not_true, Bool.false_eq_true] at hh
  | seq hr hs ihr ihs =>
    obtain ⟨h₁, h₂⟩ := Bool.and_eq_true_iff.mp h
    exact fun c hc => (List.mem_append.mp hc).elim (ihr h₁ c) (ihs h₂ c)
  | altLeft hr ih => exact ih (Bool.and_eq_true_iff.mp h).1
  | altRight hs ih => exact ih (Bool.and_eq_true_iff.mp h).2
  | starNil => exact fun c hc => absurd hc List.not_mem_nil
  | starCons hr hs ihr ihs =>
    exact fun c hc => (List.mem_append.mp hc).elim (ihr h c) (ihs h c)

/-! ## Longest matches by the first character -/

@[simp] theorem longestMatch_never (cs : List Char) : longestMatch .never cs = none := by
  cases cs <;> simp [longestMatch, nullable]

@[simp] theorem longestMatch_epsilon (cs : List Char) : longestMatch .epsilon cs = some 0 := by
  cases cs <;> simp [longestMatch, nullable, deriv]

/-- An expression without the empty text matches through its derivative. -/
theorem longestMatch_cons {r : Regex} (h : r.nullable = false) (c : Char) (cs : List Char) :
    r.longestMatch (c :: cs) = ((r.deriv c).longestMatch cs).map (· + 1) := by
  simp only [longestMatch, h, Bool.false_eq_true, ite_false]
  by_cases hr : r = .never
  · simp [hr, deriv]
  · rw [if_neg hr]
    cases (r.deriv c).longestMatch cs <;> rfl

/-- An expression with the empty text matches through its derivative or not at all. -/
theorem longestMatch_cons_of_nullable {r : Regex} (h : r.nullable = true) (c : Char)
    (cs : List Char) : r.longestMatch (c :: cs) =
      some ((((r.deriv c).longestMatch cs).map (· + 1)).getD 0) := by
  have hr : r ≠ .never := by rintro rfl; cases h
  simp only [longestMatch, if_neg hr, h, ite_true]
  cases (r.deriv c).longestMatch cs <;> rfl

/-- Repeated characters of a set match as long as the set holds them. -/
theorem longestMatch_star_chars (set : CharSet) (cs : List Char) :
    (star (.chars set)).longestMatch cs = some (cs.takeWhile set.contains).length := by
  induction cs with
  | nil => rfl
  | cons c cs ih =>
    rw [longestMatch_cons_of_nullable rfl]
    by_cases hc : set.contains c = true
    · simp [deriv, cat, hc, ih]
    · simp [deriv, cat, hc]

/-- A literal matches its text and nothing else. -/
theorem matches_literal_iff {text : String} {as : List Char} :
    Matches (literal text) as ↔ as = text.toList := by
  unfold literal
  induction text.toList generalizing as with
  | nil => exact matches_epsilon_iff
  | cons c cs ih =>
    have hc : ∀ d, CharSet.contains ⟨[(c, c)], false⟩ d = true ↔ d = c := by
      intro d
      simp only [CharSet.contains, List.any_cons, List.any_nil, Bool.or_false, Bool.bne_false,
        decide_eq_true_eq]
      constructor
      · exact fun ⟨hcd, hdc⟩ => Char.le_antisymm hdc hcd
      · rintro rfl
        exact ⟨Char.le_refl d, Char.le_refl d⟩
    simp only [List.foldr_cons, matches_cat_iff, matches_seq_iff, matches_chars_iff, ih, hc]
    constructor
    · rintro ⟨_, _, rfl, ⟨_, rfl, rfl⟩, rfl⟩
      rfl
    · rintro rfl
      exact ⟨[c], cs, rfl, ⟨c, rfl, rfl⟩, rfl⟩

end Regex

namespace Grammar

/-- The length of a match found so far. -/
def score (best : Option (Lexeme × Nat)) : Nat := (best.map Prod.snd).getD 0

/-- The better of the match found so far and the match of one more rule. -/
def improve (source : List Char) (best : Option (Lexeme × Nat)) (rule : LexicalRule) :
    Option (Lexeme × Nat) :=
  match rule.pattern.longestMatch source with
  | some n => if score best < n then some (rule.lexeme, n) else best
  | none => best

theorem bestMatch_eq_foldl (rules : List LexicalRule) (source : List Char) :
    bestMatch rules source = rules.foldl (improve source) none := rfl

theorem score_le_score_improve (source : List Char) (best : Option (Lexeme × Nat))
    (rule : LexicalRule) : score best ≤ score (improve source best rule) := by
  unfold improve
  split
  · split
    · simp only [score, Option.map_some, Option.getD_some] at *
      omega
    · exact Nat.le_refl _
  · exact Nat.le_refl _

theorem le_score_improve {source : List Char} {rule : LexicalRule} {m : Nat}
    (h : rule.pattern.longestMatch source = some m) (best : Option (Lexeme × Nat)) :
    m ≤ score (improve source best rule) := by
  simp only [improve, h]
  split
  · exact Nat.le_refl _
  · omega

theorem score_le_score_foldl (source : List Char) (rules : List LexicalRule)
    (best : Option (Lexeme × Nat)) : score best ≤ score (rules.foldl (improve source) best) := by
  induction rules generalizing best with
  | nil => exact Nat.le_refl _
  | cons rule rules ih => exact Nat.le_trans (score_le_score_improve source best rule) (ih _)

/-- No rule matches further than the best match. -/
theorem le_score_bestMatch {rules : List LexicalRule} {source : List Char} {rule : LexicalRule}
    (hrule : rule ∈ rules) {m : Nat} (h : rule.pattern.longestMatch source = some m) :
    m ≤ score (bestMatch rules source) := by
  rw [bestMatch_eq_foldl]
  generalize (none : Option (Lexeme × Nat)) = best
  induction rules generalizing best with
  | nil => cases hrule
  | cons first rules ih =>
    rw [List.foldl_cons]
    rcases List.mem_cons.mp hrule with rfl | hmem
    · exact Nat.le_trans (le_score_improve h best) (score_le_score_foldl source rules _)
    · exact ih hmem _

/-- The best match is the nonempty longest match of one of the rules. -/
theorem exists_of_bestMatch_eq_some {rules : List LexicalRule} {source : List Char}
    {lexeme : Lexeme} {n : Nat} (h : bestMatch rules source = some (lexeme, n)) :
    ∃ rule ∈ rules, rule.lexeme = lexeme ∧ rule.pattern.longestMatch source = some n ∧ 0 < n := by
  have hinv : ∀ (rest : List LexicalRule) (best : Option (Lexeme × Nat)),
      rest.foldl (improve source) best = some (lexeme, n) → best = some (lexeme, n) ∨
        ∃ rule ∈ rest, rule.lexeme = lexeme ∧ rule.pattern.longestMatch source = some n ∧
          0 < n := by
    intro rest
    induction rest with
    | nil => exact fun best hb => Or.inl hb
    | cons rule rest ih =>
      intro best hb
      rcases ih _ hb with hstep | ⟨found, hfound, hh⟩
      · unfold improve at hstep
        split at hstep
        · rename_i k hk
          split at hstep
          · rename_i hlt
            obtain ⟨rfl, rfl⟩ := Prod.mk.inj (Option.some.inj hstep)
            exact Or.inr ⟨rule, List.mem_cons_self, rfl, hk, by omega⟩
          · exact Or.inl hstep
        · exact Or.inl hstep
      · exact Or.inr ⟨found, List.mem_cons_of_mem _ hfound, hh⟩
  rcases hinv rules none h with hnone | hh
  · cases hnone
  · exact hh

/-- Rules with equal longest matches in two texts choose the same best match. -/
theorem bestMatch_congr {rules : List LexicalRule} {as bs : List Char}
    (h : ∀ rule ∈ rules, rule.pattern.longestMatch as = rule.pattern.longestMatch bs) :
    bestMatch rules as = bestMatch rules bs := by
  rw [bestMatch_eq_foldl, bestMatch_eq_foldl]
  generalize (none : Option (Lexeme × Nat)) = best
  induction rules generalizing best with
  | nil => rfl
  | cons rule rules ih =>
    rw [List.foldl_cons, List.foldl_cons]
    have hstep : improve as best rule = improve bs best rule := by
      simp only [improve, h rule List.mem_cons_self]
    rw [hstep]
    exact ih (fun r hr => h r (List.mem_cons_of_mem _ hr)) _

/-- Rules without a match can be left out. -/
theorem bestMatch_filter {rules : List LexicalRule} {source : List Char}
    {test : LexicalRule → Bool}
    (h : ∀ rule ∈ rules, test rule = false → rule.pattern.longestMatch source = none) :
    bestMatch (rules.filter test) source = bestMatch rules source := by
  rw [bestMatch_eq_foldl, bestMatch_eq_foldl]
  generalize (none : Option (Lexeme × Nat)) = best
  induction rules generalizing best with
  | nil => rfl
  | cons rule rules ih =>
    have ih' := ih fun r hr => h r (List.mem_cons_of_mem _ hr)
    by_cases ht : test rule = true
    · rw [List.filter_cons_of_pos ht, List.foldl_cons, List.foldl_cons]
      exact ih' _
    · rw [List.filter_cons_of_neg ht, List.foldl_cons]
      have hnone := h rule List.mem_cons_self (by simpa using ht)
      have hstep : improve source best rule = best := by simp only [improve, hnone]
      rw [hstep]
      exact ih' _

/-- No rule of the grammar matches the empty text. -/
theorem not_nullable_of_mem_rules {rule : LexicalRule} (h : rule ∈ rules) :
    rule.pattern.nullable = false := by
  have hall : ∀ rule ∈ rules, rule.pattern.nullable = false := by decide
  exact hall rule h

/-- The rules that can go on after a first character. -/
def rulesAfter (c : Char) : List LexicalRule :=
  rules.filter fun rule => decide (rule.pattern.deriv c ≠ .never)

/-- Only the rules that can go on after the first character take part in the choice. -/
theorem bestMatch_rulesAfter (c : Char) (cs : List Char) :
    bestMatch (rulesAfter c) (c :: cs) = bestMatch rules (c :: cs) := by
  apply bestMatch_filter
  intro rule hrule ht
  have hnever : rule.pattern.deriv c = .never := by simpa using ht
  rw [Regex.longestMatch_cons (not_nullable_of_mem_rules hrule), hnever,
    Regex.longestMatch_never]
  rfl

end Grammar

end ManifestSpacing
