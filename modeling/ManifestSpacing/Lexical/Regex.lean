import ManifestSpacing.Lexical.CharSet

/-!
# Regular expressions with longest match

Matching takes derivatives: the derivative by a character is an expression for
what may follow it. `Regex.Matches` says which texts an expression denotes,
and `Regex.longestMatch` finds the longest prefix of a text that it denotes,
stopping as soon as no longer prefix can match.
-/

namespace ManifestSpacing

/-- A regular expression over characters. -/
inductive Regex where
  /-- Matches nothing. -/
  | never
  /-- Matches the empty text. -/
  | epsilon
  /-- Matches one character of a set. -/
  | chars (set : CharSet)
  /-- Matches one expression and then another. -/
  | seq (first second : Regex)
  /-- Matches either of two expressions. -/
  | alt (first second : Regex)
  /-- Matches any number of repetitions. -/
  | star (body : Regex)
  deriving DecidableEq, Repr

namespace Regex

/-- The texts that an expression denotes. -/
inductive Matches : Regex → List Char → Prop where
  | epsilon : Matches .epsilon []
  | chars {set : CharSet} {c : Char} (h : set.contains c = true) : Matches (.chars set) [c]
  | seq {r s : Regex} {as bs : List Char} (hr : Matches r as) (hs : Matches s bs) :
      Matches (.seq r s) (as ++ bs)
  | altLeft {r s : Regex} {as : List Char} (h : Matches r as) : Matches (.alt r s) as
  | altRight {r s : Regex} {as : List Char} (h : Matches s as) : Matches (.alt r s) as
  | starNil {r : Regex} : Matches (.star r) []
  | starCons {r : Regex} {as bs : List Char} (hr : Matches r as) (hs : Matches (.star r) bs) :
      Matches (.star r) (as ++ bs)

/-- Whether the expression matches the empty text. -/
def nullable : Regex → Bool
  | .never | .chars _ => false
  | .epsilon | .star _ => true
  | .seq r s => r.nullable && s.nullable
  | .alt r s => r.nullable || s.nullable

/-- Concatenation that drops trivial operands. -/
def cat : Regex → Regex → Regex
  | .never, _ => .never
  | .epsilon, s => s
  | r, s => .seq r s

/-- Choice that drops operands without matches. -/
def orElse : Regex → Regex → Regex
  | .never, s => s
  | r, .never => r
  | r, s => .alt r s

/-- What may follow a character in the texts of an expression. -/
def deriv (c : Char) : Regex → Regex
  | .never | .epsilon => .never
  | .chars set => if set.contains c then .epsilon else .never
  | .seq r s => if r.nullable then orElse (cat (r.deriv c) s) (s.deriv c) else cat (r.deriv c) s
  | .alt r s => orElse (r.deriv c) (s.deriv c)
  | .star r => cat (r.deriv c) (.star r)

/-- The length of the longest prefix that matches. -/
def longestMatch (r : Regex) : List Char → Option Nat
  | [] => if r.nullable then some 0 else none
  | c :: cs =>
    if r = .never then none
    else
      match (r.deriv c).longestMatch cs with
      | some n => some (n + 1)
      | none => if r.nullable then some 0 else none

/-! ## Writing expressions -/

/-- Exactly the characters of a text, in order. -/
def literal (text : String) : Regex :=
  text.toList.foldr (fun c r => cat (.chars ⟨[(c, c)], false⟩) r) .epsilon

/-- One or more repetitions. -/
def plus (r : Regex) : Regex := .seq r (.star r)

/-- At most one occurrence. -/
def optional (r : Regex) : Regex := .alt .epsilon r

/-- Some expressions one after the other. -/
def sequence (rs : List Regex) : Regex := rs.foldr cat .epsilon

/-- Any one of some expressions. -/
def choice (rs : List Regex) : Regex := rs.foldr orElse .never

/-! ## Meaning of the operations -/

theorem not_matches_never (as : List Char) : ¬ Matches .never as := nofun

theorem matches_epsilon_iff {as : List Char} : Matches .epsilon as ↔ as = [] :=
  ⟨fun h => by cases h; rfl, fun h => h ▸ .epsilon⟩

theorem matches_chars_iff {set : CharSet} {as : List Char} :
    Matches (.chars set) as ↔ ∃ c, as = [c] ∧ set.contains c = true :=
  ⟨fun h => by cases h with | chars hc => exact ⟨_, rfl, hc⟩,
    fun ⟨_, h, hc⟩ => h ▸ .chars hc⟩

theorem matches_seq_iff {r s : Regex} {as : List Char} :
    Matches (.seq r s) as ↔ ∃ bs cs, as = bs ++ cs ∧ Matches r bs ∧ Matches s cs :=
  ⟨fun h => by cases h with | seq hr hs => exact ⟨_, _, rfl, hr, hs⟩,
    fun ⟨_, _, h, hr, hs⟩ => h ▸ .seq hr hs⟩

theorem matches_alt_iff {r s : Regex} {as : List Char} :
    Matches (.alt r s) as ↔ Matches r as ∨ Matches s as :=
  ⟨fun h => by cases h with | altLeft h => exact .inl h | altRight h => exact .inr h,
    fun h => h.elim .altLeft .altRight⟩

/-- An expression is nullable exactly when it matches the empty text. -/
theorem nullable_iff (r : Regex) : r.nullable = true ↔ Matches r [] := by
  induction r with
  | never => simp [nullable, not_matches_never]
  | epsilon => simp [nullable, matches_epsilon_iff]
  | chars set => simp [nullable, matches_chars_iff]
  | seq r s ihr ihs =>
    simp only [nullable, Bool.and_eq_true, ihr, ihs, matches_seq_iff]
    constructor
    · exact fun ⟨hr, hs⟩ => ⟨[], [], rfl, hr, hs⟩
    · rintro ⟨bs, cs, h, hr, hs⟩
      obtain ⟨rfl, rfl⟩ := List.append_eq_nil_iff.mp h.symm
      exact ⟨hr, hs⟩
  | alt r s ihr ihs => simp [nullable, ihr, ihs, matches_alt_iff]
  | star r => simp [nullable, Matches.starNil]

/-- The trimmed concatenation denotes the concatenation. -/
theorem matches_cat_iff {r s : Regex} {as : List Char} :
    Matches (cat r s) as ↔ Matches (.seq r s) as := by
  cases r <;> simp only [cat, matches_seq_iff, not_matches_never, matches_epsilon_iff]
  · simp
  · constructor
    · exact fun h => ⟨[], as, rfl, rfl, h⟩
    · rintro ⟨bs, cs, rfl, rfl, h⟩
      exact h

/-- The trimmed choice denotes the choice. -/
theorem matches_orElse_iff {r s : Regex} {as : List Char} :
    Matches (orElse r s) as ↔ Matches (.alt r s) as := by
  cases r <;> cases s <;>
    simp only [orElse, matches_alt_iff, not_matches_never, false_or, or_false]

/-- Leading empty repetitions can be dropped from a nonempty match. -/
theorem matches_star_cons_iff {r : Regex} {c : Char} {as : List Char} :
    Matches (.star r) (c :: as) ↔
      ∃ bs cs, as = bs ++ cs ∧ Matches r (c :: bs) ∧ Matches (.star r) cs := by
  constructor
  · intro h
    generalize hs : Regex.star r = s at h
    generalize ht : c :: as = t at h
    induction h with
    | epsilon | chars | seq | altLeft | altRight => cases hs
    | starNil => cases ht
    | @starCons r' bs cs hr hstar _ ihs =>
      cases hs
      cases bs with
      | nil => exact ihs rfl ht
      | cons b bs =>
        obtain ⟨rfl, rfl⟩ := List.cons.inj ht
        exact ⟨bs, cs, rfl, hr, hstar⟩
  · rintro ⟨bs, cs, rfl, hr, hs⟩
    exact @Matches.starCons r (c :: bs) cs hr hs

/-- A derivative denotes the texts that follow its character. -/
theorem matches_deriv_iff (r : Regex) (c : Char) (as : List Char) :
    Matches (r.deriv c) as ↔ Matches r (c :: as) := by
  induction r generalizing as with
  | never => simp [deriv, not_matches_never]
  | epsilon => simp [deriv, not_matches_never, matches_epsilon_iff]
  | chars set =>
    simp only [deriv]
    split <;> rename_i h
    · simp only [matches_epsilon_iff, matches_chars_iff, List.cons.injEq]
      exact ⟨fun ha => ⟨c, ⟨rfl, ha⟩, h⟩, fun ⟨_, ⟨_, ha⟩, _⟩ => ha⟩
    · simp only [not_matches_never, matches_chars_iff, List.cons.injEq, false_iff]
      rintro ⟨d, ⟨rfl, -⟩, hd⟩
      exact h hd
  | seq r s ihr ihs =>
    have hsplit : Matches (.seq r s) (c :: as) ↔
        Matches (.seq (r.deriv c) s) as ∨ (Matches r [] ∧ Matches s (c :: as)) := by
      simp only [matches_seq_iff]
      constructor
      · rintro ⟨bs, cs, h, hr, hs⟩
        cases bs with
        | nil => exact .inr ⟨hr, by rw [h]; exact hs⟩
        | cons b bs =>
          obtain ⟨rfl, rfl⟩ := List.cons.inj h
          exact .inl ⟨bs, cs, rfl, (ihr bs).mpr hr, hs⟩
      · rintro (⟨bs, cs, rfl, hr, hs⟩ | ⟨hr, hs⟩)
        · exact ⟨c :: bs, cs, rfl, (ihr bs).mp hr, hs⟩
        · exact ⟨[], c :: as, rfl, hr, hs⟩
    simp only [deriv]
    split <;> rename_i h
    · rw [matches_orElse_iff, matches_alt_iff, matches_cat_iff, ihs, hsplit]
      simp [(nullable_iff r).mp h]
    · rw [matches_cat_iff, hsplit]
      simp [← nullable_iff, h]
  | alt r s ihr ihs => simp only [deriv, matches_orElse_iff, matches_alt_iff, ihr, ihs]
  | star r ih =>
    simp only [deriv, matches_cat_iff, matches_seq_iff, matches_star_cons_iff, ih]

/-- There is no longest match only when no prefix matches. -/
theorem not_matches_of_longestMatch_eq_none {r : Regex} {as : List Char}
    (h : r.longestMatch as = none) (n : Nat) : ¬ Matches r (as.take n) := by
  induction as generalizing r n with
  | nil =>
    simp only [longestMatch] at h
    split at h
    · cases h
    · rename_i hnull
      rw [List.take_nil, ← nullable_iff]
      exact hnull
  | cons c cs ih =>
    simp only [longestMatch] at h
    split at h
    · rename_i hr
      exact hr ▸ not_matches_never _
    · split at h
      · cases h
      · rename_i hnone
        split at h
        · cases h
        · rename_i hnull
          cases n with
          | zero =>
            rw [List.take_zero, ← nullable_iff]
            exact hnull
          | succ n =>
            rw [List.take_succ_cons, ← matches_deriv_iff]
            exact ih hnone n

/-- The longest match is a matching prefix that no longer prefix beats. -/
theorem longestMatch_eq_some {r : Regex} {as : List Char} {n : Nat}
    (h : r.longestMatch as = some n) :
    n ≤ as.length ∧ Matches r (as.take n) ∧
      ∀ m, n < m → m ≤ as.length → ¬ Matches r (as.take m) := by
  induction as generalizing r n with
  | nil =>
    simp only [longestMatch] at h
    split at h <;> simp_all [nullable_iff]
  | cons c cs ih =>
    simp only [longestMatch] at h
    split at h
    · cases h
    · split at h
      · rename_i k hk
        cases h
        obtain ⟨hle, hm, hmax⟩ := ih hk
        refine ⟨by simpa using hle, by simpa [matches_deriv_iff] using hm, ?_⟩
        intro m hlt hlen
        cases m with
        | zero => omega
        | succ m =>
          rw [List.take_succ_cons, ← matches_deriv_iff]
          exact hmax m (by omega) (by simpa using hlen)
      · rename_i hnone
        split at h
        · cases h
          rename_i hnull
          refine ⟨Nat.zero_le _, (nullable_iff r).mp hnull, fun m hlt _ => ?_⟩
          cases m with
          | zero => omega
          | succ m =>
            rw [List.take_succ_cons, ← matches_deriv_iff]
            exact not_matches_of_longestMatch_eq_none hnone m
        · cases h

end Regex

end ManifestSpacing
