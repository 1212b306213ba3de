import ManifestSpacing.Structure.ValueConditional
import Mathlib.Data.List.Range
import Mathlib.Order.Monotone.Basic

/-!
# Structure without blanks

Dropping tokens that carry no structure moves every other token to a new
place, and nothing else changes: neighbours, matched delimiters and the braces
of conditionals in value position are found at the moved places. The kinds
that are dropped may be the blanks alone or all trivia.
-/

namespace ManifestSpacing

namespace Neighbors

section Nearest

variable {test : TokenKind → Bool} {kinds : List TokenKind} {i j : Nat}

/-- A neighbour after an index satisfies the test, and nothing in between does. -/
theorem after?_eq_some (h : after? test kinds i = some j) :
    i < j ∧ (kinds[j]?).any test = true ∧
      ∀ m, i < m → m < j → (kinds[m]?).any test = false := by
  obtain ⟨k, hk, rfl⟩ := Option.map_eq_some_iff.mp h
  obtain ⟨hlt, htest, hfirst⟩ := List.findIdx?_eq_some_iff_getElem.mp hk
  have hdrop (m : Nat) : kinds[m + (i + 1)]? = (kinds.drop (i + 1))[m]? := by
    rw [List.getElem?_drop, Nat.add_comm]
  refine ⟨by omega, ?_, ?_⟩
  · rw [hdrop, List.getElem?_eq_getElem hlt]
    exact htest
  · intro m him hmj
    obtain ⟨n, rfl⟩ := Nat.exists_eq_add_of_lt him
    rw [show i + n + 1 = n + (i + 1) by omega, hdrop, List.getElem?_eq_getElem (by omega)]
    simpa using hfirst n (by omega)

/-- Without a neighbour after an index nothing behind it satisfies the test. -/
theorem after?_eq_none (h : after? test kinds i = none) {m : Nat} (hm : i < m) :
    (kinds[m]?).any test = false := by
  have hnone := List.findIdx?_eq_none_iff.mp (Option.map_eq_none_iff.mp h)
  cases hkind : kinds[m]? with
  | none => rfl
  | some kind =>
    apply hnone kind
    rw [List.mem_iff_getElem?]
    exact ⟨m - (i + 1), by rw [List.getElem?_drop, ← hkind]; congr 1; omega⟩

private theorem lastBelow?_eq_some {bound : Nat} (h : lastBelow? test kinds bound = some j) :
    (kinds[j]?).any test = true ∧
      ∀ m, j < m → m < bound → (kinds[m]?).any test = false := by
  induction bound with
  | zero => cases h
  | succ b ih =>
    simp only [lastBelow?] at h
    split at h
    · rename_i htest
      cases h
      exact ⟨htest, fun m _ _ => by omega⟩
    · rename_i htest
      obtain ⟨hj, hbetween⟩ := ih h
      refine ⟨hj, fun m hjm hm => ?_⟩
      by_cases hmb : m = b
      · rw [hmb]
        exact Bool.eq_false_iff.mpr htest
      · exact hbetween m hjm (by omega)

private theorem lastBelow?_eq_none {bound m : Nat} (h : lastBelow? test kinds bound = none)
    (hm : m < bound) : (kinds[m]?).any test = false := by
  induction bound with
  | zero => omega
  | succ b ih =>
    simp only [lastBelow?] at h
    split at h
    · cases h
    · rename_i htest
      by_cases hmb : m = b
      · rw [hmb]
        exact Bool.eq_false_iff.mpr htest
      · exact ih h (by omega)

private theorem any_eq_false_of_length_le (h : kinds.length ≤ i) :
    (kinds[i]?).any test = false := by
  rw [List.getElem?_eq_none h]
  rfl

/-- A neighbour before an index satisfies the test, and nothing in between does. -/
theorem before?_eq_some (h : before? test kinds i = some j) :
    j < i ∧ (kinds[j]?).any test = true ∧
      ∀ m, j < m → m < i → (kinds[m]?).any test = false := by
  obtain ⟨hj, hbetween⟩ := lastBelow?_eq_some h
  refine ⟨before?_lt h, hj, fun m hjm hmi => ?_⟩
  by_cases hm : m < kinds.length
  · exact hbetween m hjm (by omega)
  · exact any_eq_false_of_length_le (by omega)

/-- Without a neighbour before an index nothing in front of it satisfies the test. -/
theorem before?_eq_none (h : before? test kinds i = none) {m : Nat} (hm : m < i) :
    (kinds[m]?).any test = false := by
  by_cases hlt : m < kinds.length
  · exact lastBelow?_eq_none h (by omega)
  · exact any_eq_false_of_length_le (by omega)

/-- The neighbour after an index is the one place behind it with nothing in between. -/
theorem after?_eq_some_iff : after? test kinds i = some j ↔
    i < j ∧ (kinds[j]?).any test = true ∧ ∀ m, i < m → m < j → (kinds[m]?).any test = false := by
  refine ⟨after?_eq_some, ?_⟩
  rintro ⟨hij, htest, hbetween⟩
  cases hfound : after? test kinds i with
  | none => rw [after?_eq_none hfound hij] at htest; cases htest
  | some k =>
    obtain ⟨hik, htest', hbetween'⟩ := after?_eq_some hfound
    rcases Nat.lt_trichotomy k j with hlt | rfl | hlt
    · rw [hbetween k hik hlt] at htest'; cases htest'
    · rfl
    · rw [hbetween' j hij hlt] at htest; cases htest

/-- The neighbour before an index is the one place in front of it with nothing in between. -/
theorem before?_eq_some_iff : before? test kinds i = some j ↔
    j < i ∧ (kinds[j]?).any test = true ∧ ∀ m, j < m → m < i → (kinds[m]?).any test = false := by
  refine ⟨before?_eq_some, ?_⟩
  rintro ⟨hji, htest, hbetween⟩
  cases hfound : before? test kinds i with
  | none => rw [before?_eq_none hfound hji] at htest; cases htest
  | some k =>
    obtain ⟨hki, htest', hbetween'⟩ := before?_eq_some hfound
    rcases Nat.lt_trichotomy k j with hlt | rfl | hlt
    · rw [hbetween' j hlt hji] at htest; cases htest
    · rfl
    · rw [hbetween k hlt hki] at htest'; cases htest'

section Gap

variable {xs gap ys : List TokenKind} {a b : TokenKind}

private theorem any_between (hgap : ∀ kind ∈ gap, test kind = false) {m : Nat}
    (hlow : xs.length < m) (hhigh : m < xs.length + 1 + gap.length) :
    ((xs ++ a :: (gap ++ b :: ys))[m]?).any test = false := by
  obtain ⟨n, rfl⟩ := Nat.exists_eq_add_of_lt hlow
  have hn : n < gap.length := by omega
  rw [List.getElem?_append_right (by omega),
    show xs.length + n + 1 - xs.length = n + 1 by omega, List.getElem?_cons_succ,
    List.getElem?_append_left hn, List.getElem?_eq_getElem hn]
  exact hgap _ (List.getElem_mem hn)

/-- The neighbour after an index stands behind all that fails the test. -/
theorem after?_append (hgap : ∀ kind ∈ gap, test kind = false) (hb : test b = true) :
    after? test (xs ++ a :: (gap ++ b :: ys)) xs.length = some (xs.length + 1 + gap.length) := by
  refine after?_eq_some_iff.mpr ⟨by omega, ?_, fun m => any_between hgap⟩
  rw [List.getElem?_append_right (by omega),
    show xs.length + 1 + gap.length - xs.length = gap.length + 1 by omega,
    List.getElem?_cons_succ, List.getElem?_append_right (Nat.le_refl _), Nat.sub_self]
  exact hb

/-- The neighbour before an index stands in front of all that fails the test. -/
theorem before?_append (hgap : ∀ kind ∈ gap, test kind = false) (ha : test a = true) :
    before? test (xs ++ a :: (gap ++ b :: ys)) (xs.length + 1 + gap.length) = some xs.length := by
  refine before?_eq_some_iff.mpr ⟨by omega, ?_, fun m => any_between hgap⟩
  rw [List.getElem?_append_right (Nat.le_refl _), Nat.sub_self]
  exact ha

end Gap

end Nearest

end Neighbors

namespace Skeleton

/-! ## Equations of the searches -/

private theorem pairsFrom_cons (family : Family) (stack : List Nat) (i : Nat) (kind : TokenKind)
    (kinds : List TokenKind) : family.pairsFrom stack i (kind :: kinds) =
      if kind = family.opener then family.pairsFrom (i :: stack) (i + 1) kinds
      else if kind = family.closer then
        match stack with
        | [] => family.pairsFrom [] (i + 1) kinds
        | opened :: stack => (opened, i) :: family.pairsFrom stack (i + 1) kinds
      else family.pairsFrom stack (i + 1) kinds := by
  cases stack <;> rfl

/-- The search for a branch brace looks at one kind and goes on behind it. -/
theorem branchOpen?_eq (kinds : List TokenKind) (pairing : Pairing) (i : Nat) :
    ValueConditional.branchOpen? kinds pairing i =
      match kinds[i]? with
      | none => none
      | some kind =>
        if kind = .openBrace then some i
        else if kind = .openParen ∨ kind = .openBracket then
          (pairing.closerOf? i).bind fun closer =>
            ValueConditional.branchOpen? kinds pairing (closer + 1)
        else ValueConditional.branchOpen? kinds pairing (i + 1) := by
  rw [ValueConditional.branchOpen?]
  by_cases inside : i < kinds.length
  · rw [dif_pos inside, List.getElem?_eq_getElem inside]
    dsimp only
    congr 2
    split <;> simp_all
  · rw [dif_neg inside, List.getElem?_eq_none (by omega)]

/-- The braces of a branch come before those of the alternatives that continue it. -/
theorem branchBraces_eq (kinds : List TokenKind) (pairing : Pairing) (cursor : Nat) :
    ValueConditional.branchBraces kinds pairing cursor =
      match ValueConditional.branchOpen? kinds pairing (cursor + 1) with
      | none => []
      | some opened =>
        match pairing.closerOf? opened with
        | none => []
        | some closer =>
          match Neighbors.nextCode? kinds closer with
          | none => [opened, closer]
          | some next =>
            if kinds[next]? = some .elseWord ∨ kinds[next]? = some .elsifWord then
              opened :: closer :: ValueConditional.branchBraces kinds pairing next
            else [opened, closer] := by
  rw [ValueConditional.branchBraces]
  split
  · rename_i hopening
    rw [hopening]
  · rename_i opened hopening
    split
    · rename_i hclosing
      simp only [hopening, hclosing]
    · rename_i closer hclosing
      split
      · rename_i hfollowing
        simp only [hopening, hclosing, hfollowing]
      · rename_i next hfollowing
        simp only [hopening, hclosing, hfollowing]

/-! ## Places -/

section Places

variable {α : Type} (keep : α → Bool)

/-- The place in a sequence of its `k`-th element that is kept. Counting goes on behind the end. -/
def place : List α → Nat → Nat
  | [], k => k
  | a :: as, k =>
    if keep a then
      match k with
      | 0 => 0
      | k + 1 => place as k + 1
    else place as k + 1

variable {keep}

theorem place_of_drop {a : α} (h : keep a = false) (as : List α) (k : Nat) :
    place keep (a :: as) k = place keep as k + 1 := by
  simp [place, h]

theorem place_zero_of_keep {a : α} (h : keep a = true) (as : List α) :
    place keep (a :: as) 0 = 0 := by
  simp [place, h]

theorem place_succ_of_keep {a : α} (h : keep a = true) (as : List α) (k : Nat) :
    place keep (a :: as) (k + 1) = place keep as k + 1 := by
  simp [place, h]

/-- A kept element stands at its place. -/
theorem getElem?_place (as : List α) (k : Nat) :
    as[place keep as k]? = (as.filter keep)[k]? := by
  induction as generalizing k with
  | nil => simp
  | cons a as ih =>
    cases ha : keep a with
    | false =>
      rw [place_of_drop ha, List.filter_cons_of_neg (by simp [ha]), List.getElem?_cons_succ, ih]
    | true =>
      rw [List.filter_cons_of_pos ha]
      cases k with
      | zero => rw [place_zero_of_keep ha]; rfl
      | succ k => rw [place_succ_of_keep ha, List.getElem?_cons_succ, List.getElem?_cons_succ, ih]

/-- Places keep their order. -/
theorem strictMono_place (as : List α) : StrictMono (place keep as) := by
  apply strictMono_nat_of_lt_succ
  intro k
  induction as generalizing k with
  | nil => exact Nat.lt_succ_self k
  | cons a as ih =>
    cases ha : keep a with
    | false =>
      rw [place_of_drop ha, place_of_drop ha]
      exact Nat.succ_lt_succ (ih k)
    | true =>
      cases k with
      | zero =>
        rw [place_zero_of_keep ha, place_succ_of_keep ha]
        exact Nat.succ_pos _
      | succ k =>
        rw [place_succ_of_keep ha, place_succ_of_keep ha]
        exact Nat.succ_lt_succ (ih k)

theorem place_inj {as : List α} {k m : Nat} :
    place keep as k = place keep as m ↔ k = m :=
  (strictMono_place as).injective.eq_iff

/-- The places are the indices of the kept elements, in order. -/
theorem filter_range_eq_map_place (as : List α) :
    ((List.range as.length).filter fun i => (as[i]?).any keep) =
      (List.range (as.filter keep).length).map (place keep as) := by
  induction as with
  | nil => rfl
  | cons a as ih =>
    have hshift : ((List.range as.length).map Nat.succ).filter
        (fun i => ((a :: as)[i]?).any keep) =
          (List.range (as.filter keep).length).map fun k => place keep as k + 1 := by
      rw [List.filter_map]
      have hcongr : ((fun i => ((a :: as)[i]?).any keep) ∘ Nat.succ) =
          fun i => (as[i]?).any keep := by
        funext i
        simp
      rw [hcongr, ih, List.map_map]
      rfl
    rw [List.length_cons, List.range_succ_eq_map]
    cases ha : keep a with
    | false =>
      rw [List.filter_cons_of_neg (by simp [ha]), List.filter_cons_of_neg (by simp [ha]), hshift]
      exact List.map_congr_left fun k _ => (place_of_drop ha as k).symm
    | true =>
      rw [List.filter_cons_of_pos (by simp [ha]), List.filter_cons_of_pos ha, hshift,
        List.length_cons, List.range_succ_eq_map, List.map_cons, place_zero_of_keep ha,
        List.map_map]
      exact congrArg (0 :: ·) (List.map_congr_left fun k _ => (place_succ_of_keep ha as k).symm)

/-- Indices that satisfy a test of kept elements are the places that satisfy it. -/
theorem filter_range_eq_map {as : List α} {test : Nat → Bool}
    (h : ∀ i, test i = true → (as[i]?).any keep = true) :
    (List.range as.length).filter test =
      ((List.range (as.filter keep).length).filter fun k => test (place keep as k)).map
        (place keep as) := by
  have hboth : (List.range as.length).filter test =
      ((List.range as.length).filter fun i => (as[i]?).any keep).filter test := by
    rw [List.filter_filter]
    apply List.filter_congr
    intro i _
    cases htest : test i with
    | false => rfl
    | true => simp [h i htest]
  rw [hboth, filter_range_eq_map_place, List.filter_map]
  rfl

/-- Every kept element has a place. -/
theorem exists_place_eq {as : List α} {i : Nat} (h : (as[i]?).any keep = true) :
    ∃ k, place keep as k = i := by
  have hlt : i < as.length := by
    by_contra hge
    rw [List.getElem?_eq_none (by omega)] at h
    cases h
  have hmem : i ∈ (List.range as.length).filter fun i => (as[i]?).any keep :=
    List.mem_filter.mpr ⟨List.mem_range.mpr hlt, h⟩
  rw [filter_range_eq_map_place] at hmem
  obtain ⟨k, _, hk⟩ := List.mem_map.mp hmem
  exact ⟨k, hk⟩

/-- The place behind some elements, if a kept one stands there. -/
theorem place_append {as bs : List α} {b : α} (hb : keep b = true) :
    place keep (as ++ b :: bs) (as.filter keep).length = as.length := by
  induction as with
  | nil => exact place_zero_of_keep hb bs
  | cons a as ih =>
    cases ha : keep a with
    | false =>
      rw [List.filter_cons_of_neg (by simp [ha]), List.cons_append, place_of_drop ha, ih]
      rfl
    | true =>
      rw [List.filter_cons_of_pos ha, List.cons_append, List.length_cons, place_succ_of_keep ha, ih]
      rfl

/-- Mapping the elements moves no place. -/
theorem place_map {β : Type} (f : β → α) (bs : List β) (k : Nat) :
    place keep (bs.map f) k = place (keep ∘ f) bs k := by
  induction bs generalizing k with
  | nil => rfl
  | cons b bs ih =>
    rw [List.map_cons]
    cases hb : (keep ∘ f) b with
    | false => rw [place_of_drop hb, @place_of_drop _ keep _ hb, ih]
    | true =>
      cases k with
      | zero => rw [place_zero_of_keep hb, @place_zero_of_keep _ keep _ hb]
      | succ k => rw [place_succ_of_keep hb, @place_succ_of_keep _ keep _ hb, ih]

end Places

/-! ## Neighbours -/

section Structure

variable {keep : TokenKind → Bool} {kinds : List TokenKind}

theorem any_place (test : TokenKind → Bool) (k : Nat) :
    (kinds[place keep kinds k]?).any test = ((kinds.filter keep)[k]?).any test := by
  rw [getElem?_place]

/-- Whatever satisfies a test of kept kinds stands at a place. -/
theorem exists_place_of_any {test : TokenKind → Bool}
    (htest : ∀ kind, test kind = true → keep kind = true) {i : Nat}
    (h : (kinds[i]?).any test = true) : ∃ k, place keep kinds k = i := by
  apply exists_place_eq
  obtain ⟨kind, hkind, hyes⟩ := (Option.any_eq_true _ _).mp h
  rw [hkind]
  exact htest kind hyes

/-- What a search for the nearest index in a direction comes up with. -/
private def Nearest (ahead : Nat → Nat → Prop) (test : TokenKind → Bool) (kinds : List TokenKind)
    (i : Nat) : Option Nat → Prop
  | none => ∀ m, ahead i m → (kinds[m]?).any test = false
  | some j => ahead i j ∧ (kinds[j]?).any test = true ∧
    ∀ m, ahead i m → ahead m j → (kinds[m]?).any test = false

/-- The nearest index is the place of the nearest one, if places keep the direction. -/
private theorem nearest_place {test : TokenKind → Bool}
    (htest : ∀ kind, test kind = true → keep kind = true) {ahead : Nat → Nat → Prop} {k : Nat}
    {found kept : Option Nat} (hfound : Nearest ahead test kinds (place keep kinds k) found)
    (hkept : Nearest ahead test (kinds.filter keep) k kept)
    (hplace : ∀ {k m : Nat}, ahead (place keep kinds k) (place keep kinds m) ↔ ahead k m)
    (htotal : ∀ m n : Nat, ahead m n ∨ m = n ∨ ahead n m) :
    found = kept.map (place keep kinds) := by
  cases found with
  | none =>
    cases kept with
    | none => rfl
    | some m =>
      have hm := hkept.2.1
      rw [← any_place, hfound _ (hplace.mpr hkept.1)] at hm
      cases hm
  | some j =>
    obtain ⟨hahead, hj, hbetween⟩ := hfound
    obtain ⟨n, rfl⟩ := exists_place_of_any htest hj
    rw [hplace] at hahead
    rw [any_place] at hj
    cases kept with
    | none =>
      rw [hkept n hahead] at hj
      cases hj
    | some m =>
      obtain ⟨hkm, hm, hbetween'⟩ := hkept
      rcases htotal n m with hnm | rfl | hmn
      · rw [hbetween' n hahead hnm] at hj
        cases hj
      · rfl
      · rw [← any_place, hbetween _ (hplace.mpr hkm) (hplace.mpr hmn)] at hm
        cases hm

/-- A neighbour after a place is the place of the neighbour. -/
theorem after?_place {test : TokenKind → Bool} (htest : ∀ kind, test kind = true → keep kind = true)
    (k : Nat) : Neighbors.after? test kinds (place keep kinds k) =
      (Neighbors.after? test (kinds.filter keep) k).map (place keep kinds) := by
  have hnearest (kinds : List TokenKind) (i : Nat) :
      Nearest (· < ·) test kinds i (Neighbors.after? test kinds i) := by
    cases h : Neighbors.after? test kinds i with
    | none => exact fun m hm => Neighbors.after?_eq_none h hm
    | some j => exact Neighbors.after?_eq_some h
  exact nearest_place htest (hnearest kinds _) (hnearest _ k) (strictMono_place kinds).lt_iff_lt
    Nat.lt_trichotomy

/-- A neighbour before a place is the place of the neighbour. -/
theorem before?_place {test : TokenKind → Bool}
    (htest : ∀ kind, test kind = true → keep kind = true) (k : Nat) :
    Neighbors.before? test kinds (place keep kinds k) =
      (Neighbors.before? test (kinds.filter keep) k).map (place keep kinds) := by
  have hnearest (kinds : List TokenKind) (i : Nat) :
      Nearest (· > ·) test kinds i (Neighbors.before? test kinds i) := by
    cases h : Neighbors.before? test kinds i with
    | none => exact fun m hm => Neighbors.before?_eq_none h hm
    | some j =>
      obtain ⟨hj, htestj, hbetween⟩ := Neighbors.before?_eq_some h
      exact ⟨hj, htestj, fun m hmi hjm => hbetween m hjm hmi⟩
  exact nearest_place htest (hnearest kinds _) (hnearest _ k) (strictMono_place kinds).lt_iff_lt
    fun m n => (Nat.lt_trichotomy n m).imp_right (Or.imp_left Eq.symm)

/-! ## Delimiters -/

/-- Matching goes on with the moved openers as it does with the kept ones, if the delimiters of the
family are kept. -/
theorem pairsFrom_place {family : Family} (hopener : keep family.opener = true)
    (hcloser : keep family.closer = true) {f : Nat → Nat} {stack : List Nat} {i k : Nat}
    (hf : ∀ m, f (k + m) = i + place keep kinds m) :
    family.pairsFrom (stack.map f) i kinds =
      (family.pairsFrom stack k (kinds.filter keep)).map (Prod.map f f) := by
  induction kinds generalizing stack i k with
  | nil => rfl
  | cons kind kinds ih =>
    cases hkind : keep kind with
    | false =>
      have hopen : kind ≠ family.opener := by
        rintro rfl
        exact Bool.false_ne_true (hkind.symm.trans hopener)
      have hclose : kind ≠ family.closer := by
        rintro rfl
        exact Bool.false_ne_true (hkind.symm.trans hcloser)
      rw [List.filter_cons_of_neg (by simp [hkind]), pairsFrom_cons, if_neg hopen, if_neg hclose]
      apply ih
      intro m
      rw [hf m, place_of_drop hkind]
      omega
    | true =>
      have hhere : f k = i := by
        have hh := hf 0
        rwa [place_zero_of_keep hkind] at hh
      have hnext : ∀ m, f (k + 1 + m) = i + 1 + place keep kinds m := by
        intro m
        have hh := hf (m + 1)
        rw [place_succ_of_keep hkind] at hh
        rw [show k + 1 + m = k + (m + 1) by omega, hh]
        omega
      rw [List.filter_cons_of_pos hkind, pairsFrom_cons, pairsFrom_cons]
      split
      · have hpush := @ih (k :: stack) (i + 1) (k + 1) hnext
        rwa [List.map_cons, hhere] at hpush
      · split
        · cases stack with
          | nil => exact @ih [] (i + 1) (k + 1) hnext
          | cons opened stack =>
            rw [List.map_cons]
            dsimp only
            rw [List.map_cons, ih hnext]
            exact congrArg (· :: _) (Prod.ext rfl hhere.symm)
        · exact ih hnext

/-- The pairs of a family are the moved pairs, if its delimiters are kept. -/
theorem family_pairs_place {family : Family} (hopener : keep family.opener = true)
    (hcloser : keep family.closer = true) : family.pairs kinds =
      (family.pairs (kinds.filter keep)).map (Prod.map (place keep kinds) (place keep kinds)) :=
  @pairsFrom_place keep kinds family hopener hcloser (place keep kinds) [] 0 0 fun m => by simp

variable (hkeep : ∀ kind : TokenKind, kind.isTrivia = false → keep kind = true)

include hkeep

/-- The pairs of all families are the moved pairs. -/
theorem pairs_place : (Pairing.ofKinds kinds).pairs =
    (Pairing.ofKinds (kinds.filter keep)).pairs.map
      (Prod.map (place keep kinds) (place keep kinds)) := by
  simp only [Pairing.ofKinds, List.map_flatMap]
  congr 1
  funext family
  exact family_pairs_place (hkeep _ (by cases family <;> rfl)) (hkeep _ (by cases family <;> rfl))

/-- The pair that has a moved index at one of its ends is the moved pair. -/
private theorem find?_pairs_place {side : Nat × Nat → Nat}
    (hside : ∀ p, side (Prod.map (place keep kinds) (place keep kinds) p) =
      place keep kinds (side p)) (k : Nat) :
    ((Pairing.ofKinds kinds).pairs.find? fun p => side p == place keep kinds k) =
      ((Pairing.ofKinds (kinds.filter keep)).pairs.find? fun p => side p == k).map
        (Prod.map (place keep kinds) (place keep kinds)) := by
  have htest : ((fun p => side p == place keep kinds k) ∘
      Prod.map (place keep kinds) (place keep kinds)) = fun p => side p == k := by
    funext p
    rw [Function.comp_apply, hside, Bool.eq_iff_iff, beq_iff_eq, beq_iff_eq, place_inj]
  rw [pairs_place hkeep, List.find?_map, htest]

/-- The closer of a moved opener is the moved closer. -/
theorem closerOf?_place (k : Nat) :
    (Pairing.ofKinds kinds).closerOf? (place keep kinds k) =
      ((Pairing.ofKinds (kinds.filter keep)).closerOf? k).map (place keep kinds) := by
  rw [Pairing.closerOf?, find?_pairs_place hkeep fun _ => rfl, Pairing.closerOf?, Option.map_map,
    Option.map_map]
  rfl

/-- The opener of a moved closer is the moved opener. -/
theorem openerOf?_place (k : Nat) :
    (Pairing.ofKinds kinds).openerOf? (place keep kinds k) =
      ((Pairing.ofKinds (kinds.filter keep)).openerOf? k).map (place keep kinds) := by
  rw [Pairing.openerOf?, find?_pairs_place hkeep fun _ => rfl, Pairing.openerOf?, Option.map_map,
    Option.map_map]
  rfl

/-- The partner of a moved delimiter is the moved partner. -/
theorem partner?_place (k : Nat) :
    (Pairing.ofKinds kinds).partner? (place keep kinds k) =
      ((Pairing.ofKinds (kinds.filter keep)).partner? k).map (place keep kinds) := by
  rw [Pairing.partner?, closerOf?_place hkeep, openerOf?_place hkeep, Pairing.partner?,
    Option.map_or]

/-! ## Conditionals in value position -/

omit hkeep in
/-- An index up to a place, behind all places before it, is that place or holds no kept kind. -/
private theorem eq_place_or_lt {i k : Nat} (hlow : ∀ m, m < k → place keep kinds m < i)
    (hup : i ≤ place keep kinds k) {kind : TokenKind} (hkind : kinds[i]? = some kind) :
    keep kind = true ∧ i = place keep kinds k ∨ keep kind = false ∧ i < place keep kinds k := by
  cases hk : keep kind with
  | false =>
    refine Or.inr ⟨rfl, Nat.lt_of_le_of_ne hup ?_⟩
    rintro rfl
    rw [getElem?_place] at hkind
    have hmem := (List.mem_filter.mp (List.mem_of_getElem? hkind)).2
    rw [hk] at hmem
    cases hmem
  | true =>
    have hany : (kinds[i]?).any keep = true := by
      rw [hkind]
      exact hk
    obtain ⟨m, rfl⟩ := exists_place_eq hany
    have hkm : k ≤ m := by
      by_contra hlt
      exact absurd (hlow m (by omega)) (Nat.lt_irrefl _)
    have hle : place keep kinds k ≤ place keep kinds m := (strictMono_place kinds).monotone hkm
    exact Or.inl ⟨rfl, by omega⟩

/-- The branch brace found from an index is the moved brace found from the next place. -/
theorem branchOpen?_place {i k : Nat} (hlow : ∀ m, m < k → place keep kinds m < i)
    (hup : i ≤ place keep kinds k) :
    ValueConditional.branchOpen? kinds (Pairing.ofKinds kinds) i =
      (ValueConditional.branchOpen? (kinds.filter keep)
        (Pairing.ofKinds (kinds.filter keep)) k).map (place keep kinds) := by
  have hmono : StrictMono (place keep kinds) := strictMono_place kinds
  fun_induction ValueConditional.branchOpen? kinds (Pairing.ofKinds kinds) i generalizing k with
  | case1 i inside hbrace =>
    have hget : kinds[i]? = some .openBrace := by rw [List.getElem?_eq_getElem inside, hbrace]
    rcases eq_place_or_lt hlow hup hget with ⟨_, rfl⟩ | ⟨hdrop, _⟩
    · rw [getElem?_place] at hget
      rw [branchOpen?_eq, hget]
      rfl
    · rw [hkeep _ rfl] at hdrop
      cases hdrop
  | case2 i inside hbrace hparen hnone =>
    rcases eq_place_or_lt hlow hup (List.getElem?_eq_getElem inside) with ⟨_, rfl⟩ | ⟨hdrop, _⟩
    · have hget := List.getElem?_eq_getElem inside
      rw [getElem?_place] at hget
      rw [closerOf?_place hkeep, Option.map_eq_none_iff] at hnone
      rw [branchOpen?_eq, hget]
      simp only [if_neg hbrace, if_pos hparen, hnone]
      rfl
    · rcases hparen with hparen | hparen <;> rw [hparen, hkeep _ rfl] at hdrop <;> cases hdrop
  | case3 i inside hbrace hparen closer jump _ ih =>
    rcases eq_place_or_lt hlow hup (List.getElem?_eq_getElem inside) with ⟨_, rfl⟩ | ⟨hdrop, _⟩
    · have hget := List.getElem?_eq_getElem inside
      rw [getElem?_place] at hget
      rw [closerOf?_place hkeep, Option.map_eq_some_iff] at jump
      obtain ⟨c, hc, rfl⟩ := jump
      have hnext : place keep kinds c < place keep kinds (c + 1) := hmono (Nat.lt_succ_self c)
      rw [branchOpen?_eq (kinds.filter keep), hget]
      simp only [if_neg hbrace, if_pos hparen, hc, Option.bind_some]
      refine @ih (c + 1) (fun m hm => ?_) hnext
      have hle : place keep kinds m ≤ place keep kinds c := hmono.monotone (by omega)
      omega
    · rcases hparen with hparen | hparen <;> rw [hparen, hkeep _ rfl] at hdrop <;> cases hdrop
  | case4 i inside hbrace hparen ih =>
    rcases eq_place_or_lt hlow hup (List.getElem?_eq_getElem inside) with ⟨_, rfl⟩ | ⟨_, hlt⟩
    · have hget := List.getElem?_eq_getElem inside
      rw [getElem?_place] at hget
      have hnext : place keep kinds k < place keep kinds (k + 1) := hmono (Nat.lt_succ_self k)
      rw [branchOpen?_eq (kinds.filter keep), hget]
      simp only [if_neg hbrace, if_neg hparen]
      refine @ih (k + 1) (fun m hm => ?_) hnext
      have hle : place keep kinds m ≤ place keep kinds k := hmono.monotone (by omega)
      omega
    · exact ih (fun m hm => Nat.lt_succ_of_lt (hlow m hm)) hlt
  | case5 i outside =>
    have hnone : (kinds.filter keep)[k]? = none := by
      rw [← getElem?_place]
      exact List.getElem?_eq_none (by omega)
    rw [branchOpen?_eq, hnone]
    rfl

/-- The branch braces from a moved word on are the moved braces. -/
theorem branchBraces_place (k : Nat) :
    ValueConditional.branchBraces kinds (Pairing.ofKinds kinds) (place keep kinds k) =
      (ValueConditional.branchBraces (kinds.filter keep)
        (Pairing.ofKinds (kinds.filter keep)) k).map (place keep kinds) := by
  have hmono : StrictMono (place keep kinds) := strictMono_place kinds
  have hopen (k : Nat) : ValueConditional.branchOpen? kinds (Pairing.ofKinds kinds)
      (place keep kinds k + 1) = (ValueConditional.branchOpen? (kinds.filter keep)
        (Pairing.ofKinds (kinds.filter keep)) (k + 1)).map (place keep kinds) := by
    apply branchOpen?_place hkeep
    · intro m hm
      have hle : place keep kinds m ≤ place keep kinds k := hmono.monotone (by omega)
      omega
    · exact hmono (Nat.lt_succ_self k)
  have hcode (c : Nat) : Neighbors.nextCode? kinds (place keep kinds c) =
      (Neighbors.nextCode? (kinds.filter keep) c).map (place keep kinds) :=
    after?_place (fun kind h => hkeep kind (by simpa using h)) c
  fun_induction ValueConditional.branchBraces (kinds.filter keep)
      (Pairing.ofKinds (kinds.filter keep)) k with
  | case1 k hopening =>
    rw [branchBraces_eq, hopen, hopening]
    rfl
  | case2 k opened hopening hclosing =>
    rw [branchBraces_eq, hopen, hopening]
    simp only [Option.map_some, closerOf?_place hkeep, hclosing]
    rfl
  | case3 k opened hopening closer hclosing hfollowing =>
    rw [branchBraces_eq, hopen, hopening]
    simp only [Option.map_some, closerOf?_place hkeep, hclosing, hcode, hfollowing]
    rfl
  | case4 k opened hopening closer hclosing next hfollowing _ _ _ hword ih =>
    rw [branchBraces_eq, hopen, hopening]
    simp only [Option.map_some, closerOf?_place hkeep, hclosing, hcode, hfollowing,
      getElem?_place, if_pos hword, ih]
    rfl
  | case5 k opened hopening closer hclosing next hfollowing _ _ _ hword =>
    rw [branchBraces_eq, hopen, hopening]
    simp only [Option.map_some, closerOf?_place hkeep, hclosing, hcode, hfollowing,
      getElem?_place, if_neg hword]
    rfl

/-- A moved word starts a conditional in value position exactly when the word does. -/
theorem startsValue_place (k : Nat) :
    ValueConditional.startsValue kinds (place keep kinds k) =
      ValueConditional.startsValue (kinds.filter keep) k := by
  have hcode : Neighbors.prevCode? kinds (place keep kinds k) =
      (Neighbors.prevCode? (kinds.filter keep) k).map (place keep kinds) :=
    before?_place (fun kind h => hkeep kind (by simpa using h)) k
  rw [ValueConditional.startsValue, ValueConditional.startsValue, hcode, getElem?_place]
  cases Neighbors.prevCode? (kinds.filter keep) k with
  | none => rfl
  | some prev => simp only [Option.map_some, getElem?_place]

/-- The braces of conditionals in value position are the moved braces. -/
theorem braces_place : ValueConditional.braces kinds (Pairing.ofKinds kinds) =
    (ValueConditional.braces (kinds.filter keep)
      (Pairing.ofKinds (kinds.filter keep))).map (place keep kinds) := by
  have hkept : ∀ i, ValueConditional.startsValue kinds i = true → (kinds[i]?).any keep = true := by
    intro i hi
    simp only [ValueConditional.startsValue, Bool.and_eq_true, Bool.or_eq_true,
      beq_iff_eq] at hi
    rcases hi.1 with hword | hword <;> rw [hword] <;> exact hkeep _ rfl
  rw [ValueConditional.braces, filter_range_eq_map hkept, List.flatMap_map,
    ValueConditional.braces, List.map_flatMap]
  simp only [startsValue_place hkeep, branchBraces_place hkeep]

end Structure

end Skeleton

end ManifestSpacing
