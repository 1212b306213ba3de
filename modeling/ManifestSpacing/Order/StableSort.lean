/-!
# Stable sorting

Insertion from the right: an element goes before the first one that it does
not exceed, so equal elements keep their order. Sorting by a total preorder
commutes with a map that drops elements and keeps the order of the others, so
it does not matter whether findings are sorted or the places at which they are
looked for.
-/

namespace ManifestSpacing

/-- Inserts an element before the first one that it does not exceed. -/
def insertSorted {α : Type} (le : α → α → Bool) (a : α) : List α → List α
  | [] => [a]
  | b :: bs => if le a b then a :: b :: bs else b :: insertSorted le a bs

/-- Sorts a list and keeps the order of equal elements. -/
def stableSort {α : Type} (le : α → α → Bool) : List α → List α
  | [] => []
  | a :: as => insertSorted le a (stableSort le as)

theorem insertSorted_perm {α : Type} (le : α → α → Bool) (a : α) (as : List α) :
    (insertSorted le a as).Perm (a :: as) := by
  induction as with
  | nil => exact .refl _
  | cons b bs ih =>
    simp only [insertSorted]
    split
    · exact .refl _
    · exact (ih.cons b).trans (.swap a b bs)

/-- Sorting only rearranges. -/
theorem stableSort_perm {α : Type} (le : α → α → Bool) (as : List α) :
    (stableSort le as).Perm as := by
  induction as with
  | nil => exact .refl _
  | cons a as ih => exact (insertSorted_perm le a _).trans (ih.cons a)

/-- Sorting neither drops nor adds elements. -/
@[simp] theorem mem_stableSort {α : Type} {le : α → α → Bool} {a : α} {as : List α} :
    a ∈ stableSort le as ↔ a ∈ as :=
  (stableSort_perm le as).mem_iff

section Preorder

variable {α : Type} {le : α → α → Bool}
  (htrans : ∀ a b c, le a b = true → le b c = true → le a c = true)
  (htotal : ∀ a b, le a b = true ∨ le b a = true)

include htrans htotal

/-- Inserting into a sorted list leaves it sorted. -/
theorem pairwise_insertSorted (a : α) {as : List α} (h : as.Pairwise fun x y => le x y = true) :
    (insertSorted le a as).Pairwise fun x y => le x y = true := by
  induction as with
  | nil => exact List.pairwise_singleton _ a
  | cons b bs ih =>
    obtain ⟨hb, hbs⟩ := List.pairwise_cons.mp h
    simp only [insertSorted]
    split
    · rename_i hab
      refine List.pairwise_cons.mpr ⟨?_, h⟩
      intro c hc
      rcases List.mem_cons.mp hc with rfl | hc
      · exact hab
      · exact htrans a b c hab (hb c hc)
    · rename_i hab
      refine List.pairwise_cons.mpr ⟨?_, ih hbs⟩
      intro c hc
      rcases List.mem_cons.mp ((insertSorted_perm le a bs).mem_iff.mp hc) with rfl | hc
      · exact (htotal c b).resolve_left hab
      · exact hb c hc

/-- A sorted list is in order. -/
theorem pairwise_stableSort (as : List α) :
    (stableSort le as).Pairwise fun x y => le x y = true := by
  induction as with
  | nil => exact .nil
  | cons a as ih => exact pairwise_insertSorted htrans htotal a ih

end Preorder

/-- An element that exceeds no other is inserted at the front. -/
theorem insertSorted_of_forall_le {α : Type} {le : α → α → Bool} {a : α} {as : List α}
    (h : ∀ b ∈ as, le a b = true) : insertSorted le a as = a :: as := by
  cases as with
  | nil => rfl
  | cons b bs => rw [insertSorted, if_pos (h b List.mem_cons_self)]

section FilterMap

variable {α β : Type} {le : α → α → Bool} {le' : β → β → Bool} {f : α → Option β}

/-- Inserting an element that is dropped inserts nothing. -/
theorem filterMap_insertSorted_of_none {a : α} (ha : f a = none) (as : List α) :
    (insertSorted le a as).filterMap f = as.filterMap f := by
  induction as with
  | nil => rw [insertSorted, List.filterMap_cons_none ha]
  | cons b bs ih =>
    rw [insertSorted]
    split
    · rw [List.filterMap_cons_none ha]
    · rw [List.filterMap_cons, List.filterMap_cons, ih]

variable (htrans : ∀ a b c, le a b = true → le b c = true → le a c = true)

include htrans

/-- Inserting before dropping is dropping before inserting. -/
theorem filterMap_insertSorted {a : α} {p : β} (ha : f a = some p) {as : List α}
    (hsorted : as.Pairwise fun x y => le x y = true)
    (horder : ∀ b ∈ as, ∀ q, f b = some q → le' p q = le a b) :
    (insertSorted le a as).filterMap f = insertSorted le' p (as.filterMap f) := by
  induction as with
  | nil => rw [insertSorted, List.filterMap_cons_some ha]; rfl
  | cons b bs ih =>
    obtain ⟨hb, hbs⟩ := List.pairwise_cons.mp hsorted
    have htail := ih hbs fun c hc => horder c (List.mem_cons_of_mem _ hc)
    rw [insertSorted]
    cases hfb : f b with
    | none =>
      rw [List.filterMap_cons_none hfb]
      split
      · -- behind the dropped element nothing is smaller than the new one
        rename_i hab
        rw [List.filterMap_cons_some ha, List.filterMap_cons_none hfb, insertSorted_of_forall_le]
        intro q hq
        obtain ⟨c, hc, hfc⟩ := List.mem_filterMap.mp hq
        rw [horder c (List.mem_cons_of_mem _ hc) q hfc]
        exact htrans a b c hab (hb c hc)
      · rw [List.filterMap_cons_none hfb, htail]
    | some q =>
      rw [List.filterMap_cons_some hfb, insertSorted, horder b List.mem_cons_self q hfb]
      split
      · rw [List.filterMap_cons_some ha, List.filterMap_cons_some hfb]
      · rw [List.filterMap_cons_some hfb, htail]

/-- Sorting commutes with a map that drops elements and keeps the order of the others. -/
theorem stableSort_filterMap (htotal : ∀ a b, le a b = true ∨ le b a = true) {as : List α}
    (horder : ∀ a ∈ as, ∀ b ∈ as, ∀ p q, f a = some p → f b = some q → le' p q = le a b) :
    stableSort le' (as.filterMap f) = (stableSort le as).filterMap f := by
  induction as with
  | nil => rfl
  | cons a as ih =>
    have htail := ih fun b hb c hc =>
      horder b (List.mem_cons_of_mem _ hb) c (List.mem_cons_of_mem _ hc)
    rw [stableSort]
    cases ha : f a with
    | none => rw [List.filterMap_cons_none ha, htail, filterMap_insertSorted_of_none ha]
    | some p =>
      rw [List.filterMap_cons_some ha, stableSort, htail]
      refine (filterMap_insertSorted htrans ha (pairwise_stableSort htrans htotal as) ?_).symm
      intro b hb q hq
      exact horder a List.mem_cons_self b (List.mem_cons_of_mem _ (mem_stableSort.mp hb)) p q ha hq

end FilterMap

end ManifestSpacing
