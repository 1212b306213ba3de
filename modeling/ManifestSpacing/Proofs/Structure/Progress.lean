import ManifestSpacing.Proofs.Structure.Branches

/-!
# Progress of the searches for branches

The search for a branch brace jumps by a table of partners, and so does the loop
over the branches of a conditional. With any table at all such loops may run
forever. They end with the table of a matching, however malformed the sequence
is, because matching sends every opener forward: each turn of either loop goes on
behind the place where it was. What the loops find is what the recursive searches
find, and every brace that they mark lies inside the sequence.
-/

namespace ManifestSpacing

/-- Both ends of a pair lie inside the sequence. -/
theorem Family.lt_length_of_mem_pairs {family : Family} {kinds : List TokenKind} {a b : Nat}
    (h : (a, b) ∈ family.pairs kinds) : a < kinds.length ∧ b < kinds.length := by
  obtain ⟨hopener, hcloser⟩ := Family.getElem?_of_mem_pairs h
  exact ⟨(List.getElem?_eq_some_iff.mp hopener).1, (List.getElem?_eq_some_iff.mp hcloser).1⟩

namespace Pairing

variable {kinds : List TokenKind} {i j : Nat}

/-- The partner of an opener is its closer. -/
theorem partner?_eq_closerOf? (family : Family) (hopener : kinds[i]? = some family.opener) :
    (ofKinds kinds).partner? i = (ofKinds kinds).closerOf? i := by
  have hnone : (ofKinds kinds).openerOf? i = none := by
    rw [Option.eq_none_iff_forall_ne_some]
    intro k hk
    obtain ⟨other, hpair⟩ := openerOf?_eq_some_iff.mp hk
    have hcloser := (Family.getElem?_of_mem_pairs hpair).2
    rw [hopener] at hcloser
    exact Family.opener_ne_closer family other (Option.some.inj hcloser)
  rw [partner?, hnone, Option.or_none]

/-- Partners lie inside the sequence. -/
theorem partner?_lt_length (hpartner : (ofKinds kinds).partner? i = some j) :
    j < kinds.length := by
  obtain ⟨family, hpair | hpair⟩ := partner?_eq_some_iff.mp (partner?_comm.mp hpartner)
  · exact (Family.lt_length_of_mem_pairs hpair).1
  · exact (Family.lt_length_of_mem_pairs hpair).2

end Pairing

namespace ValueConditional

/-! ## The loops, turn by turn -/

section Loops

variable (kinds : List TokenKind) (partner : Nat → Option Nat)

/-- One turn of the search for a branch brace: the index that it goes on with, if it does. -/
def searchTurn? (i : Nat) : Option Nat :=
  match kinds[i]? with
  | none => none
  | some kind =>
    if kind = .openBrace then none
    else if kind = .openParen ∨ kind = .openBracket then (partner i).map (· + 1)
    else some (i + 1)

/-- What the search has found at the index where it stops. -/
def foundAt? (i : Nat) : Option Nat := if kinds[i]? = some .openBrace then some i else none

/-- A search from an index that comes to an end, and what it finds. -/
inductive Searches : Nat → Option Nat → Prop where
  | stop {i : Nat} (hturn : searchTurn? kinds partner i = none) : Searches i (foundAt? kinds i)
  | turn {i j : Nat} {found : Option Nat} (hturn : searchTurn? kinds partner i = some j)
      (hrest : Searches j found) : Searches i found

/-- One turn of the loop over branches, from the word at `cursor`: a brace is found that has a
partner. Both braces are marked. -/
structure BranchTurn (cursor opened closer : Nat) : Prop where
  opens : Searches kinds partner (cursor + 1) (some opened)
  closes : partner opened = some closer

/-- The word that the loop over branches goes on with behind a closing brace. -/
structure GoesOn (closer next : Nat) : Prop where
  following : Neighbors.nextCode? kinds closer = some next
  alternative : kinds[next]? = some .elseWord ∨ kinds[next]? = some .elsifWord

/-- A loop over branches from a word that comes to an end, and the indices that it marks. -/
inductive Marks : Nat → List Nat → Prop where
  | noBrace {cursor : Nat} (hsearch : Searches kinds partner (cursor + 1) none) : Marks cursor []
  | unclosed {cursor opened : Nat} (hsearch : Searches kinds partner (cursor + 1) (some opened))
      (hpartner : partner opened = none) : Marks cursor []
  | last {cursor opened closer : Nat} (hbranch : BranchTurn kinds partner cursor opened closer)
      (hlast : ∀ next, ¬ GoesOn kinds closer next) : Marks cursor [opened, closer]
  | more {cursor opened closer next : Nat} {marked : List Nat}
      (hbranch : BranchTurn kinds partner cursor opened closer) (hmore : GoesOn kinds closer next)
      (hrest : Marks next marked) : Marks cursor (opened :: closer :: marked)

/-- That the loops over some kinds move forward with a table of partners and come to an end. -/
structure Progresses : Prop where
  /-- A jump leads behind the opener that it starts at. -/
  jump : ∀ i closer, kinds[i]? = some .openParen ∨ kinds[i]? = some .openBracket →
    partner i = some closer → i < closer
  search : ∀ i j, searchTurn? kinds partner i = some j → i < j
  /-- No search goes on forever. -/
  search_ends : WellFounded fun j i => searchTurn? kinds partner i = some j
  branch : ∀ cursor opened closer next, BranchTurn kinds partner cursor opened closer →
    GoesOn kinds closer next → cursor < opened ∧ opened < closer ∧ closer < next
  /-- No loop over branches goes on forever. -/
  branches_end : WellFounded fun next cursor =>
    ∃ opened closer, BranchTurn kinds partner cursor opened closer ∧ GoesOn kinds closer next
  /-- Both braces that are marked lie inside the sequence. -/
  marks : ∀ cursor opened closer, BranchTurn kinds partner cursor opened closer →
    opened < kinds.length ∧ closer < kinds.length

end Loops

variable {kinds : List TokenKind} {partner : Nat → Option Nat}

/-- A search goes on only from inside the sequence. -/
theorem lt_length_of_searchTurn? {i j : Nat} (h : searchTurn? kinds partner i = some j) :
    i < kinds.length := by
  rw [searchTurn?] at h
  split at h
  · cases h
  · rename_i hkind
    exact (List.getElem?_eq_some_iff.mp hkind).1

/-- Loops that move forward and never start a turn behind the end come to an end. -/
theorem wellFounded_of_forward {turn : Nat → Nat → Prop} (bound : Nat)
    (hforward : ∀ i j, turn i j → i < j) (hinside : ∀ i j, turn i j → i < bound) :
    WellFounded fun j i => turn i j := by
  apply Subrelation.wf (r := InvImage (· < ·) fun i => bound - i)
  · intro j i h
    have hlt := hforward i j h
    have hle := hinside i j h
    exact Nat.sub_lt_sub_left hle hlt
  · exact InvImage.wf _ Nat.lt_wfRel.wf

/-! ## With the partners of a matching -/

variable {i j cursor opened closer next : Nat} {found : Option Nat} {marked : List Nat}

/-- The partner of a parenthesis or a bracket that opens is its closer. -/
theorem partner?_of_jump (hkind : kinds[i]? = some .openParen ∨ kinds[i]? = some .openBracket) :
    (Pairing.ofKinds kinds).partner? i = (Pairing.ofKinds kinds).closerOf? i := by
  rcases hkind with hkind | hkind
  · exact Pairing.partner?_eq_closerOf? .paren hkind
  · exact Pairing.partner?_eq_closerOf? .bracket hkind

/-- A jump leads to a later place. -/
theorem lt_of_jump (hkind : kinds[i]? = some .openParen ∨ kinds[i]? = some .openBracket)
    (hpartner : (Pairing.ofKinds kinds).partner? i = some j) : i < j := by
  rw [partner?_of_jump hkind] at hpartner
  exact Pairing.lt_of_closerOf? hpartner

/-- Every turn of a search leads to a later index. -/
theorem lt_of_searchTurn? (h : searchTurn? kinds (Pairing.ofKinds kinds).partner? i = some j) :
    i < j := by
  rw [searchTurn?] at h
  split at h
  · cases h
  rename_i kind hkind
  split at h
  · cases h
  split at h
  · rename_i hopener
    obtain ⟨closer, hpartner, rfl⟩ := Option.map_eq_some_iff.mp h
    have hlt := lt_of_jump (hopener.imp (· ▸ hkind) (· ▸ hkind)) hpartner
    omega
  · cases h
    exact Nat.lt_succ_self i

/-- A table that sends an opener back would let a search stand still. -/
example : searchTurn? [.name, .openParen] (fun _ => some 0) 1 = some 1 := by decide

theorem wellFounded_searchTurn? (kinds : List TokenKind) :
    WellFounded fun j i => searchTurn? kinds (Pairing.ofKinds kinds).partner? i = some j :=
  wellFounded_of_forward kinds.length (fun _ _ => lt_of_searchTurn?)
    fun _ _ => lt_length_of_searchTurn?

/-- The recursive search does what the turn at its index says. -/
theorem branchOpen?_eq_of_turn (kinds : List TokenKind) (i : Nat) :
    branchOpen? kinds (Pairing.ofKinds kinds) i =
      match searchTurn? kinds (Pairing.ofKinds kinds).partner? i with
      | some j => branchOpen? kinds (Pairing.ofKinds kinds) j
      | none => foundAt? kinds i := by
  rw [Skeleton.branchOpen?_eq, searchTurn?, foundAt?]
  cases hkind : kinds[i]? with
  | none => rfl
  | some kind =>
    dsimp only
    by_cases hbrace : kind = .openBrace
    · rw [if_pos hbrace, if_pos hbrace, if_pos (congrArg some hbrace)]
    rw [if_neg hbrace, if_neg hbrace]
    by_cases hjump : kind = .openParen ∨ kind = .openBracket
    · have hpartner := partner?_of_jump (hjump.imp (· ▸ hkind) (· ▸ hkind))
      rw [if_pos hjump, if_pos hjump, hpartner]
      cases (Pairing.ofKinds kinds).closerOf? i with
      | none => simp [hbrace]
      | some closer => rfl
    · rw [if_neg hjump, if_neg hjump]

/-- Every search comes to an end, and it finds what the recursive search finds. -/
theorem searches_iff : Searches kinds (Pairing.ofKinds kinds).partner? i found ↔
    branchOpen? kinds (Pairing.ofKinds kinds) i = found := by
  constructor
  · intro h
    induction h with
    | stop hturn => rw [branchOpen?_eq_of_turn, hturn]
    | turn hturn _ ih =>
      rw [branchOpen?_eq_of_turn, hturn]
      exact ih
  · rintro rfl
    induction i using (wellFounded_searchTurn? kinds).induction with
    | _ i ih =>
      rw [branchOpen?_eq_of_turn]
      cases hturn : searchTurn? kinds (Pairing.ofKinds kinds).partner? i with
      | none => exact .stop hturn
      | some j => exact .turn hturn (ih j hturn)

/-- The partner of a brace that opens a branch is its closer. -/
theorem partner?_of_branchOpen?
    (h : branchOpen? kinds (Pairing.ofKinds kinds) i = some opened) :
    (Pairing.ofKinds kinds).partner? opened = (Pairing.ofKinds kinds).closerOf? opened :=
  Pairing.partner?_eq_closerOf? .brace (getElem?_of_branchOpen? h)

/-- A turn of the loop over branches is one step of the recursion over them. -/
theorem branchTurn_iff : BranchTurn kinds (Pairing.ofKinds kinds).partner? cursor opened closer ↔
    branchOpen? kinds (Pairing.ofKinds kinds) (cursor + 1) = some opened ∧
      (Pairing.ofKinds kinds).closerOf? opened = some closer := by
  constructor
  · rintro ⟨hopens, hcloses⟩
    rw [searches_iff] at hopens
    rw [partner?_of_branchOpen? hopens] at hcloses
    exact ⟨hopens, hcloses⟩
  · rintro ⟨hopens, hcloses⟩
    rw [← partner?_of_branchOpen? hopens] at hcloses
    exact ⟨searches_iff.mpr hopens, hcloses⟩

/-- A branch lies behind its word, and the word of the next branch lies behind it. -/
theorem BranchTurn.forward
    (h : BranchTurn kinds (Pairing.ofKinds kinds).partner? cursor opened closer)
    (hmore : GoesOn kinds closer next) : cursor < opened ∧ opened < closer ∧ closer < next := by
  obtain ⟨hopens, hcloses⟩ := branchTurn_iff.mp h
  have hbounds := branchOpen?_bounds hopens
  exact ⟨hbounds.1, Pairing.lt_of_closerOf? hcloses, (Neighbors.after?_bounds hmore.following).1⟩

/-- The braces of a branch lie inside the sequence. -/
theorem BranchTurn.inside
    (h : BranchTurn kinds (Pairing.ofKinds kinds).partner? cursor opened closer) :
    opened < kinds.length ∧ closer < kinds.length :=
  ⟨(branchOpen?_bounds (branchTurn_iff.mp h).1).2, Pairing.partner?_lt_length h.closes⟩

theorem wellFounded_branchTurn (kinds : List TokenKind) : WellFounded fun next cursor =>
    ∃ opened closer, BranchTurn kinds (Pairing.ofKinds kinds).partner? cursor opened closer ∧
      GoesOn kinds closer next := by
  apply wellFounded_of_forward kinds.length
  · rintro cursor next ⟨opened, closer, hbranch, hmore⟩
    have hforward := hbranch.forward hmore
    omega
  · rintro cursor next ⟨opened, closer, hbranch, hmore⟩
    have hforward := hbranch.forward hmore
    have hinside := hbranch.inside
    omega

/-- Every loop over branches comes to an end, and it marks what the recursion over them lists. -/
theorem marks_iff : Marks kinds (Pairing.ofKinds kinds).partner? cursor marked ↔
    branchBraces kinds (Pairing.ofKinds kinds) cursor = marked := by
  constructor
  · intro h
    induction h with
    | noBrace hsearch => rw [Skeleton.branchBraces_eq, searches_iff.mp hsearch]
    | unclosed hsearch hpartner =>
      rw [searches_iff] at hsearch
      rw [partner?_of_branchOpen? hsearch] at hpartner
      simp only [Skeleton.branchBraces_eq, hsearch, hpartner]
    | last hbranch hlast =>
      obtain ⟨hopens, hcloses⟩ := branchTurn_iff.mp hbranch
      rw [Skeleton.branchBraces_eq]
      simp only [hopens, hcloses]
      split
      · rfl
      · rename_i next hfollowing
        exact if_neg fun halternative => hlast next ⟨hfollowing, halternative⟩
    | more hbranch hmore _ ih =>
      obtain ⟨hopens, hcloses⟩ := branchTurn_iff.mp hbranch
      rw [Skeleton.branchBraces_eq]
      simp only [hopens, hcloses, hmore.following, if_pos hmore.alternative, ih]
  · rintro rfl
    fun_induction branchBraces kinds (Pairing.ofKinds kinds) cursor with
    | case1 _ hopens => exact .noBrace (searches_iff.mpr hopens)
    | case2 _ opened hopens hcloses =>
      refine .unclosed (searches_iff.mpr hopens) ?_
      rw [partner?_of_branchOpen? hopens, hcloses]
    | case3 _ opened hopens closer hcloses hfollowing =>
      refine .last (branchTurn_iff.mpr ⟨hopens, hcloses⟩) fun next hmore => ?_
      rw [hmore.following] at hfollowing
      cases hfollowing
    | case4 _ opened hopens closer hcloses next hfollowing _ _ _ halternative ih =>
      exact .more (branchTurn_iff.mpr ⟨hopens, hcloses⟩) ⟨hfollowing, halternative⟩ ih
    | case5 _ opened hopens closer hcloses next hfollowing _ _ _ halternative =>
      refine .last (branchTurn_iff.mpr ⟨hopens, hcloses⟩) fun other hmore => halternative ?_
      rw [Option.some.inj (hfollowing.symm.trans hmore.following)]
      exact hmore.alternative

/-- The loops with the partners of a matching move forward, turn by turn. -/
theorem progresses (kinds : List TokenKind) :
    Progresses kinds (Pairing.ofKinds kinds).partner? where
  jump _ _ := lt_of_jump
  search _ _ := lt_of_searchTurn?
  search_ends := wellFounded_searchTurn? kinds
  branch _ _ _ _ := BranchTurn.forward
  branches_end := wellFounded_branchTurn kinds
  marks _ _ _ := BranchTurn.inside

/-- The braces of conditionals in value position lie inside the sequence. -/
theorem lt_length_of_mem_braces (h : i ∈ braces kinds (Pairing.ofKinds kinds)) :
    i < kinds.length := by
  obtain ⟨a, b, hpair, hend, -⟩ := paired_braces kinds i h
  have hinside := Family.lt_length_of_mem_pairs hpair
  rcases hend with rfl | rfl
  · exact hinside.1
  · exact hinside.2

/-- On every sequence of kinds, balanced or not, both loops move forward at every turn and come
to an end; they find what the recursive searches find, and they mark no place outside the
sequence. -/
theorem loops_end (kinds : List TokenKind) :
    Progresses kinds (Pairing.ofKinds kinds).partner? ∧
      (∀ i found, Searches kinds (Pairing.ofKinds kinds).partner? i found ↔
        branchOpen? kinds (Pairing.ofKinds kinds) i = found) ∧
      (∀ cursor marked, Marks kinds (Pairing.ofKinds kinds).partner? cursor marked ↔
        branchBraces kinds (Pairing.ofKinds kinds) cursor = marked) ∧
      ∀ i ∈ braces kinds (Pairing.ofKinds kinds), i < kinds.length :=
  ⟨progresses kinds, fun _ _ => searches_iff, fun _ _ => marks_iff,
    fun _ => lt_length_of_mem_braces⟩

/-- Here a brace in the parentheses of the condition is closed at the very end, and a bracket is
only closed. -/
theorem loops_end_crossing_families :
    ∃ kinds : List TokenKind, (Pairing.ofKinds kinds).partner? 2 = some 4 ∧
      (Pairing.ofKinds kinds).partner? 3 = some 12 ∧ (Pairing.ofKinds kinds).partner? 5 = none ∧
      Marks kinds (Pairing.ofKinds kinds).partner? 1 [6, 7, 9, 11] ∧
      7 ∈ braces kinds (Pairing.ofKinds kinds) ∧ 7 < kinds.length := by
  let kinds : List TokenKind := [.equals, .ifWord, .openParen, .openBrace, .closeParen,
    .closeBracket, .openBrace, .closeBrace, .elseWord, .openBrace, .closeParen, .closeBrace,
    .closeBrace]
  have hmem : 7 ∈ braces kinds (Pairing.ofKinds kinds) := by decide +kernel
  obtain ⟨_, _, hmarks, hinside⟩ := loops_end kinds
  exact ⟨kinds, by decide, by decide, by decide, (hmarks 1 _).mpr (by decide +kernel), hmem,
    hinside 7 hmem⟩

end ValueConditional

end ManifestSpacing
