import ManifestSpacing.Proofs.Structure.Partners

/-!
# Branches of conditionals in value position

The braces found for conditionals in value position come in matched pairs. For
a conditional that is written down properly, clause after clause, none is
missed: whatever stands around it and whatever its conditions and bodies hold,
the search from each word passes over the condition to the opening brace of the
branch, and from its closing brace on to the word of the next clause.
-/

namespace ManifestSpacing

namespace ValueConditional

open Family

section Searches

variable {kinds : List TokenKind} {pairing : Pairing} {cursor i opened closer : Nat}

/-! ## Matched braces -/

/-- A branch opens with a brace. -/
theorem getElem?_of_branchOpen? (h : branchOpen? kinds pairing i = some opened) :
    kinds[opened]? = some .openBrace := by
  fun_induction branchOpen? kinds pairing i with
  | case1 i inside hbrace =>
    cases h
    rw [List.getElem?_eq_getElem inside, hbrace]
  | case2 => cases h
  | case3 _ _ _ _ _ _ _ ih => exact ih h
  | case4 _ _ _ _ ih => exact ih h
  | case5 => cases h

/-- The closer of a branch makes a pair of braces with its opener. -/
theorem mem_pairs_of_branchOpen? (hopening : branchOpen? kinds pairing i = some opened)
    (hclosing : (Pairing.ofKinds kinds).closerOf? opened = some closer) :
    (opened, closer) ∈ brace.pairs kinds := by
  obtain ⟨family, hpair⟩ := Pairing.closerOf?_eq_some_iff.mp hclosing
  have hopener : family.opener = brace.opener := Option.some.inj
    ((getElem?_of_mem_pairs hpair).1.symm.trans (getElem?_of_branchOpen? hopening))
  exact opener_inj hopener ▸ hpair

/-- Whether the braces in a list come in matched pairs. -/
def Paired (kinds : List TokenKind) (braces : List Nat) : Prop :=
  ∀ i ∈ braces, ∃ a b, (a, b) ∈ brace.pairs kinds ∧ (i = a ∨ i = b) ∧ a ∈ braces ∧ b ∈ braces

theorem paired_nil : Paired kinds [] := nofun

theorem Paired.append {as bs : List Nat} (ha : Paired kinds as) (hb : Paired kinds bs) :
    Paired kinds (as ++ bs) := by
  intro i hi
  rcases List.mem_append.mp hi with hi | hi
  · obtain ⟨a, b, hpair, hend, hopener, hcloser⟩ := ha i hi
    exact ⟨a, b, hpair, hend, List.mem_append_left _ hopener, List.mem_append_left _ hcloser⟩
  · obtain ⟨a, b, hpair, hend, hopener, hcloser⟩ := hb i hi
    exact ⟨a, b, hpair, hend, List.mem_append_right _ hopener, List.mem_append_right _ hcloser⟩

theorem paired_pair (h : (opened, closer) ∈ brace.pairs kinds) : Paired kinds [opened, closer] := by
  intro i hi
  simp only [List.mem_cons, List.not_mem_nil, or_false] at hi
  exact ⟨opened, closer, h, hi, by simp, by simp⟩

/-- The braces of one conditional come in matched pairs. -/
theorem paired_branchBraces (kinds : List TokenKind) (cursor : Nat) :
    Paired kinds (branchBraces kinds (Pairing.ofKinds kinds) cursor) := by
  fun_induction branchBraces kinds (Pairing.ofKinds kinds) cursor with
  | case1 => exact paired_nil
  | case2 => exact paired_nil
  | case3 _ _ hopening _ hclosing => exact paired_pair (mem_pairs_of_branchOpen? hopening hclosing)
  | case4 _ _ hopening _ hclosing _ _ _ _ _ _ ih =>
    exact (paired_pair (mem_pairs_of_branchOpen? hopening hclosing)).append ih
  | case5 _ _ hopening _ hclosing => exact paired_pair (mem_pairs_of_branchOpen? hopening hclosing)

/-- The braces of all conditionals in value position come in matched pairs. -/
theorem paired_braces (kinds : List TokenKind) :
    Paired kinds (braces kinds (Pairing.ofKinds kinds)) := by
  intro i hi
  obtain ⟨cursor, hcursor, hi⟩ := List.mem_flatMap.mp hi
  obtain ⟨a, b, hpair, hend, ha, hb⟩ := paired_branchBraces kinds cursor i hi
  exact ⟨a, b, hpair, hend, List.mem_flatMap.mpr ⟨cursor, hcursor, ha⟩,
    List.mem_flatMap.mpr ⟨cursor, hcursor, hb⟩⟩

/-! ## Nested kinds -/

/-- Kinds in which braces, brackets and parentheses are properly nested. -/
inductive Nested : List TokenKind → Prop where
  | nil : Nested []
  /-- A kind that is no delimiter. -/
  | plain {kind : TokenKind} {rest : List TokenKind} (hkind : ∀ family : Family,
      family.owns kind = false) (hrest : Nested rest) : Nested (kind :: rest)
  /-- An opener, the closer of its family, and nested kinds between them. -/
  | group {family : Family} {inside rest : List TokenKind} (hinside : Nested inside)
      (hrest : Nested rest) : Nested (family.opener :: (inside ++ family.closer :: rest))

/-- Properly nested kinds that have no brace outside their parentheses and brackets. -/
inductive Condition : List TokenKind → Prop where
  | nil : Condition []
  /-- A kind that is no delimiter. -/
  | plain {kind : TokenKind} {rest : List TokenKind} (hkind : ∀ family : Family,
      family.owns kind = false) (hrest : Condition rest) : Condition (kind :: rest)
  /-- Parentheses or brackets with anything nested between them. -/
  | group {family : Family} {inside rest : List TokenKind} (hfamily : family ≠ brace)
      (hinside : Nested inside) (hrest : Condition rest) :
      Condition (family.opener :: (inside ++ family.closer :: rest))

theorem ne_of_not_owns {family : Family} {kind : TokenKind} (h : family.owns kind = false) :
    kind ≠ family.opener ∧ kind ≠ family.closer := by
  simpa [owns] using h

/-- Trivia alone make a condition, such as what stands behind the word of a last alternative. -/
theorem condition_of_trivia {word : List TokenKind} (h : ∀ kind ∈ word, kind.isTrivia = true) :
    Condition word := by
  induction word with
  | nil => exact .nil
  | cons kind word ih =>
    refine .plain (fun family => ?_)
      (ih fun later hlater => h later (List.mem_cons_of_mem _ hlater))
    rcases (TokenKind.isTrivia_iff kind).mp (h kind List.mem_cons_self) with rfl | rfl | rfl <;>
      cases family <;> rfl

/-- Every family is balanced in nested kinds. -/
theorem Nested.balanced {word : List TokenKind} (h : Nested word) (family : Family) :
    family.Balanced word := by
  rw [← closes_zero_iff]
  induction h with
  | nil => exact closes_nil_iff.mpr rfl
  | plain hkind _ ih =>
    obtain ⟨hopener, hcloser⟩ := ne_of_not_owns (hkind family)
    exact (closes_other_iff hopener hcloser).mpr ih
  | @group other inside rest _ _ ihinside ih =>
    have hinside := closes_zero_iff.mp ihinside
    by_cases hother : other = family
    · subst hother
      rwa [closes_opener_iff, hinside.append_iff, closes_closer_iff]
    · have hopener : other.opener ≠ family.opener := fun h => hother (opener_inj h)
      have hcloser : other.closer ≠ family.closer := fun h => hother (closer_inj h)
      rwa [closes_other_iff hopener (opener_ne_closer other family), hinside.append_iff,
        closes_other_iff (opener_ne_closer family other).symm hcloser]

/-- The closer of a group is the one behind what it encloses. -/
theorem closerOf?_group {family : Family} {xs inside ys : List TokenKind} (h : Nested inside)
    (hkinds : kinds = xs ++ family.opener :: (inside ++ family.closer :: ys)) :
    (Pairing.ofKinds kinds).closerOf? xs.length = some (xs.length + 1 + inside.length) :=
  Pairing.closerOf?_eq_some_iff.mpr
    ⟨family, mem_pairs_iff.mpr ⟨xs, inside, ys, hkinds, rfl, rfl, h.balanced family⟩⟩

/-- The search for a branch brace passes over a condition. -/
theorem branchOpen?_of_condition {xs head ys : List TokenKind} (h : Condition head)
    (hkinds : kinds = xs ++ (head ++ .openBrace :: ys)) :
    branchOpen? kinds (Pairing.ofKinds kinds) xs.length = some (xs.length + head.length) := by
  induction h generalizing xs with
  | nil =>
    have hbrace : kinds[xs.length]? = some .openBrace := by simp [hkinds]
    rw [Skeleton.branchOpen?_eq, hbrace]
    rfl
  | @plain kind rest hkind _ ih =>
    have hnext : kinds[xs.length]? = some kind := by simp [hkinds]
    have hplain : kind ≠ .openBrace ∧ ¬ (kind = .openParen ∨ kind = .openBracket) :=
      ⟨(ne_of_not_owns (hkind brace)).1, fun h => h.elim (ne_of_not_owns (hkind paren)).1
        (ne_of_not_owns (hkind bracket)).1⟩
    have hrest := @ih (xs ++ [kind]) (by simp [hkinds])
    rw [List.length_append, List.length_singleton] at hrest
    rw [Skeleton.branchOpen?_eq, hnext]
    simp only [if_neg hplain.1, if_neg hplain.2, hrest, List.length_cons]
    congr 1
    omega
  | @group family inside rest hfamily hinside _ ih =>
    have hnext : kinds[xs.length]? = some family.opener := by simp [hkinds]
    have hjump : family.opener ≠ .openBrace ∧
        (family.opener = .openParen ∨ family.opener = .openBracket) := by
      revert hfamily
      cases family <;> decide
    have hcloser := @closerOf?_group kinds family xs inside (rest ++ .openBrace :: ys) hinside
      (by simp [hkinds])
    have hrest := @ih (xs ++ family.opener :: (inside ++ [family.closer])) (by simp [hkinds])
    have hbehind : (xs ++ family.opener :: (inside ++ [family.closer])).length =
        xs.length + 1 + inside.length + 1 := by
      simp only [List.length_append, List.length_cons, List.length_nil]
      omega
    rw [hbehind] at hrest
    rw [Skeleton.branchOpen?_eq, hnext]
    simp only [if_neg hjump.1, if_pos hjump.2, hcloser, Option.bind_some, hrest, List.length_append,
      List.length_cons]
    congr 1
    omega

end Searches

/-! ## Clauses -/

/-- A clause of a conditional: trivia, a word, a condition and a body in braces. -/
structure Clause where
  /-- What stands before the word. -/
  lead : List TokenKind
  /-- The word of the clause. -/
  word : TokenKind
  /-- What stands between the word and the opening brace. -/
  head : List TokenKind
  /-- What the braces hold. -/
  body : List TokenKind
  lead_trivia : ∀ kind ∈ lead, kind.isTrivia = true
  head_condition : Condition head
  body_nested : Nested body

namespace Clause

/-- The kinds of a clause. -/
def kinds (c : Clause) : List TokenKind :=
  c.lead ++ c.word :: (c.head ++ .openBrace :: (c.body ++ [.closeBrace]))

/-- Whether the clause is an alternative to one before it. -/
def Continues (c : Clause) : Prop := c.word = .elsifWord ∨ c.word = .elseWord

/-- The index of the word of a clause that starts at an index. -/
def wordAt (c : Clause) (i : Nat) : Nat := i + c.lead.length

/-- The index of its opening brace. -/
def openerAt (c : Clause) (i : Nat) : Nat := c.wordAt i + 1 + c.head.length

/-- The index of its closing brace. -/
def closerAt (c : Clause) (i : Nat) : Nat := c.openerAt i + 1 + c.body.length

theorem add_length_kinds (c : Clause) (i : Nat) : i + c.kinds.length = c.closerAt i + 1 := by
  simp only [kinds, closerAt, openerAt, wordAt, List.length_append, List.length_cons,
    List.length_nil]
  omega

theorem lead_not_code (c : Clause) : ∀ kind ∈ c.lead, (!kind.isTrivia) = false := by
  intro kind hkind
  rw [c.lead_trivia kind hkind]
  rfl

section Search

variable {c d : Clause} {all xs ys : List TokenKind}

theorem getElem?_wordAt (h : all = xs ++ (c.kinds ++ ys)) :
    all[c.wordAt xs.length]? = some c.word := by
  have hfront : all = (xs ++ c.lead) ++
      c.word :: (c.head ++ .openBrace :: (c.body ++ .closeBrace :: ys)) := by
    simp [h, kinds]
  rw [wordAt, ← List.length_append, hfront, List.getElem?_append_right (Nat.le_refl _),
    Nat.sub_self, List.getElem?_cons_zero]

/-- From the word of a clause the search finds its opening brace. -/
theorem branchOpen?_wordAt (h : all = xs ++ (c.kinds ++ ys)) :
    branchOpen? all (Pairing.ofKinds all) (c.wordAt xs.length + 1) =
      some (c.openerAt xs.length) := by
  have hopen := @branchOpen?_of_condition all (xs ++ (c.lead ++ [c.word])) c.head
    (c.body ++ .closeBrace :: ys) c.head_condition (by simp [h, kinds])
  rwa [show (xs ++ (c.lead ++ [c.word])).length = c.wordAt xs.length + 1 by
    simp [wordAt, Nat.add_assoc]] at hopen

/-- The closing brace of a clause closes its opening brace. -/
theorem closerOf?_openerAt (h : all = xs ++ (c.kinds ++ ys)) :
    (Pairing.ofKinds all).closerOf? (c.openerAt xs.length) = some (c.closerAt xs.length) := by
  have hclose := @closerOf?_group all brace (xs ++ (c.lead ++ c.word :: c.head)) c.body ys
    c.body_nested (by simp [h, kinds, opener, closer])
  rwa [show (xs ++ (c.lead ++ c.word :: c.head)).length = c.openerAt xs.length by
    simp only [openerAt, wordAt, List.length_append, List.length_cons]; omega] at hclose

/-- Behind a clause the next code is the word of an alternative that follows. -/
theorem nextCode?_closerAt (h : all = xs ++ (c.kinds ++ (d.kinds ++ ys))) (hd : d.Continues) :
    Neighbors.nextCode? all (c.closerAt xs.length) =
      some (d.wordAt (xs.length + c.kinds.length)) := by
  have hword : (!d.word.isTrivia) = true := by rcases hd with hd | hd <;> rw [hd] <;> rfl
  have hnext := @Neighbors.after?_append (fun kind => !kind.isTrivia)
    (xs ++ (c.lead ++ c.word :: (c.head ++ .openBrace :: c.body))) d.lead
    (d.head ++ .openBrace :: (d.body ++ .closeBrace :: ys)) .closeBrace d.word
    d.lead_not_code hword
  have hlength : (xs ++ (c.lead ++ c.word :: (c.head ++ .openBrace :: c.body))).length =
      c.closerAt xs.length := by
    simp only [closerAt, openerAt, wordAt, List.length_append, List.length_cons]
    omega
  rw [hlength] at hnext
  rw [c.add_length_kinds, wordAt, ← hnext, Neighbors.nextCode?, h]
  simp [kinds]

/-- From the word of a clause its own braces are found, whatever follows it. -/
theorem mem_branchBraces_wordAt (h : all = xs ++ (c.kinds ++ ys)) :
    c.openerAt xs.length ∈ branchBraces all (Pairing.ofKinds all) (c.wordAt xs.length) ∧
      c.closerAt xs.length ∈ branchBraces all (Pairing.ofKinds all) (c.wordAt xs.length) := by
  rw [Skeleton.branchBraces_eq, branchOpen?_wordAt h]
  simp only [closerOf?_openerAt h]
  cases Neighbors.nextCode? all (c.closerAt xs.length) with
  | none => simp
  | some next =>
    dsimp only
    split <;> simp

/-- Behind them come the braces of an alternative that follows. -/
theorem branchBraces_wordAt (h : all = xs ++ (c.kinds ++ (d.kinds ++ ys))) (hd : d.Continues) :
    branchBraces all (Pairing.ofKinds all) (c.wordAt xs.length) =
      c.openerAt xs.length :: c.closerAt xs.length ::
        branchBraces all (Pairing.ofKinds all) (d.wordAt (xs.length + c.kinds.length)) := by
  have hword := @getElem?_wordAt d all (xs ++ c.kinds) ys (by rw [h, List.append_assoc])
  rw [List.length_append] at hword
  have hcontinues : some d.word = some .elseWord ∨ some d.word = some .elsifWord :=
    hd.symm.imp (congrArg some) (congrArg some)
  rw [Skeleton.branchBraces_eq, branchOpen?_wordAt h]
  simp only [closerOf?_openerAt h, nextCode?_closerAt h hd, hword, if_pos hcontinues]

end Search

end Clause

/-- The indices of the braces of some clauses that stand one after the other from an index on. -/
def bracesOf : Nat → List Clause → List (Nat × Nat)
  | _, [] => []
  | i, c :: cs => (c.openerAt i, c.closerAt i) :: bracesOf (i + c.kinds.length) cs

/-- From the word of a clause the braces of all alternatives that follow are found. -/
theorem mem_branchBraces_of_clauses {c : Clause} {cs : List Clause} {all xs ys : List TokenKind}
    (hcs : ∀ d ∈ cs, d.Continues) (h : all = xs ++ ((c :: cs).flatMap Clause.kinds ++ ys)) :
    ∀ p ∈ bracesOf xs.length (c :: cs),
      p.1 ∈ branchBraces all (Pairing.ofKinds all) (c.wordAt xs.length) ∧
        p.2 ∈ branchBraces all (Pairing.ofKinds all) (c.wordAt xs.length) := by
  intro p hp
  induction cs generalizing c xs with
  | nil =>
    obtain rfl := List.mem_singleton.mp hp
    exact Clause.mem_branchBraces_wordAt (by simpa using h)
  | cons d cs ih =>
    rw [bracesOf] at hp
    rcases List.mem_cons.mp hp with rfl | hp
    · exact @Clause.mem_branchBraces_wordAt c all xs ((d :: cs).flatMap Clause.kinds ++ ys)
        (by simpa using h)
    · have hmore := @ih d (xs ++ c.kinds) (fun e he => hcs e (List.mem_cons_of_mem d he))
        (by simpa using h) (by rwa [List.length_append])
      rw [List.length_append] at hmore
      rw [@Clause.branchBraces_wordAt c d all xs (cs.flatMap Clause.kinds ++ ys) (by simpa using h)
        (hcs d List.mem_cons_self)]
      exact hmore.imp (List.mem_cons_of_mem _ ∘ List.mem_cons_of_mem _)
        (List.mem_cons_of_mem _ ∘ List.mem_cons_of_mem _)

/-! ## Whole conditionals -/

/-- A conditional in value position, from the sign that a value follows. -/
structure Chain where
  /-- The sign before the value. -/
  sign : TokenKind
  /-- The clause with the word that opens the conditional. -/
  first : Clause
  /-- The alternatives to it. -/
  others : List Clause
  sign_introduces : sign = .equals ∨ sign = .farArrow
  first_opens : first.word = .ifWord ∨ first.word = .unlessWord
  others_continue : ∀ c ∈ others, c.Continues

namespace Chain

/-- The kinds of a conditional and its sign. -/
def kinds (chain : Chain) : List TokenKind :=
  chain.sign :: (chain.first :: chain.others).flatMap Clause.kinds

/-- The indices of the opening and the closing brace of every branch of a conditional whose sign
stands at an index. -/
def bracesAt (chain : Chain) (i : Nat) : List (Nat × Nat) :=
  bracesOf (i + 1) (chain.first :: chain.others)

variable {chain : Chain} {all xs ys : List TokenKind}

/-- The first word of a conditional behind its sign is one in value position. -/
theorem wordAt_mem_starts (h : all = xs ++ (chain.kinds ++ ys)) :
    chain.first.wordAt (xs.length + 1) ∈ (List.range all.length).filter (startsValue all) := by
  have hsign : (!chain.sign.isTrivia) = true := by
    rcases chain.sign_introduces with hsign | hsign <;> rw [hsign] <;> rfl
  have hall : all = xs ++ chain.sign :: (chain.first.lead ++ chain.first.word ::
      (chain.first.head ++ .openBrace :: (chain.first.body ++ .closeBrace ::
        (chain.others.flatMap Clause.kinds ++ ys)))) := by
    simp [h, kinds, Clause.kinds]
  have hprev : Neighbors.prevCode? all (chain.first.wordAt (xs.length + 1)) = some xs.length := by
    rw [hall]
    exact Neighbors.before?_append chain.first.lead_not_code hsign
  have hword := @Clause.getElem?_wordAt chain.first all (xs ++ [chain.sign])
    (chain.others.flatMap Clause.kinds ++ ys) (by simp [h, kinds])
  rw [List.length_append, List.length_singleton] at hword
  have hbefore : all[xs.length]? = some chain.sign := by simp [hall]
  refine List.mem_filter.mpr ⟨List.mem_range.mpr (List.getElem?_eq_some_iff.mp hword).1, ?_⟩
  simp only [startsValue, hprev, hword, hbefore]
  rcases chain.first_opens with hopens | hopens <;>
    rcases chain.sign_introduces with hintroduces | hintroduces <;>
    rw [hopens, hintroduces] <;> rfl

/-- All braces of the branches of a conditional in value position are found, whatever stands around
it. -/
theorem mem_braces_of_mem_bracesAt (h : all = xs ++ (chain.kinds ++ ys)) :
    ∀ p ∈ chain.bracesAt xs.length, p.1 ∈ braces all (Pairing.ofKinds all) ∧
      p.2 ∈ braces all (Pairing.ofKinds all) := by
  intro p hp
  have hfound := @mem_branchBraces_of_clauses chain.first chain.others all (xs ++ [chain.sign]) ys
    chain.others_continue (by simp [h, kinds]) p
    (by rwa [List.length_append, List.length_singleton])
  rw [List.length_append, List.length_singleton] at hfound
  exact ⟨List.mem_flatMap.mpr ⟨_, wordAt_mem_starts h, hfound.1⟩,
    List.mem_flatMap.mpr ⟨_, wordAt_mem_starts h, hfound.2⟩⟩

end Chain

end ValueConditional

end ManifestSpacing
