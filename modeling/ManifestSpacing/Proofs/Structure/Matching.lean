import ManifestSpacing.Structure.Pairing

/-!
# Which delimiters are matched

Matching keeps a stack, but what it finds can be said without one: an opener
and a closer of one family belong together exactly when what stands between
them is balanced in that family. So every delimiter has at most one partner,
each of two partners is that of the other, and in a balanced stretch every
delimiter has its partner there.
-/

namespace ManifestSpacing

/-- An element of two joined lists stands in the first or in the second. -/
theorem append_cons_cases {α : Type} {u v xs ys : List α} {a : α} (h : u ++ v = xs ++ a :: ys) :
    (∃ m, u = xs ++ a :: m ∧ ys = m ++ v) ∨ ∃ m, xs = u ++ m ∧ v = m ++ a :: ys := by
  rcases List.append_eq_append_iff.mp h with ⟨m, hxs, hv⟩ | ⟨m, rfl, hm⟩
  · exact Or.inr ⟨m, hxs, hv⟩
  · cases m with
    | nil => exact Or.inr ⟨[], by rw [List.append_nil, List.append_nil], hm.symm⟩
    | cons first m =>
      rw [List.cons_append, List.cons.injEq] at hm
      obtain ⟨rfl, hys⟩ := hm
      exact Or.inl ⟨m, rfl, hys⟩

/-- What stands strictly between two elements. -/
theorem drop_take_append {α : Type} (xs : List α) (a : α) (mid : List α) (b : α) (ys : List α) :
    ((xs ++ a :: (mid ++ b :: ys)).take (xs.length + 1 + mid.length)).drop (xs.length + 1) =
      mid := by
  have hsplit : xs ++ a :: (mid ++ b :: ys) = (xs ++ [a]) ++ (mid ++ b :: ys) := by simp
  rw [hsplit, List.drop_take, show xs.length + 1 = (xs ++ [a]).length by simp, List.drop_left,
    Nat.add_sub_cancel_left, List.take_left]

/-- A list splits at two of its elements, with the others before, between and behind them. -/
theorem exists_split_of_lt {α : Type} {as : List α} {i j : Nat} {a b : α} (ha : as[i]? = some a)
    (hb : as[j]? = some b) (hlt : i < j) :
    ∃ xs ys, xs.length = i ∧ as = xs ++ a :: ((as.take j).drop (i + 1) ++ b :: ys) ∧
      j = i + 1 + ((as.take j).drop (i + 1)).length := by
  obtain ⟨hi, rfl⟩ := List.getElem?_eq_some_iff.mp ha
  obtain ⟨hj, rfl⟩ := List.getElem?_eq_some_iff.mp hb
  have htake : i < (as.take j).length := by
    rw [List.length_take]
    omega
  have hfront : as.take j = as.take i ++ as[i] :: (as.take j).drop (i + 1) :=
    calc as.take j
      _ = (as.take j).take i ++ (as.take j).drop i := (List.take_append_drop i _).symm
      _ = as.take i ++ as[i] :: (as.take j).drop (i + 1) := by
        rw [List.take_take, Nat.min_eq_left (Nat.le_of_lt hlt), List.drop_eq_getElem_cons htake,
          List.getElem_take]
  refine ⟨as.take i, as.drop (j + 1), ?_, ?_, ?_⟩
  · rw [List.length_take]
    omega
  · calc as
      _ = as.take j ++ as.drop j := (List.take_append_drop j as).symm
      _ = as.take i ++ as[i] :: ((as.take j).drop (i + 1) ++ as[j] :: as.drop (j + 1)) := by
        rw [List.drop_eq_getElem_cons hj, hfront, List.append_assoc, List.cons_append, ← hfront]
  · rw [List.length_drop, List.length_take]
    omega

namespace Family

/-- Whether the delimiters of a family in some kinds are balanced. -/
structure Balanced (family : Family) (word : List TokenKind) : Prop where
  /-- No prefix has more closers than openers. -/
  upright : ∀ p, p <+: word → p.count family.closer ≤ p.count family.opener
  /-- The whole has equally many. -/
  settled : word.count family.closer = word.count family.opener

/-- Whether some kinds close `depth` delimiters that are open before them, and all of their own. -/
structure Closes (family : Family) (depth : Nat) (word : List TokenKind) : Prop where
  /-- No prefix closes more than is open. -/
  upright : ∀ p, p <+: word → p.count family.closer ≤ depth + p.count family.opener
  /-- Nothing is open at the end. -/
  settled : word.count family.closer = depth + word.count family.opener

theorem balanced_iff_take {family : Family} {word : List TokenKind} : family.Balanced word ↔
    (∀ n < word.length + 1, (word.take n).count family.closer ≤ (word.take n).count family.opener) ∧
      word.count family.closer = word.count family.opener := by
  constructor
  · exact fun h => ⟨fun n _ => h.upright _ (List.take_prefix n word), h.settled⟩
  · rintro ⟨hupright, hsettled⟩
    refine ⟨fun p hp => ?_, hsettled⟩
    have hn := hupright p.length (Nat.lt_succ_of_le hp.length_le)
    rwa [← List.prefix_iff_eq_take.mp hp] at hn

instance (family : Family) (word : List TokenKind) : Decidable (family.Balanced word) :=
  decidable_of_iff _ balanced_iff_take.symm

theorem opener_ne_closer (family other : Family) : family.opener ≠ other.closer := by
  cases family <;> cases other <;> decide

theorem opener_inj {family other : Family} (h : family.opener = other.opener) : family = other := by
  revert h
  cases family <;> cases other <;> decide

theorem closer_inj {family other : Family} (h : family.closer = other.closer) : family = other := by
  revert h
  cases family <;> cases other <;> decide

variable {family : Family} {depth : Nat} {kind : TokenKind} {word u v : List TokenKind}

/-! ## Reading a word from the front -/

/-- What closes nothing but its own delimiters is balanced. -/
theorem closes_zero_iff : family.Closes 0 word ↔ family.Balanced word :=
  ⟨fun h => ⟨by simpa only [Nat.zero_add] using h.upright,
      by simpa only [Nat.zero_add] using h.settled⟩,
    fun h => ⟨by simpa only [Nat.zero_add] using h.upright,
      by simpa only [Nat.zero_add] using h.settled⟩⟩

@[simp] theorem closes_nil_iff : family.Closes depth [] ↔ depth = 0 := by
  constructor
  · intro h
    simpa using h.settled.symm
  · rintro rfl
    exact ⟨fun p hp => by simp [List.prefix_nil.mp hp], rfl⟩

/-- Closing is judged by the first kind and the rest. -/
private theorem closes_cons_iff : family.Closes depth (kind :: word) ↔
    (∀ p, p <+: word →
      (kind :: p).count family.closer ≤ depth + (kind :: p).count family.opener) ∧
      (kind :: word).count family.closer = depth + (kind :: word).count family.opener := by
  constructor
  · exact fun h => ⟨fun p hp => h.upright _ ((List.prefix_cons_inj kind).mpr hp), h.settled⟩
  · rintro ⟨hupright, hsettled⟩
    refine ⟨fun p hp => ?_, hsettled⟩
    rcases List.prefix_cons_iff.mp hp with rfl | ⟨q, rfl, hq⟩
    · exact Nat.zero_le _
    · exact hupright q hq

@[simp] theorem closes_opener_iff :
    family.Closes depth (family.opener :: word) ↔ family.Closes (depth + 1) word := by
  have hne := opener_ne_closer family family
  rw [closes_cons_iff]
  simp only [List.count_cons_self, List.count_cons_of_ne hne]
  constructor
  · rintro ⟨hupright, hsettled⟩
    exact ⟨fun p hp => by have := hupright p hp; omega, by omega⟩
  · intro h
    exact ⟨fun p hp => by have := h.upright p hp; omega, by have := h.settled; omega⟩

@[simp] theorem closes_closer_iff :
    family.Closes (depth + 1) (family.closer :: word) ↔ family.Closes depth word := by
  have hne := (opener_ne_closer family family).symm
  rw [closes_cons_iff]
  simp only [List.count_cons_self, List.count_cons_of_ne hne]
  constructor
  · rintro ⟨hupright, hsettled⟩
    exact ⟨fun p hp => by have := hupright p hp; omega, by omega⟩
  · intro h
    exact ⟨fun p hp => by have := h.upright p hp; omega, by have := h.settled; omega⟩

@[simp] theorem not_closes_closer : ¬ family.Closes 0 (family.closer :: word) := by
  intro h
  have hfirst := h.upright [family.closer] ⟨word, rfl⟩
  rw [List.count_singleton_self,
    List.count_singleton, if_neg (by simpa using (opener_ne_closer family family).symm)] at hfirst
  omega

/-- Other kinds play no part. -/
theorem closes_other_iff (hopener : kind ≠ family.opener) (hcloser : kind ≠ family.closer) :
    family.Closes depth (kind :: word) ↔ family.Closes depth word := by
  rw [closes_cons_iff]
  simp only [List.count_cons_of_ne hopener, List.count_cons_of_ne hcloser]
  exact ⟨fun h => ⟨h.1, h.2⟩, fun h => ⟨h.upright, h.settled⟩⟩

/-- Words that close the same do so behind a common kind. -/
theorem closes_cons_congr (h : ∀ depth, family.Closes depth u ↔ family.Closes depth v) :
    family.Closes depth (kind :: u) ↔ family.Closes depth (kind :: v) := by
  by_cases hopener : kind = family.opener
  · rw [hopener, closes_opener_iff, closes_opener_iff, h]
  · by_cases hcloser : kind = family.closer
    · rw [hcloser]
      cases depth with
      | zero => simp only [not_closes_closer]
      | succ depth => rw [closes_closer_iff, closes_closer_iff, h]
    · rw [closes_other_iff hopener hcloser, closes_other_iff hopener hcloser, h]

/-- A first kind that may close something closes one of the open delimiters. -/
theorem Closes.depth_pos (h : family.Closes depth (family.closer :: word)) : 0 < depth := by
  cases depth with
  | zero => exact absurd h not_closes_closer
  | succ depth => exact Nat.succ_pos depth

/-- Behind a stretch that closes what it found open, the rest is judged on its own. -/
theorem Closes.append_iff {opened : Nat} (h : family.Closes opened u) :
    family.Closes (opened + depth) (u ++ v) ↔ family.Closes depth v := by
  induction u generalizing opened with
  | nil => rw [closes_nil_iff.mp h, List.nil_append, Nat.zero_add]
  | cons kind u ih =>
    rw [List.cons_append]
    by_cases hopener : kind = family.opener
    · subst hopener
      rw [closes_opener_iff] at h ⊢
      rw [Nat.add_right_comm, ih h]
    · by_cases hcloser : kind = family.closer
      · subst hcloser
        obtain ⟨opened, rfl⟩ := Nat.exists_eq_succ_of_ne_zero (Nat.ne_of_gt h.depth_pos)
        rw [Nat.succ_eq_add_one, closes_closer_iff] at h
        rw [Nat.succ_eq_add_one, Nat.add_right_comm, closes_closer_iff, ih h]
      · rw [closes_other_iff hopener hcloser] at h ⊢
        exact ih h

/-- A balanced stretch can be left out. -/
theorem Balanced.append_iff (h : family.Balanced u) :
    family.Closes depth (u ++ v) ↔ family.Closes depth v := by
  have happend : family.Closes (0 + depth) (u ++ v) ↔ family.Closes depth v :=
    (closes_zero_iff.mpr h).append_iff
  rwa [Nat.zero_add] at happend

/-! ## Where a delimiter is closed -/

/-- What closes one delimiter more goes on behind the closer of that delimiter. -/
theorem Closes.exists_closer (h : family.Closes (depth + 1) word) :
    ∃ u v, word = u ++ family.closer :: v ∧ family.Balanced u ∧ family.Closes depth v := by
  -- the delimiters opened on the way are closed first
  have hinner : ∀ (opened : Nat) (word : List TokenKind), family.Closes (opened + depth + 1) word →
      ∃ u v, word = u ++ family.closer :: v ∧ family.Closes opened u ∧ family.Closes depth v := by
    intro opened word
    induction word generalizing opened with
    | nil =>
      intro h
      have hzero := closes_nil_iff.mp h
      omega
    | cons kind word ih =>
      intro h
      by_cases hopener : kind = family.opener
      · subst hopener
        rw [closes_opener_iff, Nat.add_right_comm opened] at h
        obtain ⟨u, v, rfl, hu, hv⟩ := ih (opened + 1) h
        exact ⟨family.opener :: u, v, rfl, closes_opener_iff.mpr hu, hv⟩
      · by_cases hcloser : kind = family.closer
        · subst hcloser
          rw [closes_closer_iff] at h
          cases opened with
          | zero => exact ⟨[], word, rfl, closes_nil_iff.mpr rfl, by rwa [Nat.zero_add] at h⟩
          | succ opened =>
            rw [Nat.add_right_comm] at h
            obtain ⟨u, v, rfl, hu, hv⟩ := ih opened h
            exact ⟨family.closer :: u, v, rfl, closes_closer_iff.mpr hu, hv⟩
        · rw [closes_other_iff hopener hcloser] at h
          obtain ⟨u, v, rfl, hu, hv⟩ := ih opened h
          exact ⟨kind :: u, v, rfl, (closes_other_iff hopener hcloser).mpr hu, hv⟩
  obtain ⟨u, v, hword, hu, hv⟩ := hinner 0 word (by rwa [Nat.zero_add])
  exact ⟨u, v, hword, closes_zero_iff.mp hu, hv⟩

/-- What follows a part closes what is open behind that part. -/
theorem Closes.exists_of_append (h : family.Closes depth (u ++ v)) :
    ∃ opened, family.Closes opened v := by
  have hu := h.upright u (List.prefix_append u v)
  refine ⟨depth + u.count family.opener - u.count family.closer, fun p hp => ?_, ?_⟩
  · have hp := h.upright (u ++ p) ((List.prefix_append_right_inj u).mpr hp)
    rw [List.count_append, List.count_append] at hp
    omega
  · have hsettled := h.settled
    rw [List.count_append, List.count_append] at hsettled
    omega

/-- Every opener in a balanced stretch has its closer there. -/
theorem Balanced.exists_closer (h : family.Balanced (u ++ family.opener :: v)) :
    ∃ mid w, v = mid ++ family.closer :: w ∧ family.Balanced mid := by
  obtain ⟨opened, hopened⟩ := (closes_zero_iff.mpr h).exists_of_append
  obtain ⟨mid, w, hv, hmid, _⟩ := (closes_opener_iff.mp hopened).exists_closer
  exact ⟨mid, w, hv, hmid⟩

/-- A closer closes the latest opener behind which everything is balanced, or else one of the
delimiters that are open before the stretch. -/
private theorem Closes.exists_opener_or (h : family.Closes depth (u ++ family.closer :: v)) :
    (∃ w mid, u = w ++ family.opener :: mid ∧ family.Balanced mid) ∨
      ∃ opened, opened < depth ∧ family.Closes opened u := by
  induction u generalizing depth with
  | nil => exact Or.inr ⟨0, h.depth_pos, closes_nil_iff.mpr rfl⟩
  | cons kind u ih =>
    rw [List.cons_append] at h
    by_cases hopener : kind = family.opener
    · subst hopener
      rcases ih (closes_opener_iff.mp h) with ⟨w, mid, rfl, hmid⟩ | ⟨opened, hlt, hu⟩
      · exact Or.inl ⟨family.opener :: w, mid, rfl, hmid⟩
      · cases opened with
        | zero => exact Or.inl ⟨[], u, rfl, closes_zero_iff.mp hu⟩
        | succ opened => exact Or.inr ⟨opened, by omega, closes_opener_iff.mpr hu⟩
    · by_cases hcloser : kind = family.closer
      · subst hcloser
        obtain ⟨depth, rfl⟩ := Nat.exists_eq_succ_of_ne_zero (Nat.ne_of_gt h.depth_pos)
        rcases ih (closes_closer_iff.mp h) with ⟨w, mid, rfl, hmid⟩ | ⟨opened, hlt, hu⟩
        · exact Or.inl ⟨family.closer :: w, mid, rfl, hmid⟩
        · exact Or.inr ⟨opened + 1, by omega, closes_closer_iff.mpr hu⟩
      · rcases ih ((closes_other_iff hopener hcloser).mp h) with
          ⟨w, mid, rfl, hmid⟩ | ⟨opened, hlt, hu⟩
        · exact Or.inl ⟨kind :: w, mid, rfl, hmid⟩
        · exact Or.inr ⟨opened, hlt, (closes_other_iff hopener hcloser).mpr hu⟩

/-- Every closer in a balanced stretch has its opener there. -/
theorem Balanced.exists_opener (h : family.Balanced (u ++ family.closer :: v)) :
    ∃ w mid, u = w ++ family.opener :: mid ∧ family.Balanced mid := by
  rcases (closes_zero_iff.mpr h).exists_opener_or with hfound | ⟨opened, hlt, _⟩
  · exact hfound
  · exact absurd hlt (Nat.not_lt_zero opened)

/-! ## Where a balanced stretch ends -/

/-- A closer of a balanced stretch has something to close. -/
theorem Closes.not_balanced_append (h : family.Closes depth u) :
    ¬ family.Balanced (u ++ family.closer :: v) := by
  intro hlonger
  have hupright := hlonger.upright u (List.prefix_append u _)
  have hsettled := h.settled
  obtain rfl : depth = 0 := by omega
  exact not_closes_closer ((closes_zero_iff.mp h).append_iff.mp (closes_zero_iff.mpr hlonger))

/-- Before what is balanced no opener goes ahead. -/
theorem Balanced.not_opener_append (h : family.Balanced v) :
    ¬ family.Balanced (u ++ family.opener :: v) := by
  intro hlonger
  obtain ⟨mid, w, rfl, hmid⟩ := hlonger.exists_closer
  exact (closes_zero_iff.mpr hmid).not_balanced_append h

/-- A text has one balanced stretch at its front that a closer follows. -/
theorem Balanced.eq_of_append_closer {mid mid' : List TokenKind} (h : family.Balanced mid)
    (h' : family.Balanced mid') (heq : mid ++ family.closer :: u = mid' ++ family.closer :: v) :
    mid = mid' := by
  rcases append_cons_cases heq with ⟨m, rfl, _⟩ | ⟨m, rfl, hm⟩
  · exact absurd h (closes_zero_iff.mpr h').not_balanced_append
  · cases m with
    | nil => rw [List.append_nil]
    | cons kind m =>
      obtain ⟨rfl, _⟩ := List.cons.inj hm
      exact absurd h' (closes_zero_iff.mpr h).not_balanced_append

/-- The end of a balanced stretch separates no pair. -/
theorem Balanced.pair_cases {mid xs ys : List TokenKind} (h : family.Balanced u)
    (hmid : family.Balanced mid)
    (heq : u ++ v = xs ++ family.opener :: (mid ++ family.closer :: ys)) :
    (∃ w, u = xs ++ family.opener :: (mid ++ family.closer :: w)) ∨
      ∃ w, v = w ++ family.opener :: (mid ++ family.closer :: ys) := by
  rcases append_cons_cases heq with ⟨m, rfl, hrest⟩ | ⟨m, _, hv⟩
  · obtain ⟨mid', w, rfl, hmid'⟩ := h.exists_closer
    rw [List.append_assoc, List.cons_append] at hrest
    rw [hmid.eq_of_append_closer hmid' hrest]
    exact Or.inl ⟨w, rfl⟩
  · exact Or.inr ⟨m, hv⟩

/-! ## Matched pairs -/

/-- Whether the kinds from index `i` on close at `b` an opener that has `depth` others open behind
it. -/
private def ClosedAt (family : Family) (depth i : Nat) (kinds : List TokenKind) (b : Nat) : Prop :=
  ∃ mid rest, kinds = mid ++ family.closer :: rest ∧ family.Closes depth mid ∧ b = i + mid.length

/-- Whether the kinds from index `i` on have an opener at `a` and its closer at `b`. -/
private def PairedAmong (family : Family) (i : Nat) (kinds : List TokenKind) (a b : Nat) : Prop :=
  ∃ xs rest, kinds = xs ++ family.opener :: rest ∧ a = i + xs.length ∧
    family.ClosedAt 0 (a + 1) rest b

section Scan

variable {stack : List Nat} {i a b : Nat} {kinds : List TokenKind}

private theorem closedAt_cons_iff {opened : Nat} (hkind : kind = family.closer → depth ≠ 0)
    (hstep : ∀ mid, family.Closes depth (kind :: mid) ↔ family.Closes opened mid) :
    family.ClosedAt depth i (kind :: kinds) b ↔ family.ClosedAt opened (i + 1) kinds b := by
  constructor
  · rintro ⟨mid, rest, hkinds, hmid, rfl⟩
    cases mid with
    | nil => exact absurd (closes_nil_iff.mp hmid) (hkind (List.cons.inj hkinds).1)
    | cons first mid =>
      obtain ⟨rfl, rfl⟩ := List.cons.inj hkinds
      refine ⟨mid, rest, rfl, (hstep mid).mp hmid, ?_⟩
      rw [List.length_cons, Nat.add_right_comm, Nat.add_assoc]
  · rintro ⟨mid, rest, rfl, hmid, rfl⟩
    refine ⟨kind :: mid, rest, rfl, (hstep mid).mpr hmid, ?_⟩
    rw [List.length_cons, Nat.add_right_comm, Nat.add_assoc]

private theorem closedAt_closer_zero_iff :
    family.ClosedAt 0 i (family.closer :: kinds) b ↔ b = i := by
  constructor
  · rintro ⟨mid, rest, hkinds, hmid, rfl⟩
    cases mid with
    | nil => rfl
    | cons first mid =>
      obtain ⟨rfl, _⟩ := List.cons.inj hkinds
      exact absurd hmid not_closes_closer
  · rintro rfl
    exact ⟨[], kinds, rfl, closes_nil_iff.mpr rfl, rfl⟩

private theorem pairedAmong_cons_iff : family.PairedAmong i (kind :: kinds) a b ↔
    (kind = family.opener ∧ a = i ∧ family.ClosedAt 0 (i + 1) kinds b) ∨
      family.PairedAmong (i + 1) kinds a b := by
  constructor
  · rintro ⟨xs, rest, hkinds, rfl, hclosed⟩
    cases xs with
    | nil =>
      obtain ⟨rfl, rfl⟩ := List.cons.inj hkinds
      exact Or.inl ⟨rfl, rfl, hclosed⟩
    | cons first xs =>
      obtain ⟨rfl, rfl⟩ := List.cons.inj hkinds
      refine Or.inr ⟨xs, rest, rfl, ?_, hclosed⟩
      rw [List.length_cons, Nat.add_right_comm, Nat.add_assoc]
  · rintro (⟨rfl, rfl, hclosed⟩ | ⟨xs, rest, rfl, rfl, hclosed⟩)
    · exact ⟨[], kinds, rfl, rfl, hclosed⟩
    · refine ⟨kind :: xs, rest, rfl, ?_, hclosed⟩
      rw [List.length_cons, Nat.add_right_comm, Nat.add_assoc]

/-- What is asked of an opener on a stack is asked of the first one or of one below it. -/
private theorem exists_getElem?_cons {opened : Nat} {test : Nat → Prop} :
    (∃ depth, (opened :: stack)[depth]? = some a ∧ test depth) ↔
      a = opened ∧ test 0 ∨ ∃ depth, stack[depth]? = some a ∧ test (depth + 1) := by
  rw [← Nat.or_exists_add_one, List.getElem?_cons_zero, Option.some.injEq, eq_comm]
  simp only [List.getElem?_cons_succ]

/-- A scan finds the closers of the openers on its stack and the pairs among the kinds that it
reads. -/
private theorem mem_pairsFrom_iff : (a, b) ∈ family.pairsFrom stack i kinds ↔
    (∃ depth, stack[depth]? = some a ∧ family.ClosedAt depth i kinds b) ∨
      family.PairedAmong i kinds a b := by
  induction kinds generalizing stack i with
  | nil => simp [pairsFrom, PairedAmong, ClosedAt]
  | cons kind kinds ih =>
    rw [pairsFrom.eq_def, pairedAmong_cons_iff]
    by_cases hopener : kind = family.opener
    · subst hopener
      have hstep (depth : Nat) : family.ClosedAt depth i (family.opener :: kinds) b ↔
          family.ClosedAt (depth + 1) (i + 1) kinds b :=
        closedAt_cons_iff (fun h => absurd h (opener_ne_closer family family))
          fun _ => closes_opener_iff
      simp only [if_true, ih, exists_getElem?_cons, hstep, true_and]
      rw [or_assoc, or_left_comm]
    · by_cases hcloser : kind = family.closer
      · subst hcloser
        have hstep (depth : Nat) : family.ClosedAt (depth + 1) i (family.closer :: kinds) b ↔
            family.ClosedAt depth (i + 1) kinds b :=
          closedAt_cons_iff (fun _ => Nat.succ_ne_zero depth) fun _ => closes_closer_iff
        cases stack with
        | nil => simp [hopener, ih]
        | cons opened stack =>
          simp only [hopener, if_false, if_true, List.mem_cons, Prod.mk.injEq, ih,
            exists_getElem?_cons, closedAt_closer_zero_iff, hstep, false_and, false_or, or_assoc]
      · have hstep (depth : Nat) : family.ClosedAt depth i (kind :: kinds) b ↔
            family.ClosedAt depth (i + 1) kinds b :=
          closedAt_cons_iff (fun h => absurd h hcloser)
            fun _ => closes_other_iff hopener hcloser
        simp only [hopener, hcloser, if_false, ih, hstep, false_and, false_or]

end Scan

/-- Two delimiters are matched exactly when what stands between them is balanced. -/
theorem mem_pairs_iff {kinds : List TokenKind} {a b : Nat} :
    (a, b) ∈ family.pairs kinds ↔
      ∃ xs mid ys, kinds = xs ++ family.opener :: (mid ++ family.closer :: ys) ∧
        a = xs.length ∧ b = xs.length + 1 + mid.length ∧ family.Balanced mid := by
  rw [pairs, mem_pairsFrom_iff]
  constructor
  · rintro (⟨_, hstack, _⟩ | ⟨xs, _, rfl, rfl, mid, ys, rfl, hmid, rfl⟩)
    · simp at hstack
    · rw [Nat.zero_add]
      exact ⟨xs, mid, ys, rfl, rfl, rfl, closes_zero_iff.mp hmid⟩
  · rintro ⟨xs, mid, ys, rfl, rfl, rfl, hmid⟩
    exact Or.inr ⟨xs, _, rfl, (Nat.zero_add _).symm, mid, ys, rfl, closes_zero_iff.mpr hmid, rfl⟩

section Partners

variable {kinds : List TokenKind} {a b c : Nat}

theorem getElem?_of_mem_pairs (h : (a, b) ∈ family.pairs kinds) :
    kinds[a]? = some family.opener ∧ kinds[b]? = some family.closer := by
  obtain ⟨xs, mid, ys, rfl, rfl, rfl, _⟩ := mem_pairs_iff.mp h
  constructor
  · rw [List.getElem?_append_right (Nat.le_refl _), Nat.sub_self, List.getElem?_cons_zero]
  · rw [List.getElem?_append_right (by omega),
      show xs.length + 1 + mid.length - xs.length = mid.length + 1 by omega,
      List.getElem?_cons_succ, List.getElem?_append_right (Nat.le_refl _), Nat.sub_self,
      List.getElem?_cons_zero]

/-- An opener has one closer. -/
theorem snd_eq_of_mem_pairs (h : (a, b) ∈ family.pairs kinds) (h' : (a, c) ∈ family.pairs kinds) :
    b = c := by
  obtain ⟨xs, mid, ys, rfl, rfl, rfl, hmid⟩ := mem_pairs_iff.mp h
  obtain ⟨xs', mid', ys', hkinds, hlength, rfl, hmid'⟩ := mem_pairs_iff.mp h'
  obtain ⟨rfl, hrest⟩ := List.append_inj hkinds hlength
  rw [hmid.eq_of_append_closer hmid' (List.cons.inj hrest).2]

/-- A closer has one opener. -/
theorem fst_eq_of_mem_pairs (h : (a, c) ∈ family.pairs kinds) (h' : (b, c) ∈ family.pairs kinds) :
    a = b := by
  obtain ⟨xs, mid, ys, rfl, rfl, rfl, hmid⟩ := mem_pairs_iff.mp h
  obtain ⟨xs', mid', ys', hkinds, rfl, hlength, hmid'⟩ := mem_pairs_iff.mp h'
  have hfront : xs ++ family.opener :: mid = xs' ++ family.opener :: mid' := by
    rw [← List.cons_append, ← List.cons_append, ← List.append_assoc, ← List.append_assoc] at hkinds
    exact (List.append_inj hkinds (by simp only [List.length_append, List.length_cons]; omega)).1
  rcases List.append_eq_append_iff.mp hfront with ⟨m, rfl, hm⟩ | ⟨m, rfl, hm⟩
  · cases m with
    | nil => rw [List.append_nil]
    | cons kind m =>
      obtain ⟨rfl, rfl⟩ := List.cons.inj hm
      exact absurd hmid hmid'.not_opener_append
  · cases m with
    | nil => rw [List.append_nil]
    | cons kind m =>
      obtain ⟨rfl, rfl⟩ := List.cons.inj hm
      exact absurd hmid' hmid.not_opener_append

end Partners

end Family

namespace Pairing

variable {kinds : List TokenKind} {i j : Nat}

theorem mem_pairs_ofKinds {p : Nat × Nat} :
    p ∈ (ofKinds kinds).pairs ↔ ∃ family : Family, p ∈ family.pairs kinds := by
  simp only [ofKinds, List.mem_flatMap]
  constructor
  · exact fun ⟨family, _, h⟩ => ⟨family, h⟩
  · exact fun ⟨family, h⟩ => ⟨family, by cases family <;> decide, h⟩

/-- A pair is known by either of its ends. -/
private theorem eq_of_mem_pairs {p q : Nat × Nat} (hp : p ∈ (ofKinds kinds).pairs)
    (hq : q ∈ (ofKinds kinds).pairs) (h : p.1 = q.1 ∨ p.2 = q.2) : p = q := by
  obtain ⟨a, b⟩ := p
  obtain ⟨c, d⟩ := q
  obtain ⟨family, hp⟩ := mem_pairs_ofKinds.mp hp
  obtain ⟨other, hq⟩ := mem_pairs_ofKinds.mp hq
  obtain ⟨hopen, hclose⟩ := Family.getElem?_of_mem_pairs hp
  obtain ⟨hopen', hclose'⟩ := Family.getElem?_of_mem_pairs hq
  rcases h with rfl | rfl
  · obtain rfl := Family.opener_inj (Option.some.inj (hopen.symm.trans hopen'))
    rw [Family.snd_eq_of_mem_pairs hp hq]
  · obtain rfl := Family.closer_inj (Option.some.inj (hclose.symm.trans hclose'))
    rw [Family.fst_eq_of_mem_pairs hp hq]

/-- A pair that passes a test of one of its ends is the one that a search by the test finds. -/
private theorem find?_eq_some {test : Nat × Nat → Bool} {p : Nat × Nat}
    (hp : p ∈ (ofKinds kinds).pairs) (htest : test p = true)
    (hend : ∀ q, test q = true → p.1 = q.1 ∨ p.2 = q.2) :
    (ofKinds kinds).pairs.find? test = some p := by
  have hsome : ((ofKinds kinds).pairs.find? test).isSome := by
    rw [List.find?_isSome]
    exact ⟨p, hp, htest⟩
  obtain ⟨q, hq⟩ := Option.isSome_iff_exists.mp hsome
  rw [hq, eq_of_mem_pairs hp (List.mem_of_find?_eq_some hq) (hend q (List.find?_some hq))]

theorem closerOf?_eq_some_iff :
    (ofKinds kinds).closerOf? i = some j ↔ ∃ family : Family, (i, j) ∈ family.pairs kinds := by
  rw [← mem_pairs_ofKinds]
  constructor
  · intro h
    obtain ⟨p, hp, rfl⟩ := Option.map_eq_some_iff.mp h
    have hi : p.1 = i := by simpa using List.find?_some hp
    exact hi ▸ List.mem_of_find?_eq_some hp
  · intro h
    rw [closerOf?, find?_eq_some h (beq_self_eq_true i) fun q hq => Or.inl (eq_of_beq hq).symm]
    rfl

theorem openerOf?_eq_some_iff :
    (ofKinds kinds).openerOf? j = some i ↔ ∃ family : Family, (i, j) ∈ family.pairs kinds := by
  rw [← mem_pairs_ofKinds]
  constructor
  · intro h
    obtain ⟨p, hp, rfl⟩ := Option.map_eq_some_iff.mp h
    have hj : p.2 = j := by simpa using List.find?_some hp
    exact hj ▸ List.mem_of_find?_eq_some hp
  · intro h
    rw [openerOf?, find?_eq_some h (beq_self_eq_true j) fun q hq => Or.inr (eq_of_beq hq).symm]
    rfl

/-- Two delimiters are partners exactly when they are matched, in either order. -/
theorem partner?_eq_some_iff : (ofKinds kinds).partner? i = some j ↔
    ∃ family : Family, (i, j) ∈ family.pairs kinds ∨ (j, i) ∈ family.pairs kinds := by
  rw [partner?, Option.or_eq_some_iff, closerOf?_eq_some_iff, openerOf?_eq_some_iff]
  constructor
  · rintro (⟨family, h⟩ | ⟨_, family, h⟩)
    · exact ⟨family, Or.inl h⟩
    · exact ⟨family, Or.inr h⟩
  · rintro ⟨family, h | h⟩
    · exact Or.inl ⟨family, h⟩
    · refine Or.inr ⟨?_, family, h⟩
      -- a closer opens nothing
      rw [Option.eq_none_iff_forall_ne_some]
      intro k hk
      obtain ⟨other, hother⟩ := closerOf?_eq_some_iff.mp hk
      have hkind := (Family.getElem?_of_mem_pairs h).2
      rw [(Family.getElem?_of_mem_pairs hother).1] at hkind
      exact Family.opener_ne_closer other family (Option.some.inj hkind)

end Pairing

end ManifestSpacing
