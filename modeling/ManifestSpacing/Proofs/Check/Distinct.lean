import ManifestSpacing.Proofs.Check.Demands

/-!
# No gap is asked for twice

A check looks at most once behind a token. What is demanded of a gap, with the
kind of the token before it, tells which check demands it. So of all checks
together no two make the same demand behind one token.
-/

namespace ManifestSpacing

/-- Whether a check makes a demand behind a token of some kind. -/
def Check.Asks (check : Check) (left : TokenKind) (demand : Demand) : Prop :=
  match check with
  | .inheritsNameBefore => left = .inheritsWord ∧ demand = .word
  | .inheritsNameAfter => (left = .name ∨ left = .classRef) ∧ demand = .word
  | .closingBraceBefore => ∃ afterOpener, demand = .body afterOpener
  | .closingBraceAfter => ∃ next, demand = .follower next

/-- The demand tells the check. -/
theorem Check.Asks.check_eq {check other : Check} {left : TokenKind} {demand : Demand}
    (h : check.Asks left demand) (h' : other.Asks left demand) : check = other := by
  cases check <;> cases other <;> simp only [Asks] at h h' <;> grind

section Sites

variable {content : List Token} {settings : Settings}
  (hsolid : ∀ t ∈ content, t.kind.isBlank = false)

include hsolid

/-- What a check asks for at its sites. -/
theorem asks_of_mem_sites {check : Check} {site : Site}
    (h : site ∈ check.sites (Outline.ofTokens content settings)) :
    ∃ a, content[site.left]? = some a ∧ check.Asks a.kind site.demand := by
  obtain ⟨_, a, _, ha, _⟩ := (fits_of_mem_sites hsolid h).exists_ends
  refine ⟨a, ha, ?_⟩
  cases check with
  | inheritsNameBefore =>
    obtain ⟨keyword, hkeyword, hsite⟩ := List.mem_filterMap.mp h
    obtain ⟨name, _, rfl⟩ := Option.map_eq_some_iff.mp hsite
    obtain ⟨t, ht, hkind⟩ := kind_eq_some (eq_of_beq (List.mem_filter.mp hkeyword).2)
    rw [Option.some.inj (ha.symm.trans ht)]
    exact ⟨hkind, rfl⟩
  | inheritsNameAfter =>
    obtain ⟨keyword, _, hsite⟩ := List.mem_filterMap.mp h
    obtain ⟨name, hname, hsite⟩ := Option.bind_eq_some_iff.mp hsite
    obtain ⟨brace, _, hsite⟩ := Option.bind_eq_some_iff.mp hsite
    split at hsite
    · cases hsite
      obtain ⟨_, _, t, ht, hkind⟩ := parent?_eq_some hsolid hname
      rw [Option.some.inj (ha.symm.trans ht)]
      exact ⟨hkind, rfl⟩
    · cases hsite
  | closingBraceBefore =>
    obtain ⟨brace, _, hsite⟩ := List.mem_filterMap.mp h
    obtain ⟨prev, _, rfl⟩ := Option.map_eq_some_iff.mp hsite
    exact ⟨_, rfl⟩
  | closingBraceAfter =>
    obtain ⟨brace, _, hsite⟩ := List.mem_filterMap.mp h
    obtain ⟨next, _, hsite⟩ := Option.bind_eq_some_iff.mp hsite
    obtain ⟨follower, _, rfl⟩ := Option.map_eq_some_iff.mp hsite
    exact ⟨_, rfl⟩

/-- A check looks at most once behind a token. -/
theorem pairwise_left_sites (check : Check) :
    (check.sites (Outline.ofTokens content settings)).Pairwise fun a b => a.left ≠ b.left := by
  cases check with
  | inheritsNameBefore =>
    refine List.pairwise_filterMap.mpr ((List.pairwise_lt_range.filter _).imp ?_)
    intro i j hij a ha b hb
    obtain ⟨_, _, rfl⟩ := Option.map_eq_some_iff.mp ha
    obtain ⟨_, _, rfl⟩ := Option.map_eq_some_iff.mp hb
    exact Nat.ne_of_lt hij
  | inheritsNameAfter =>
    refine List.pairwise_filterMap.mpr ((List.pairwise_lt_range.filter _).imp_of_mem ?_)
    intro i j _ hj hij a ha b hb
    obtain ⟨name, hname, ha⟩ := Option.bind_eq_some_iff.mp ha
    obtain ⟨_, _, ha⟩ := Option.bind_eq_some_iff.mp ha
    obtain ⟨name', hname', hb⟩ := Option.bind_eq_some_iff.mp hb
    obtain ⟨_, _, hb⟩ := Option.bind_eq_some_iff.mp hb
    split at ha
    · split at hb
      · cases ha
        cases hb
        rintro rfl
        -- the second keyword would stand between the first one and its name
        obtain ⟨_, hbetween, _⟩ := parent?_eq_some hsolid hname
        obtain ⟨t, ht, hcomment⟩ := hbetween j hij (parent?_eq_some hsolid hname').1
        obtain ⟨u, hu, hword⟩ := kind_eq_some (eq_of_beq (List.mem_filter.mp hj).2)
        rw [Option.some.inj (hu.symm.trans ht), hcomment] at hword
        cases hword
      · cases hb
    · cases ha
  | closingBraceBefore =>
    refine List.pairwise_filterMap.mpr ((List.pairwise_lt_range.filter _).imp_of_mem ?_)
    intro i j hi hj hij a ha b hb
    obtain ⟨prev, hprev, rfl⟩ := Option.map_eq_some_iff.mp ha
    obtain ⟨prev', hprev', rfl⟩ := Option.map_eq_some_iff.mp hb
    have hlt {i : Nat} (hi : i ∈ List.range (content.map Token.kind).length) :
        i < content.length := by simpa using hi
    have hnext := prevContent?_eq_some hsolid (hlt (List.mem_filter.mp hi).1) hprev
    have hnext' := prevContent?_eq_some hsolid (hlt (List.mem_filter.mp hj).1) hprev'
    simp only [ne_eq]
    omega
  | closingBraceAfter =>
    refine List.pairwise_filterMap.mpr ((List.pairwise_lt_range.filter _).imp ?_)
    intro i j hij a ha b hb
    obtain ⟨_, _, ha⟩ := Option.bind_eq_some_iff.mp ha
    obtain ⟨_, _, rfl⟩ := Option.map_eq_some_iff.mp ha
    obtain ⟨_, _, hb⟩ := Option.bind_eq_some_iff.mp hb
    obtain ⟨_, _, rfl⟩ := Option.map_eq_some_iff.mp hb
    exact Nat.ne_of_lt hij

end Sites

end ManifestSpacing
