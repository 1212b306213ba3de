import Mathlib
import ManifestSpacing.Proofs.Lint.Schedule
import ManifestSpacing.Proofs.Token.Finding

/-!
# What detection passes over

A problem at a closing brace is one of a brace that is checked. So unless the
settings ask for more, detection has nothing to say about the closing braces of
a conditional in value position, in whichever of its branches they stand.
-/

namespace ManifestSpacing

/-- A problem is anchored at the tokens of its site. -/
theorem Outline.anchors_of_judge {outline : Outline} {check : Check} {site : Site} {p : Problem}
    (h : outline.judge check site = some p) : p.check = check ∧
      ∃ left right, outline.tokens[site.left]? = some left ∧ left.id = p.anchors.left ∧
        outline.tokens[site.right]? = some right ∧ right.id = p.anchors.right := by
  obtain ⟨_, hproblem⟩ := Option.ite_none_left_eq_some.mp h
  obtain ⟨q, hq, rfl⟩ := Option.map_eq_some_iff.mp hproblem
  unfold Outline.problem? at hq
  split at hq
  · rename_i left right _ hleft hright _
    cases hq
    exact ⟨rfl, left, right, hleft, rfl, hright, rfl⟩
  · cases hq

section Anchors

variable {tokens : List Token} {checks : CheckSet} {settings : Settings} {p : Problem}
  (hp : p ∈ detect tokens checks settings)

include hp

/-- A problem before a closing brace has a checked brace for its right anchor. -/
theorem exists_checked_right (hcheck : p.check = .closingBraceBefore) :
    ∃ i ∈ (Outline.ofTokens tokens settings).checkedCloseBraces,
      ∃ brace, tokens[i]? = some brace ∧ brace.id = p.anchors.right := by
  obtain ⟨check, _, site, hsite, hjudge⟩ := mem_detect_iff_judge.mp hp
  obtain ⟨rfl, _, brace, _, _, hbrace, hid⟩ := Outline.anchors_of_judge hjudge
  rw [hcheck, Check.sites] at hsite
  obtain ⟨i, hi, hsite⟩ := List.mem_filterMap.mp hsite
  obtain ⟨prev, _, rfl⟩ := Option.map_eq_some_iff.mp hsite
  exact ⟨i, hi, brace, hbrace, hid⟩

/-- A problem behind a closing brace has a checked brace for its left anchor. -/
theorem exists_checked_left (hcheck : p.check = .closingBraceAfter) :
    ∃ i ∈ (Outline.ofTokens tokens settings).checkedCloseBraces,
      ∃ brace, tokens[i]? = some brace ∧ brace.id = p.anchors.left := by
  obtain ⟨check, _, site, hsite, hjudge⟩ := mem_detect_iff_judge.mp hp
  obtain ⟨rfl, brace, _, hbrace, hid, _⟩ := Outline.anchors_of_judge hjudge
  rw [hcheck, Check.sites] at hsite
  obtain ⟨i, hi, hsite⟩ := List.mem_filterMap.mp hsite
  obtain ⟨next, _, hsite⟩ := Option.bind_eq_some_iff.mp hsite
  obtain ⟨follower, _, rfl⟩ := Option.map_eq_some_iff.mp hsite
  exact ⟨i, hi, brace, hbrace, hid⟩

end Anchors

/-- No brace of a conditional in value position is checked unless the settings ask for it. -/
theorem not_mem_checkedCloseBraces {tokens : List Token} {settings : Settings} {i : Nat}
    (hsettings : settings.checkExpressionBraces = false) (hi : i ∈ valueBraces tokens) :
    i ∉ (Outline.ofTokens tokens settings).checkedCloseBraces := by
  intro hmem
  have hexempt : (Outline.ofTokens tokens settings).exempt = valueBraces tokens := by
    simp only [Outline.ofTokens, hsettings, Bool.false_eq_true, if_false]
    rfl
  simp only [Outline.checkedCloseBraces, List.mem_filter, Bool.and_eq_true, Bool.not_eq_true',
    hexempt] at hmem
  exact Bool.false_ne_true (hmem.2.2.symm.trans (List.contains_iff_mem.mpr hi))

/-- Every branch of a conditional in value position has both of its braces marked, whatever stands
around the conditional. Where identities are distinct, no problem of the gaps around closing braces
is anchored at the closing brace of a branch, unless the settings ask for it. -/
theorem detect_spares_value_branches {tokens : List Token} {chain : ValueConditional.Chain}
    {ahead behind : List TokenKind}
    (h : tokens.map Token.kind = ahead ++ (chain.kinds ++ behind)) :
    (∀ branch ∈ chain.bracesAt ahead.length,
      branch.1 ∈ valueBraces tokens ∧ branch.2 ∈ valueBraces tokens) ∧
    ∀ (checks : CheckSet) (settings : Settings), settings.checkExpressionBraces = false →
      (tokens.map Token.id).Nodup → ∀ p ∈ detect tokens checks settings,
        ∀ branch ∈ chain.bracesAt ahead.length, ∀ brace, tokens[branch.2]? = some brace →
          (p.check = .closingBraceBefore → p.anchors.right ≠ brace.id) ∧
            (p.check = .closingBraceAfter → p.anchors.left ≠ brace.id) := by
  have hmarked := ValueConditional.Chain.mem_braces_of_mem_bracesAt h
  refine ⟨hmarked, fun checks settings hsettings hnodup p hp branch hbranch brace hbrace => ?_⟩
  -- a checked brace with the identity of this one would be this one
  have hother {i : Nat} {t : Token}
      (hi : i ∈ (Outline.ofTokens tokens settings).checkedCloseBraces)
      (ht : tokens[i]? = some t) : t.id ≠ brace.id := by
    intro hid
    obtain rfl := eq_of_nodup_map hnodup ht hbrace hid
    exact not_mem_checkedCloseBraces hsettings (hmarked branch hbranch).2 hi
  constructor
  · intro hcheck
    obtain ⟨i, hi, t, ht, hid⟩ := exists_checked_right hp hcheck
    exact hid ▸ hother hi ht
  · intro hcheck
    obtain ⟨i, hi, t, ht, hid⟩ := exists_checked_left hp hcheck
    exact hid ▸ hother hi ht

/-- The braces of both branches are spared behind a stray brace, while other problems are found. -/
theorem detect_spares_value_branches_stray_brace :
    ∃ (s : TokenStream) (chain : ValueConditional.Chain),
      lex "\x7d=if(\x7bx\x7d)\x7ba\x7delse \x7b\x7d" = .ok s ∧
      s.tokens.map Token.kind = [.closeBrace] ++ (chain.kinds ++ []) ∧
      Settings.standard.checkExpressionBraces = false ∧ (s.tokens.map Token.id).Nodup ∧
      chain.bracesAt 1 = [(8, 10), (13, 14)] ∧
      (∀ branch ∈ [(8, 10), (13, 14)],
        branch.1 ∈ valueBraces s.tokens ∧ branch.2 ∈ valueBraces s.tokens) ∧
      detect s.tokens .all .standard ≠ [] ∧
      ∀ p ∈ detect s.tokens .all .standard, ∀ branch ∈ [(8, 10), (13, 14)],
        ∀ brace, s.tokens[branch.2]? = some brace →
          (p.check = .closingBraceBefore → p.anchors.right ≠ brace.id) ∧
            (p.check = .closingBraceAfter → p.anchors.left ≠ brace.id) := by
  let tokens : List Token := [
    ⟨0, .closeBrace, "\x7d", ⟨1, 1⟩⟩, ⟨1, .equals, "=", ⟨1, 2⟩⟩, ⟨2, .ifWord, "if", ⟨1, 3⟩⟩,
    ⟨3, .openParen, "(", ⟨1, 5⟩⟩, ⟨4, .openBrace, "\x7b", ⟨1, 6⟩⟩, ⟨5, .name, "x", ⟨1, 7⟩⟩,
    ⟨6, .closeBrace, "\x7d", ⟨1, 8⟩⟩, ⟨7, .closeParen, ")", ⟨1, 9⟩⟩,
    ⟨8, .openBrace, "\x7b", ⟨1, 10⟩⟩, ⟨9, .name, "a", ⟨1, 11⟩⟩,
    ⟨10, .closeBrace, "\x7d", ⟨1, 12⟩⟩, ⟨11, .elseWord, "else", ⟨1, 13⟩⟩,
    ⟨12, .whitespace, " ", ⟨1, 17⟩⟩, ⟨13, .openBrace, "\x7b", ⟨1, 18⟩⟩,
    ⟨14, .closeBrace, "\x7d", ⟨1, 19⟩⟩]
  have hlex : lex "\x7d=if(\x7bx\x7d)\x7ba\x7delse \x7b\x7d" = .ok ⟨tokens, 15⟩ := by cbv
  have hname : ValueConditional.Nested [.name] :=
    .plain (fun family => by cases family <;> rfl) .nil
  let chain : ValueConditional.Chain :=
    { sign := .equals
      first := ⟨[], .ifWord, [.openParen, .openBrace, .name, .closeBrace, .closeParen], [.name],
        by decide, @ValueConditional.Condition.group .paren [.openBrace, .name, .closeBrace] []
          (by decide) (@ValueConditional.Nested.group .brace [.name] [] hname .nil) .nil, hname⟩
      others := [⟨[], .elseWord, [.whitespace], [], by decide,
        ValueConditional.condition_of_trivia (by decide), .nil⟩]
      sign_introduces := Or.inl rfl
      first_opens := Or.inl rfl
      others_continue := fun c hc => by
        rw [List.mem_singleton.mp hc]
        exact Or.inr rfl }
  obtain ⟨hmarked, hspared⟩ := @detect_spares_value_branches tokens chain [.closeBrace] [] rfl
  exact ⟨⟨tokens, 15⟩, chain, hlex, rfl, rfl, by decide, rfl, hmarked, by decide +kernel,
    hspared .all .standard rfl (by decide)⟩

end ManifestSpacing
