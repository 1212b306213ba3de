import ManifestSpacing.Proofs.Lexical.Scanning

/-!
# Cutting off one token

Everything one step of the lexer can do, as a relation between the strings
that are open, the token that is cut off, the text that stays behind and the
strings that are open then. The step function finds exactly the cuts of this
relation. Each constructor says what the rest must be like for the token to end
where it ends, so a change behind a token is judged by the relation alone.
-/

namespace ManifestSpacing

namespace Lexer

open Grammar

/-- A token of a kind and a text is cut off before a rest; the strings `opens` are open before it
and `after` are open behind it. -/
inductive Cut (here : Position) :
    List OpenString → TokenKind → List Char → List Char → List OpenString → Prop where
  /-- Spaces and tabs, up to something else. -/
  | blanks {opens : List OpenString} {c : Char} {cs rest : List Char}
      (hall : ∀ d ∈ c :: cs, isSpacing d = true) (hrest : ∀ d ∈ rest.head?, isSpacing d = false) :
      Cut here opens .whitespace (c :: cs) rest opens
  | lineFeed {opens : List OpenString} {rest : List Char} :
      Cut here opens .newline ['\n'] rest opens
  | returnLineFeed {opens : List OpenString} {rest : List Char} :
      Cut here opens .newline ['\r', '\n'] rest opens
  /-- A return that no line feed follows. -/
  | loneReturn {opens : List OpenString} {rest : List Char} (hrest : rest.head? ≠ some '\n') :
      Cut here opens .other ['\r'] rest opens
  /-- A comment to the end of its line. -/
  | lineComment {opens : List OpenString} {cs rest : List Char}
      (hall : ∀ d ∈ cs, endsLine d = false) (hrest : ∀ d ∈ rest.head?, endsLine d = true) :
      Cut here opens .comment ('#' :: cs) rest opens
  /-- A comment between its marks. -/
  | blockComment {opens : List OpenString} {cs rest : List Char}
      (hend : commentEnd? cs = some cs.length) :
      Cut here opens .comment ('/' :: '*' :: cs) rest opens
  /-- The mark of a block comment that never ends. -/
  | openComment {opens : List OpenString} {rest : List Char} (hrest : commentEnd? rest = none) :
      Cut here opens .other ['/', '*'] rest opens
  /-- A closed single-quoted string. -/
  | quoted {opens : List OpenString} {cs rest : List Char}
      (hend : closingQuote? cs = some cs.length) :
      Cut here opens .string ('\'' :: cs) rest opens
  /-- A single-quoted string up to where it breaks off. -/
  | brokenQuote {opens : List OpenString} {cs rest : List Char}
      (hopen : ∀ rest, BreaksOff rest →
        closingQuote? (cs ++ rest) = none ∧ quotedLength (cs ++ rest) = cs.length)
      (hrest : BreaksOff rest) : Cut here opens .other ('\'' :: cs) rest opens
  /-- A double-quoted string without interpolation. -/
  | string {opens : List OpenString} {cs rest : List Char}
      (hscan : Segment.scan cs = some (.closed, cs.length)) :
      Cut here opens .string ('"' :: cs) rest opens
  /-- A double-quoted string up to its first interpolation. -/
  | quoteOpen {opens : List OpenString} {cs rest : List Char}
      (hscan : Segment.scan cs = some (.interpolation, cs.length)) :
      Cut here opens .quoteOpen ('"' :: cs) rest (⟨0, here⟩ :: opens)
  | openBrace {opens : List OpenString} {rest : List Char} :
      Cut here opens .openBrace ['\x7b'] rest (countBrace opens)
  /-- A closing brace outside all strings. -/
  | closeBrace {rest : List Char} : Cut here [] .closeBrace ['\x7d'] rest []
  /-- A closing brace of code inside an interpolation. -/
  | innerBrace {o : OpenString} {os : List OpenString} {rest : List Char} (h : 0 < o.braces) :
      Cut here (o :: os) .closeBrace ['\x7d'] rest ({ o with braces := o.braces - 1 } :: os)
  /-- The end of a string after its last interpolation. -/
  | quoteClose {o : OpenString} {os : List OpenString} {cs rest : List Char} (h : o.braces = 0)
      (hscan : Segment.scan cs = some (.closed, cs.length)) :
      Cut here (o :: os) .quoteClose ('\x7d' :: cs) rest os
  /-- The text of a string between two interpolations. -/
  | quoteMid {o : OpenString} {os : List OpenString} {cs rest : List Char} (h : o.braces = 0)
      (hscan : Segment.scan cs = some (.interpolation, cs.length)) :
      Cut here (o :: os) .quoteMid ('\x7d' :: cs) rest (o :: os)
  /-- A complete lexeme of code. -/
  | plain {opens : List OpenString} {c : Char} {cs rest : List Char} {kind : TokenKind}
      (hc : startsCode c = true)
      (hfirst : firstLexeme (c :: (cs ++ rest)) = (.plain kind, cs.length + 1)) :
      Cut here opens kind (c :: cs) rest opens
  /-- A lower-case name or a reserved word. -/
  | word {opens : List OpenString} {c : Char} {cs rest : List Char} (hc : startsCode c = true)
      (hfirst : firstLexeme (c :: (cs ++ rest)) = (.word, cs.length + 1)) :
      Cut here opens (wordKind (String.ofList (c :: cs))) (c :: cs) rest opens

/-- A run is taken exactly when it satisfies the test and what follows it does not. -/
private theorem takeWhile_append_eq {test : Char → Bool} {run rest : List Char}
    (hall : ∀ d ∈ run, test d = true) (hrest : ∀ d ∈ rest.head?, test d = false) :
    (run ++ rest).takeWhile test = run := by
  rw [List.takeWhile_append_of_pos hall]
  cases rest with
  | nil => simp
  | cons d rest => simp [hrest d rfl]

private theorem not_test_of_mem_head?_dropWhile {test : Char → Bool} {cs : List Char} :
    ∀ d ∈ (cs.dropWhile test).head?, test d = false := by
  intro d hd
  have hne : cs.dropWhile test ≠ [] := by
    intro he
    rw [he] at hd
    cases hd
  have hnot := List.head_dropWhile_not test hne
  rwa [Option.some.inj ((List.head?_eq_some_head hne).symm.trans hd)] at hnot

/-- What a cut leaves is what the step finds. -/
theorem step_of_cut {here : Position} {opens after : List OpenString} {kind : TokenKind}
    {text rest : List Char} (h : Cut here opens kind text rest after) :
    step opens here (text ++ rest) = .ok ⟨kind, text.length, after⟩ := by
  cases h with
  | @blanks _ c cs _ hall hrest =>
    have hrun : (cs ++ rest).takeWhile isSpacing = cs :=
      takeWhile_append_eq (fun d hd => hall d (List.mem_cons_of_mem _ hd)) hrest
    simp [step, firstLexeme_of_isSpacing (hall c List.mem_cons_self), hrun]
  | lineFeed => simp [step, firstLexeme_lineFeed]
  | returnLineFeed => simp [step, firstLexeme_return_lineFeed]
  | loneReturn hrest => simp [step, firstLexeme_return hrest]
  | @lineComment _ cs _ hall hrest =>
    have hrun : ((cs ++ rest).takeWhile fun c => !endsLine c) = cs :=
      takeWhile_append_eq (fun d hd => by simp [hall d hd]) (fun d hd => by simp [hrest d hd])
    simp [step, firstLexeme_numberSign, hrun]
  | blockComment hend =>
    simp [step, firstLexeme_slash_star, commentEnd?_append hend]
    omega
  | openComment hrest => simp [step, firstLexeme_slash_star, hrest]
  | quoted hend => simp [step, firstLexeme_singleQuote (closingQuote?_append hend rest)]
  | brokenQuote hopen hrest =>
    obtain ⟨hnone, hlen⟩ := hopen rest hrest
    simp [step, firstLexeme_brokenQuote hnone, hlen]
  | string hscan =>
    simp [step, firstLexeme_doubleQuote, Segment.scan_append hscan, Nat.add_comm]
  | quoteOpen hscan =>
    simp [step, firstLexeme_doubleQuote, Segment.scan_append hscan, Nat.add_comm]
  | openBrace => simp [step, firstLexeme_openBrace]
  | closeBrace => simp [step, firstLexeme_closeBrace]
  | innerBrace h => simp [step, firstLexeme_closeBrace, h]
  | quoteClose h hscan =>
    simp [step, firstLexeme_closeBrace, h, Segment.scan_append hscan, Nat.add_comm]
  | quoteMid h hscan =>
    simp [step, firstLexeme_closeBrace, h, Segment.scan_append hscan, Nat.add_comm]
  | plain hc hfirst => simp [step, hfirst]
  | word hc hfirst => simp [step, hfirst]

/-- The text of a scanned segment with the character before it, and what is left. -/
private theorem split_of_scan (c : Char) {cs : List Char} {segment : Segment} {k : Nat}
    (h : Segment.scan cs = some (segment, k)) : c :: cs = (c :: cs.take k) ++ cs.drop k ∧
      (c :: cs.take k).length = 1 + k ∧
      Segment.scan (cs.take k) = some (segment, (cs.take k).length) := by
  obtain ⟨hlen, hscan⟩ := Segment.scan_take h
  refine ⟨by rw [List.cons_append, List.take_append_drop], ?_, hscan⟩
  rw [List.length_cons, hlen, Nat.add_comm]

private theorem cut_of_step_code {here : Position} {opens : List OpenString} {c : Char}
    (hc : startsCode c = true) {cs : List Char} {found : Step}
    (h : step opens here (c :: cs) = .ok found) : ∃ text rest, c :: cs = text ++ rest ∧
      text.length = found.length ∧ Cut here opens found.kind text rest found.opens := by
  cases hfirst : firstLexeme (c :: cs) with
  | mk lexeme n =>
    obtain ⟨hpos, hle⟩ := firstLexeme_bounds hfirst
    obtain ⟨m, rfl⟩ := Nat.exists_eq_add_of_lt hpos
    rw [Nat.zero_add] at hfirst hle
    have hsplit : c :: cs = (c :: cs.take m) ++ cs.drop m := by
      rw [List.cons_append, List.take_append_drop]
    have hlen : (c :: cs.take m).length = m + 1 := by
      rw [List.length_cons, List.length_take]
      omega
    have hfirst' : firstLexeme (c :: (cs.take m ++ cs.drop m)) =
        (lexeme, (cs.take m).length + 1) := by
      rw [List.take_append_drop, hfirst]
      exact congrArg (Prod.mk lexeme) hlen.symm
    cases lexeme with
    | plain kind =>
      simp only [step, hfirst] at h
      cases h
      exact ⟨_, _, hsplit, hlen, .plain hc hfirst'⟩
    | word =>
      simp only [step, hfirst] at h
      cases h
      exact ⟨_, _, hsplit, hlen, .word hc hfirst'⟩
    | commentStart =>
      obtain ⟨rest, hrest⟩ := eq_slash_star_of_firstLexeme hfirst
      rw [hrest] at h ⊢
      simp only [step, firstLexeme_slash_star, List.drop_succ_cons, List.drop_zero] at h
      split at h
      · rename_i k hk
        cases h
        obtain ⟨hk', hend⟩ := commentEnd?_take hk
        refine ⟨'/' :: '*' :: rest.take k, rest.drop k, by simp, ?_, .blockComment hend⟩
        rw [List.length_cons, List.length_cons, hk']
        exact Nat.add_comm k 2
      · rename_i hnone
        cases h
        exact ⟨['/', '*'], rest, rfl, rfl, .openComment hnone⟩
    | quote =>
      obtain ⟨rest, hrest⟩ := eq_doubleQuote_of_firstLexeme hfirst
      rw [hrest] at h ⊢
      simp only [step, firstLexeme_doubleQuote, List.drop_succ_cons, List.drop_zero] at h
      split at h
      · cases h
      · rename_i k hk
        cases h
        obtain ⟨hsplit, hlen, hscan⟩ := split_of_scan '"' hk
        exact ⟨_, _, hsplit, hlen, .string hscan⟩
      · rename_i k hk
        cases h
        obtain ⟨hsplit, hlen, hscan⟩ := split_of_scan '"' hk
        exact ⟨_, _, hsplit, hlen, .quoteOpen hscan⟩
    | openBrace => exact absurd (lexeme_of_startsCode hc hfirst).2 (by decide)
    | closeBrace => exact absurd (lexeme_of_startsCode hc hfirst).2 (by decide)

private theorem cut_of_step_closeBrace {here : Position} {opens : List OpenString}
    {cs : List Char} {found : Step} (h : step opens here ('\x7d' :: cs) = .ok found) :
    ∃ text rest, '\x7d' :: cs = text ++ rest ∧ text.length = found.length ∧
      Cut here opens found.kind text rest found.opens := by
  simp only [step, firstLexeme_closeBrace, List.drop_succ_cons, List.drop_zero] at h
  cases opens with
  | nil =>
    cases h
    exact ⟨['\x7d'], cs, rfl, rfl, .closeBrace⟩
  | cons o os =>
    dsimp only at h
    split at h
    · rename_i hpos
      cases h
      exact ⟨['\x7d'], cs, rfl, rfl, .innerBrace hpos⟩
    · rename_i hzero
      have hbraces : o.braces = 0 := by omega
      split at h
      · cases h
      · rename_i k hk
        cases h
        obtain ⟨hsplit, hlen, hscan⟩ := split_of_scan '\x7d' hk
        exact ⟨_, _, hsplit, hlen, .quoteClose hbraces hscan⟩
      · rename_i k hk
        cases h
        obtain ⟨hsplit, hlen, hscan⟩ := split_of_scan '\x7d' hk
        exact ⟨_, _, hsplit, hlen, .quoteMid hbraces hscan⟩

private theorem cut_of_step_singleQuote {here : Position} {opens : List OpenString}
    {cs : List Char} {found : Step} (h : step opens here ('\'' :: cs) = .ok found) :
    ∃ text rest, '\'' :: cs = text ++ rest ∧ text.length = found.length ∧
      Cut here opens found.kind text rest found.opens := by
  cases hend : closingQuote? cs with
  | some k =>
    simp only [step, firstLexeme_singleQuote hend] at h
    cases h
    obtain ⟨hk, hquote⟩ := closingQuote?_take hend
    exact ⟨'\'' :: cs.take k, cs.drop k, by simp, by rw [List.length_cons, hk], .quoted hquote⟩
  | none =>
    simp only [step, firstLexeme_brokenQuote hend] at h
    cases h
    obtain ⟨hle, hdrop, hopen⟩ := breaksOff_of_closingQuote?_eq_none hend
    have hlen : (cs.take (quotedLength cs)).length = quotedLength cs := by
      rw [List.length_take, Nat.min_eq_left hle]
    refine ⟨'\'' :: cs.take (quotedLength cs), cs.drop (quotedLength cs), by simp,
      by rw [List.length_cons, hlen], .brokenQuote ?_ hdrop⟩
    rw [hlen]
    exact hopen

/-- Every step cuts off a token. -/
theorem cut_of_step {here : Position} {opens : List OpenString} {c : Char} {cs : List Char}
    {found : Step} (h : step opens here (c :: cs) = .ok found) : ∃ text rest,
      c :: cs = text ++ rest ∧ text.length = found.length ∧
        Cut here opens found.kind text rest found.opens := by
  rcases firstChar_cases c with hc | rfl | rfl | rfl | rfl | rfl | rfl | hc
  · simp only [step, firstLexeme_of_isSpacing hc] at h
    cases h
    refine ⟨c :: cs.takeWhile isSpacing, cs.dropWhile isSpacing, by simp, rfl,
      .blanks ?_ not_test_of_mem_head?_dropWhile⟩
    intro d hd
    rcases List.mem_cons.mp hd with rfl | hd
    · exact hc
    · exact (List.all_eq_true.mp (List.all_takeWhile)) d hd
  · simp only [step, firstLexeme_lineFeed] at h
    cases h
    exact ⟨['\n'], cs, rfl, rfl, .lineFeed⟩
  · by_cases hhead : cs.head? = some '\n'
    · obtain ⟨rest, rfl⟩ := List.head?_eq_some_iff.mp hhead
      simp only [step, firstLexeme_return_lineFeed] at h
      cases h
      exact ⟨['\r', '\n'], rest, rfl, rfl, .returnLineFeed⟩
    · simp only [step, firstLexeme_return hhead] at h
      cases h
      exact ⟨['\r'], cs, rfl, rfl, .loneReturn hhead⟩
  · simp only [step, firstLexeme_numberSign] at h
    cases h
    refine ⟨'#' :: cs.takeWhile fun c => !endsLine c, cs.dropWhile fun c => !endsLine c,
      by simp, rfl, .lineComment ?_ ?_⟩
    · intro d hd
      simpa using (List.all_eq_true.mp (List.all_takeWhile)) d hd
    · intro d hd
      simpa using not_test_of_mem_head?_dropWhile d hd
  · exact cut_of_step_singleQuote h
  · simp only [step, firstLexeme_openBrace] at h
    cases h
    exact ⟨['\x7b'], cs, rfl, rfl, .openBrace⟩
  · exact cut_of_step_closeBrace h
  · exact cut_of_step_code hc h

end Lexer

end ManifestSpacing
