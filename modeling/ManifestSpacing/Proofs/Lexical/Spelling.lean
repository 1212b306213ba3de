import ManifestSpacing.Proofs.Lexical.Runs

/-!
# How tokens are spelled and where they end

Blanks, line ends and braces have fixed spellings, and no other token starts
with a blank. A token depends on the text behind it only through a few
conditions; where these are kept, the same token is cut off before another
rest, with the same depth of open braces in every open string.
-/

namespace ManifestSpacing

namespace Lexer

open Grammar

/-- The kinds of the tokens behind which a rule may tighten or widen a gap at will. -/
def edgeKinds : List TokenKind := [.openBrace, .closeBrace, .inheritsWord, .name, .classRef]

/-- What the kind of a token says about its text. -/
structure Spelled (kind : TokenKind) (text : List Char) : Prop where
  /-- No token is empty. -/
  nonempty : text ≠ []
  /-- Whitespace holds nothing but spaces and tabs. -/
  whitespace : kind = .whitespace → ∀ c ∈ text, isSpacing c = true
  /-- A line end is a line feed, perhaps after a return. -/
  newline : kind = .newline → text = ['\n'] ∨ text = ['\r', '\n']
  /-- Other tokens do not start with a blank. -/
  solid : kind.isBlank = false → ∀ c ∈ text.head?, isSpacing c = false
  /-- Opening braces stand alone. -/
  openBrace : kind = .openBrace → text = ['\x7b']
  /-- Closing braces stand alone. -/
  closeBrace : kind = .closeBrace → text = ['\x7d']
  /-- A backslash outside strings stands alone. -/
  backslash : text.head? = some '\\' → text = ['\\']
  /-- Braces and names start neither comments nor strings nor line ends. -/
  unmarked : kind ∈ edgeKinds → ∀ c ∈ text.head?, c ∉ ['#', '\'', '\\', '\r']

/-- The kinds that lexemes of code never have. -/
def separateKinds : List TokenKind :=
  [.whitespace, .newline, .comment, .string, .openBrace, .closeBrace]

theorem plain_kind_not_mem {c : Char} (hc : startsCode c = true) {cs : List Char}
    {kind : TokenKind} {n : Nat} (h : firstLexeme (c :: cs) = (.plain kind, n)) :
    kind ∉ separateKinds := by
  have hnot := (lexeme_of_startsCode hc h).2
  intro hmem
  apply hnot
  simp only [separateKinds, List.mem_cons, List.not_mem_nil, or_false] at hmem
  rcases hmem with rfl | rfl | rfl | rfl | rfl | rfl <;> decide

theorem wordKind_not_mem (text : String) : wordKind text ∉ separateKinds := by
  unfold wordKind
  split
  · decide
  · split
    · decide
    · split
      · decide
      · split
        · decide
        · split
          · decide
          · split <;> decide

theorem isSpacing_eq_false_of_startsCode {c : Char} (hc : startsCode c = true) :
    isSpacing c = false := by
  simp only [startsCode, Bool.and_eq_true, isCode_eq_true_iff] at hc
  exact hc.1.1.1

theorem firstLexeme_backslash (cs : List Char) : firstLexeme ('\\' :: cs) = (.plain .other, 1) := by
  have hrules : rulesAfter '\\' = [] := by decide
  rw [firstLexeme_eq_getD (by decide), ← bestMatch_rulesAfter, hrules]
  rfl

/-- A lexeme of code that starts with a backslash is the backslash. -/
theorem eq_nil_of_backslash {cs rest : List Char} {lexeme : Lexeme}
    (h : firstLexeme ('\\' :: (cs ++ rest)) = (lexeme, cs.length + 1)) : cs = [] := by
  rw [firstLexeme_backslash] at h
  have hlen := (Prod.mk.inj h).2
  exact List.length_eq_zero_iff.mp (by omega)

private theorem spelled_of_code {c : Char} (hc : startsCode c = true) {cs rest : List Char}
    {kind : TokenKind} (hkind : kind ∉ separateKinds) {lexeme : Lexeme}
    (hedge : kind ∈ edgeKinds → lexeme ≠ .plain .other)
    (hfirst : firstLexeme (c :: (cs ++ rest)) = (lexeme, cs.length + 1)) :
    Spelled kind (c :: cs) where
  nonempty := List.cons_ne_nil c cs
  whitespace := fun h => absurd (h ▸ List.mem_cons_self) hkind
  newline := fun h => absurd (h ▸ by decide) hkind
  solid := fun _ d hd => by
    cases hd
    exact isSpacing_eq_false_of_startsCode hc
  openBrace := fun h => absurd (h ▸ by decide) hkind
  closeBrace := fun h => absurd (h ▸ by decide) hkind
  backslash := fun h => by
    cases h
    rw [eq_nil_of_backslash hfirst]
  unmarked := fun hmem d hd hmark => by
    cases hd
    simp only [List.mem_cons, List.not_mem_nil, or_false] at hmark
    rcases hmark with rfl | rfl | rfl | rfl
    · exact absurd hc (by decide)
    · exact absurd hc (by decide)
    · rw [firstLexeme_backslash] at hfirst
      exact hedge hmem (Prod.mk.inj hfirst).1.symm
    · exact absurd hc (by decide)

/-- Every token that is cut off is spelled as its kind demands. -/
theorem Cut.spelled {here : Position} {opens after : List OpenString} {kind : TokenKind}
    {text rest : List Char} (h : Cut here opens kind text rest after) : Spelled kind text := by
  cases h with
  | @blanks _ c cs _ hall _ =>
    refine ⟨List.cons_ne_nil c cs, fun _ => hall, nofun, nofun, nofun, nofun, ?_,
      fun h => absurd h (by decide)⟩
    intro hd
    cases hd
    exact absurd (hall '\\' List.mem_cons_self) (by decide)
  | plain hc hfirst =>
    apply spelled_of_code hc (plain_kind_not_mem hc hfirst) _ hfirst
    intro hmem hother
    cases hother
    exact absurd hmem (by decide)
  | word hc hfirst =>
    apply spelled_of_code hc (wordKind_not_mem _) _ hfirst
    intro _ hother
    cases hother
  | lineFeed => constructor <;> simp [TokenKind.isBlank, edgeKinds]
  | returnLineFeed => constructor <;> simp [TokenKind.isBlank, edgeKinds]
  | _ => constructor <;> simp [isSpacing, edgeKinds]

/-! ## Changing the text behind a token -/

/-- The same number of braces is open in every open string. -/
def SameDepths (opens opens' : List OpenString) : Prop :=
  opens.map OpenString.braces = opens'.map OpenString.braces

/-- A change of the text behind a token that leaves the token as it is. -/
structure Undisturbed (kind : TokenKind) (text rest rest' : List Char) : Prop where
  /-- Whitespace does not grow. -/
  spacing : kind = .whitespace → ∀ d ∈ rest'.head?, isSpacing d = false
  /-- A line comment still ends its line. -/
  lineComment : text.head? = some '#' → ∀ d ∈ rest'.head?, endsLine d = true
  /-- A lone return stays alone. -/
  loneReturn : text = ['\r'] → rest'.head? ≠ some '\n'
  /-- String text that breaks off still does. -/
  brokenQuote : text.head? = some '\'' → BreaksOff rest → BreaksOff rest'
  /-- No end of a block comment appears. -/
  openComment : commentEnd? rest = none → commentEnd? rest' = none
  /-- The run of code characters behind code does not grow. -/
  code : (∀ c ∈ text, isCode c = true) →
    rest'.takeWhile isCode <+: rest.takeWhile isCode

private theorem firstLexeme_of_undisturbed {kind : TokenKind} {c : Char}
    (hc : startsCode c = true) {cs rest rest' : List Char}
    (hrest : Undisturbed kind (c :: cs) rest rest') {lexeme : Lexeme}
    (hfirst : firstLexeme (c :: (cs ++ rest)) = (lexeme, cs.length + 1)) :
    firstLexeme (c :: (cs ++ rest')) = (lexeme, cs.length + 1) := by
  have hle := (lexeme_of_startsCode hc hfirst).1
  have hcode : ∀ d ∈ cs, isCode d = true := by
    intro d hd
    have hpre : cs <+: (cs ++ rest).takeWhile isCode := by
      apply List.prefix_of_prefix_length_le (List.prefix_append cs rest)
        (List.takeWhile_prefix isCode)
      omega
    exact List.all_eq_true.mp List.all_takeWhile d (hpre.subset hd)
  have hhead : isCode c = true := by
    simp only [startsCode, Bool.and_eq_true] at hc
    exact hc.1.1
  have hrun := hrest.code fun d hd => (List.mem_cons.mp hd).elim (fun h => h ▸ hhead) (hcode d)
  apply firstLexeme_of_startsCode hc _ hfirst
  · rw [List.takeWhile_append_of_pos hcode, List.length_append]
    omega
  · rw [List.takeWhile_append_of_pos hcode, List.takeWhile_append_of_pos hcode]
    exact (List.prefix_append_right_inj cs).mpr hrun

/-- A token is cut off before every rest that leaves it undisturbed. -/
theorem Cut.undisturbed {here : Position} {opens after : List OpenString} {kind : TokenKind}
    {text rest rest' : List Char} (h : Cut here opens kind text rest after)
    (hrest : Undisturbed kind text rest rest') : Cut here opens kind text rest' after := by
  cases h with
  | blanks hall _ => exact .blanks hall (hrest.spacing rfl)
  | lineFeed => exact .lineFeed
  | returnLineFeed => exact .returnLineFeed
  | loneReturn _ => exact .loneReturn (hrest.loneReturn rfl)
  | lineComment hall _ => exact .lineComment hall (hrest.lineComment rfl)
  | blockComment hend => exact .blockComment hend
  | openComment hopen => exact .openComment (hrest.openComment hopen)
  | quoted hend => exact .quoted hend
  | brokenQuote hopen hoff => exact .brokenQuote hopen (hrest.brokenQuote rfl hoff)
  | string hscan => exact .string hscan
  | quoteOpen hscan => exact .quoteOpen hscan
  | openBrace => exact .openBrace
  | closeBrace => exact .closeBrace
  | innerBrace hpos => exact .innerBrace hpos
  | quoteClose hzero hscan => exact .quoteClose hzero hscan
  | quoteMid hzero hscan => exact .quoteMid hzero hscan
  | plain hc hfirst => exact .plain hc (firstLexeme_of_undisturbed hc hrest hfirst)
  | word hc hfirst => exact .word hc (firstLexeme_of_undisturbed hc hrest hfirst)

/-- A token is cut off at every place where the same numbers of braces are open. -/
theorem Cut.relocate {here : Position} {opens after : List OpenString} {kind : TokenKind}
    {text rest : List Char} (h : Cut here opens kind text rest after) (here' : Position)
    {opens' : List OpenString} (hdepths : SameDepths opens opens') :
    ∃ after', Cut here' opens' kind text rest after' ∧ SameDepths after after' := by
  cases h with
  | blanks hall hrest => exact ⟨opens', .blanks hall hrest, hdepths⟩
  | lineFeed => exact ⟨opens', .lineFeed, hdepths⟩
  | returnLineFeed => exact ⟨opens', .returnLineFeed, hdepths⟩
  | loneReturn hrest => exact ⟨opens', .loneReturn hrest, hdepths⟩
  | lineComment hall hrest => exact ⟨opens', .lineComment hall hrest, hdepths⟩
  | blockComment hend => exact ⟨opens', .blockComment hend, hdepths⟩
  | openComment hopen => exact ⟨opens', .openComment hopen, hdepths⟩
  | quoted hend => exact ⟨opens', .quoted hend, hdepths⟩
  | brokenQuote hopen hoff => exact ⟨opens', .brokenQuote hopen hoff, hdepths⟩
  | string hscan => exact ⟨opens', .string hscan, hdepths⟩
  | quoteOpen hscan => exact ⟨_, .quoteOpen hscan, congrArg (0 :: ·) hdepths⟩
  | openBrace =>
    refine ⟨_, .openBrace, ?_⟩
    cases opens <;> cases opens' <;> simp_all [SameDepths, countBrace]
  | closeBrace =>
    cases opens' with
    | nil => exact ⟨[], .closeBrace, rfl⟩
    | cons o os => cases hdepths
  | @innerBrace o os _ hpos =>
    cases opens' with
    | nil => cases hdepths
    | cons o' os' =>
      obtain ⟨hhead, htail⟩ := List.cons.inj hdepths
      refine ⟨_, .innerBrace (hhead ▸ hpos), ?_⟩
      simp only [SameDepths, List.map_cons, hhead]
      rw [htail]
  | @quoteClose o os cs _ hzero hscan =>
    cases opens' with
    | nil => cases hdepths
    | cons o' os' =>
      obtain ⟨hhead, htail⟩ := List.cons.inj hdepths
      exact ⟨os', .quoteClose (hhead ▸ hzero) hscan, htail⟩
  | @quoteMid o os cs _ hzero hscan =>
    cases opens' with
    | nil => cases hdepths
    | cons o' os' =>
      obtain ⟨hhead, _⟩ := List.cons.inj hdepths
      exact ⟨o' :: os', .quoteMid (hhead ▸ hzero) hscan, hdepths⟩
  | plain hc hfirst => exact ⟨opens', .plain hc hfirst, hdepths⟩
  | word hc hfirst => exact ⟨opens', .word hc hfirst, hdepths⟩

/-- Both together. -/
theorem Cut.transfer {here : Position} {opens after : List OpenString} {kind : TokenKind}
    {text rest rest' : List Char} (h : Cut here opens kind text rest after) (here' : Position)
    {opens' : List OpenString} (hdepths : SameDepths opens opens')
    (hrest : Undisturbed kind text rest rest') :
    ∃ after', Cut here' opens' kind text rest' after' ∧ SameDepths after after' :=
  (h.undisturbed hrest).relocate here' hdepths

/-- What follows whitespace is something else. -/
theorem Cut.rest_of_whitespace {here : Position} {opens after : List OpenString}
    {text rest : List Char} (h : Cut here opens .whitespace text rest after) :
    ∀ d ∈ rest.head?, isSpacing d = false := by
  generalize hkind : TokenKind.whitespace = kind at h
  cases h with
  | blanks _ hrest => exact hrest
  | plain hc hfirst => exact absurd (hkind ▸ by decide) (plain_kind_not_mem hc hfirst)
  | @word _ c cs _ _ _ =>
    have hnot := wordKind_not_mem (String.ofList (c :: cs))
    rw [← hkind] at hnot
    exact absurd (by decide) hnot
  | _ => cases hkind

/-- What follows a line comment ends its line. -/
theorem Cut.rest_of_lineComment {here : Position} {opens after : List OpenString}
    {kind : TokenKind} {text rest : List Char} (h : Cut here opens kind text rest after)
    (hhead : text.head? = some '#') : ∀ d ∈ rest.head?, endsLine d = true := by
  cases h with
  | lineComment _ hrest => exact hrest
  | blanks hall _ => cases hhead; exact absurd (hall '#' List.mem_cons_self) (by decide)
  | plain hc _ => cases hhead; exact absurd hc (by decide)
  | word hc _ => cases hhead; exact absurd hc (by decide)
  | _ => simp at hhead

/-- Neither a space nor a closing brace ends a line. -/
theorem endsLine_eq_false {c : Char} (h : isSpacing c = true ∨ c = '\x7d') :
    endsLine c = false := by
  rcases h with hspace | rfl
  · simp only [isSpacing, Bool.or_eq_true, beq_iff_eq] at hspace
    rcases hspace with rfl | rfl <;> rfl
  · rfl

/-- No line feed follows a lone return. -/
theorem Cut.rest_of_return {here : Position} {opens after : List OpenString} {kind : TokenKind}
    {rest : List Char} (h : Cut here opens kind ['\r'] rest after) : rest.head? ≠ some '\n' := by
  cases h with
  | loneReturn hrest => exact hrest
  | blanks hall _ => exact absurd (hall '\r' List.mem_cons_self) (by decide)
  | plain hc _ => exact absurd hc (by decide)
  | word hc _ => exact absurd hc (by decide)

/-- Blanks neither open nor close a string. -/
theorem Cut.after_of_isBlank {here : Position} {opens after : List OpenString} {kind : TokenKind}
    {text rest : List Char} (h : Cut here opens kind text rest after)
    (hblank : kind.isBlank = true) : after = opens := by
  cases h with
  | quoteOpen | openBrace | innerBrace | quoteClose => exact absurd hblank (by decide)
  | _ => rfl

end Lexer

end ManifestSpacing
