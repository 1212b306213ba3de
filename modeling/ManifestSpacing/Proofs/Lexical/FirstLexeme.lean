import ManifestSpacing.Lexical.Lexer
import ManifestSpacing.Proofs.Lexical.LongestMatch

/-!
# The first lexeme by its first character

Blanks, line ends, line comments, single quotes and braces are decided by
their first character and by a simple scan. Every other lexeme lies inside a
run of code characters, which are all but blanks, line ends and braces: it
depends on nothing after that run, and it survives when the run is cut short
behind it.
-/

namespace ManifestSpacing

namespace CharSet

/-- The set of a text holds exactly its characters. -/
theorem contains_ofText {text : String} {c : Char} :
    (ofText text).contains c = true ↔ c ∈ text.toList := by
  simp only [contains, ofText, List.any_map, bne_iff_ne, ne_eq, Bool.not_eq_false,
    List.any_eq_true, Function.comp_apply, decide_eq_true_eq]
  constructor
  · rintro ⟨d, hd, hle, hge⟩
    rwa [Char.le_antisymm hge hle]
  · exact fun hc => ⟨c, hc, Char.le_refl c, Char.le_refl c⟩

/-- The complement of a text holds exactly the other characters. -/
theorem contains_exceptText {text : String} {c : Char} :
    (exceptText text).contains c = true ↔ c ∉ text.toList := by
  have h : (exceptText text).contains c = !(ofText text).contains c := by
    simp only [contains, exceptText, ofText, Bool.bne_false, Bool.bne_true]
  rw [h, Bool.not_eq_true', ← Bool.not_eq_true, contains_ofText]

end CharSet

namespace Grammar

/-- Whether a character is a space or a tab. -/
def isSpacing (c : Char) : Bool := c == ' ' || c == '\t'

/-- Whether a character starts a line end. -/
def endsLine (c : Char) : Bool := c == '\r' || c == '\n'

/-- The characters that no lexeme of code goes beyond. -/
def separators : List Char := [' ', '\t', '\r', '\n', '\x7b', '\x7d']

/-- Whether a character may stand inside a lexeme of code. -/
def isCode (c : Char) : Bool := decide (c ∉ separators)

/-- Whether a character starts a lexeme of code: it is no separator, and neither a number sign nor
a single quote. -/
def startsCode (c : Char) : Bool := isCode c && c != '#' && c != '\''

theorem isCode_eq_true_iff {c : Char} :
    isCode c = true ↔ isSpacing c = false ∧ endsLine c = false ∧ c ≠ '\x7b' ∧ c ≠ '\x7d' := by
  simp only [isCode, separators, isSpacing, endsLine, decide_eq_true_eq, List.mem_cons,
    List.not_mem_nil, or_false, not_or, Bool.or_eq_false_iff, beq_eq_false_iff_ne, ne_eq,
    and_assoc]

/-- The classes of first characters exhaust all characters. -/
theorem firstChar_cases (c : Char) :
    isSpacing c = true ∨ c = '\n' ∨ c = '\r' ∨ c = '#' ∨ c = '\'' ∨ c = '\x7b' ∨ c = '\x7d' ∨
      startsCode c = true := by
  by_cases hs : isSpacing c = true
  · exact Or.inl hs
  · by_cases hc : startsCode c = true
    · simp only [hc, or_true]
    · simp only [startsCode, Bool.and_eq_true, isCode_eq_true_iff, bne_iff_ne, ne_eq, endsLine,
        Bool.or_eq_false_iff, beq_eq_false_iff_ne, Bool.not_eq_true] at hs hc
      grind

/-! ## Blanks, line ends and comments -/

theorem contains_spacing (c : Char) : (CharSet.ofText " \t").contains c = isSpacing c := by
  rw [Bool.eq_iff_iff, CharSet.contains_ofText]
  simp [isSpacing]

theorem contains_beforeLineEnd (c : Char) :
    (CharSet.exceptText "\r\n").contains c = !endsLine c := by
  rw [Bool.eq_iff_iff, CharSet.contains_exceptText]
  simp [endsLine]

/-- The choice between rules of which only one can go on after the first character. -/
theorem firstLexeme_of_rulesAfter {c : Char} {cs : List Char} {rule : LexicalRule} {n : Nat}
    (hrules : rulesAfter c = [rule]) (h : rule.pattern.longestMatch (c :: cs) = some (n + 1)) :
    firstLexeme (c :: cs) = (rule.lexeme, n + 1) := by
  rw [firstLexeme, ← bestMatch_rulesAfter, hrules]
  simp [bestMatch_eq_foldl, improve, h, score]

private theorem longestMatch_blanks {c : Char} (hc : isSpacing c = true) (cs : List Char) :
    (Regex.plus (.chars (.ofText " \t"))).longestMatch (c :: cs) =
      some ((cs.takeWhile isSpacing).length + 1) := by
  have hset : (CharSet.ofText " \t").contains = isSpacing := funext contains_spacing
  rw [Regex.longestMatch_cons rfl]
  simp [Regex.plus, Regex.deriv, Regex.nullable, Regex.cat, hset, hc,
    Regex.longestMatch_star_chars]

/-- Spaces and tabs are taken together, as many as there are. -/
theorem firstLexeme_of_isSpacing {c : Char} (hc : isSpacing c = true) (cs : List Char) :
    firstLexeme (c :: cs) = (.plain .whitespace, (cs.takeWhile isSpacing).length + 1) := by
  have hrules : rulesAfter c = [⟨.plain .whitespace, Regex.plus (.chars (.ofText " \t"))⟩] := by
    simp only [isSpacing, Bool.or_eq_true, beq_iff_eq] at hc
    rcases hc with rfl | rfl <;> decide
  exact firstLexeme_of_rulesAfter hrules (longestMatch_blanks hc cs)

private theorem rulesAfter_lineFeed : rulesAfter '\n' =
    [⟨.plain .newline, .seq (Regex.optional (Regex.literal "\r")) (Regex.literal "\n")⟩] := by
  decide

private theorem rulesAfter_return : rulesAfter '\r' =
    [⟨.plain .newline, .seq (Regex.optional (Regex.literal "\r")) (Regex.literal "\n")⟩] := by
  decide

/-- A line feed is a line end of its own. -/
theorem firstLexeme_lineFeed (cs : List Char) :
    firstLexeme ('\n' :: cs) = (.plain .newline, 1) := by
  apply firstLexeme_of_rulesAfter rulesAfter_lineFeed (n := 0)
  rw [Regex.longestMatch_cons rfl]
  exact congrArg (Option.map (· + 1)) (Regex.longestMatch_epsilon cs)

private theorem deriv_return_newline :
    (Regex.seq (Regex.optional (Regex.literal "\r")) (Regex.literal "\n")).deriv '\r' =
      Regex.literal "\n" := by
  decide

/-- A return followed by a line feed is a line end with it. -/
theorem firstLexeme_return_lineFeed (cs : List Char) :
    firstLexeme ('\r' :: '\n' :: cs) = (.plain .newline, 2) := by
  apply firstLexeme_of_rulesAfter rulesAfter_return (n := 1)
  rw [Regex.longestMatch_cons rfl, deriv_return_newline, Regex.longestMatch_cons rfl]
  exact congrArg (fun o => Option.map (· + 1) (Option.map (· + 1) o))
    (Regex.longestMatch_epsilon cs)

/-- A return that no line feed follows stands alone. -/
theorem firstLexeme_return {cs : List Char} (h : cs.head? ≠ some '\n') :
    firstLexeme ('\r' :: cs) = (.plain .other, 1) := by
  have hnone : (Regex.seq (Regex.optional (Regex.literal "\r"))
      (Regex.literal "\n")).longestMatch ('\r' :: cs) = none := by
    rw [Regex.longestMatch_cons rfl, deriv_return_newline]
    cases cs with
    | nil => rfl
    | cons d cs =>
      have hd : d ≠ '\n' := fun he => h (by rw [he]; rfl)
      have hset : CharSet.contains ⟨[('\n', '\n')], false⟩ d = false := by
        rw [← Bool.not_eq_true]
        exact fun hh => hd (by simpa using (@CharSet.contains_ofText "\n" d).mp hh)
      rw [Regex.longestMatch_cons rfl]
      simp [Regex.literal, Regex.cat, Regex.deriv, Regex.nullable, hset]
  have hbroken : brokenSingleQuoted.longestMatch ('\r' :: cs) = none := by
    rw [Regex.longestMatch_cons rfl]
    exact congrArg (Option.map (· + 1)) (Regex.longestMatch_never cs)
  rw [firstLexeme, ← bestMatch_rulesAfter, rulesAfter_return]
  simp [bestMatch_eq_foldl, improve, hnone, hbroken]

/-- A line comment runs up to the line end. -/
theorem firstLexeme_numberSign (cs : List Char) : firstLexeme ('#' :: cs) =
    (.plain .comment, (cs.takeWhile fun c => !endsLine c).length + 1) := by
  have hrules : rulesAfter '#' =
      [⟨.plain .comment, .seq (Regex.literal "#") (.star (.chars (.exceptText "\r\n")))⟩] := by
    decide
  have hderiv : (Regex.seq (Regex.literal "#")
      (.star (.chars (.exceptText "\r\n")))).deriv '#' = .star (.chars (.exceptText "\r\n")) := by
    decide
  have hset : (CharSet.exceptText "\r\n").contains = fun c => !endsLine c :=
    funext contains_beforeLineEnd
  apply firstLexeme_of_rulesAfter hrules
  rw [Regex.longestMatch_cons rfl, hderiv, Regex.longestMatch_star_chars, hset]
  rfl

/-! ## Braces, double quotes and block comments -/

private theorem longestMatch_of_deriv_epsilon {r : Regex} {c : Char} (hr : r.nullable = false)
    (h : r.deriv c = .epsilon) (cs : List Char) : r.longestMatch (c :: cs) = some 1 := by
  rw [Regex.longestMatch_cons hr, h, Regex.longestMatch_epsilon]
  rfl

theorem firstLexeme_openBrace (cs : List Char) :
    firstLexeme ('\x7b' :: cs) = (.openBrace, 1) := by
  have hrules : rulesAfter '\x7b' = [⟨.openBrace, Regex.literal "\x7b"⟩] := by decide
  exact firstLexeme_of_rulesAfter hrules (longestMatch_of_deriv_epsilon rfl (by decide) cs)

theorem firstLexeme_closeBrace (cs : List Char) :
    firstLexeme ('\x7d' :: cs) = (.closeBrace, 1) := by
  have hrules : rulesAfter '\x7d' = [⟨.closeBrace, Regex.literal "\x7d"⟩] := by decide
  exact firstLexeme_of_rulesAfter hrules (longestMatch_of_deriv_epsilon rfl (by decide) cs)

theorem firstLexeme_doubleQuote (cs : List Char) :
    firstLexeme ('"' :: cs) = (.quote, 1) := by
  have hrules : rulesAfter '"' = [⟨.quote, Regex.literal "\""⟩] := by decide
  exact firstLexeme_of_rulesAfter hrules (longestMatch_of_deriv_epsilon rfl (by decide) cs)

/-- A slash and a star start a block comment whatever follows. -/
theorem firstLexeme_slash_star (cs : List Char) :
    firstLexeme ('/' :: '*' :: cs) = (.commentStart, 2) := by
  have hrules : rulesAfter '/' =
      [⟨.commentStart, Regex.literal "/*"⟩, ⟨.plain .other, operator⟩] := by decide
  have hstart : (Regex.literal "/*").longestMatch ('/' :: '*' :: cs) = some 2 := by
    rw [Regex.longestMatch_cons rfl]
    exact congrArg (Option.map (· + 1)) (longestMatch_of_deriv_epsilon rfl (by decide) cs)
  have hoperator : operator.longestMatch ('/' :: '*' :: cs) = some 1 :=
    longestMatch_of_deriv_epsilon rfl (by decide) _
  rw [firstLexeme, ← bestMatch_rulesAfter, hrules]
  simp [bestMatch_eq_foldl, improve, hstart, hoperator, score]

/-! ## Single quotes -/

/-- The number of characters of string text through the single quote that ends it. A backslash
takes the next character along, unless that is a line feed. -/
def closingQuote? : List Char → Option Nat
  | [] => none
  | c :: cs =>
    if c = '\'' then some 1
    else if c = '\\' then
      match cs with
      | [] => none
      | d :: ds => if d = '\n' then none else (closingQuote? ds).map (· + 2)
    else (closingQuote? cs).map (· + 1)

/-- The number of characters of string text before a single quote or a stray backslash. -/
def quotedLength : List Char → Nat
  | [] => 0
  | c :: cs =>
    if c = '\'' then 0
    else if c = '\\' then
      match cs with
      | [] => 0
      | d :: ds => if d = '\n' then 0 else quotedLength ds + 2
    else quotedLength cs + 1

theorem closingQuote?_quote (cs : List Char) : closingQuote? ('\'' :: cs) = some 1 := by
  rw [closingQuote?.eq_def]
  rfl

theorem closingQuote?_escape {d : Char} (hd : d ≠ '\n') (ds : List Char) :
    closingQuote? ('\\' :: d :: ds) = (closingQuote? ds).map (· + 2) := by
  simp [closingQuote?, hd]

theorem closingQuote?_plain {c : Char} (hq : c ≠ '\'') (hb : c ≠ '\\') (cs : List Char) :
    closingQuote? (c :: cs) = (closingQuote? cs).map (· + 1) := by
  rw [closingQuote?.eq_def]
  simp only [if_neg hq, if_neg hb]

theorem quotedLength_escape {d : Char} (hd : d ≠ '\n') (ds : List Char) :
    quotedLength ('\\' :: d :: ds) = quotedLength ds + 2 := by
  simp [quotedLength, hd]

theorem quotedLength_plain {c : Char} (hq : c ≠ '\'') (hb : c ≠ '\\') (cs : List Char) :
    quotedLength (c :: cs) = quotedLength cs + 1 := by
  rw [quotedLength.eq_def]
  simp only [if_neg hq, if_neg hb]

/-- What a single-quoted string still needs after its opening quote. -/
private def quotedRest : Regex := .seq singleQuotedBody (.seq (Regex.literal "'") .epsilon)

/-- What a single-quoted string still needs after a backslash. -/
private def escapedRest : Regex :=
  .seq (.seq (.chars (.exceptText "\n")) singleQuotedBody) (.seq (Regex.literal "'") .epsilon)

private theorem contains_plain {c : Char} (hq : c ≠ '\'') (hb : c ≠ '\\') :
    (CharSet.exceptText "'\\").contains c = true := by
  simp [CharSet.contains_exceptText, hq, hb]

private theorem contains_backslash {c : Char} (hb : c ≠ '\\') :
    (CharSet.ofText "\\").contains c = false := by
  rw [← Bool.not_eq_true, CharSet.contains_ofText]
  simp [hb]

private theorem contains_escaped {d : Char} (hd : d ≠ '\n') :
    (CharSet.exceptText "\n").contains d = true := by
  simp [CharSet.contains_exceptText, hd]

private theorem deriv_singleQuotedBody {c : Char} (hq : c ≠ '\'') (hb : c ≠ '\\') :
    singleQuotedBody.deriv c = singleQuotedBody := by
  simp [singleQuotedBody, Regex.deriv, Regex.nullable, contains_plain hq hb,
    contains_backslash hb, Regex.cat, Regex.orElse]

private theorem deriv_quotedRest {c : Char} (hq : c ≠ '\'') (hb : c ≠ '\\') :
    quotedRest.deriv c = quotedRest := by
  have hset : CharSet.contains ⟨[('\'', '\'')], false⟩ c = false := by
    rw [← Bool.not_eq_true]
    exact fun hh => hq (by simpa using (@CharSet.contains_ofText "'" c).mp hh)
  have hnull : singleQuotedBody.nullable = true := rfl
  rw [quotedRest, Regex.deriv, if_pos hnull, deriv_singleQuotedBody hq hb]
  simp [singleQuotedBody, Regex.literal, Regex.deriv, Regex.nullable, hset, Regex.cat,
    Regex.orElse]

private theorem deriv_escapedRest {d : Char} (hd : d ≠ '\n') :
    escapedRest.deriv d = quotedRest := by
  simp [escapedRest, quotedRest, singleQuotedBody, Regex.deriv, Regex.nullable,
    contains_escaped hd, Regex.cat]

private theorem longestMatch_quotedRest (cs : List Char) :
    quotedRest.longestMatch cs = closingQuote? cs := by
  fun_induction closingQuote? cs with
  | case1 => rfl
  | case2 cs =>
    have hderiv : quotedRest.deriv '\'' = .epsilon := by decide
    rw [Regex.longestMatch_cons rfl, hderiv, Regex.longestMatch_epsilon]
    rfl
  | case3 =>
    have hderiv : quotedRest.deriv '\\' = escapedRest := by decide
    rw [Regex.longestMatch_cons rfl, hderiv]
    rfl
  | case4 ds =>
    have hderiv : quotedRest.deriv '\\' = escapedRest := by decide
    have hnever : escapedRest.deriv '\n' = .never := by decide
    rw [Regex.longestMatch_cons rfl, hderiv, Regex.longestMatch_cons rfl, hnever,
      Regex.longestMatch_never]
    rfl
  | case5 d ds hd _ ih =>
    have hderiv : quotedRest.deriv '\\' = escapedRest := by decide
    rw [Regex.longestMatch_cons rfl, hderiv, Regex.longestMatch_cons rfl, deriv_escapedRest hd,
      ih, Option.map_map]
    rfl
  | case6 c cs hq hb ih => rw [Regex.longestMatch_cons rfl, deriv_quotedRest hq hb, ih]

private theorem longestMatch_singleQuotedBody (cs : List Char) :
    singleQuotedBody.longestMatch cs = some (quotedLength cs) := by
  have hescape : singleQuotedBody.deriv '\\' =
      .seq (.chars (.exceptText "\n")) singleQuotedBody := by
    decide
  fun_induction quotedLength cs with
  | case1 => rfl
  | case2 cs =>
    have hderiv : singleQuotedBody.deriv '\'' = .never := by decide
    rw [Regex.longestMatch_cons_of_nullable rfl, hderiv, Regex.longestMatch_never]
    rfl
  | case3 =>
    rw [Regex.longestMatch_cons_of_nullable rfl, hescape]
    rfl
  | case4 ds =>
    have hnever : (Regex.seq (.chars (.exceptText "\n")) singleQuotedBody).deriv '\n' = .never := by
      decide
    rw [Regex.longestMatch_cons_of_nullable rfl, hescape, Regex.longestMatch_cons rfl, hnever,
      Regex.longestMatch_never]
    rfl
  | case5 d ds hd _ ih =>
    have hnext : (Regex.seq (.chars (.exceptText "\n")) singleQuotedBody).deriv d =
        singleQuotedBody := by
      simp [Regex.deriv, Regex.nullable, contains_escaped hd, Regex.cat]
    rw [Regex.longestMatch_cons_of_nullable rfl, hescape, Regex.longestMatch_cons rfl, hnext, ih]
    rfl
  | case6 c cs hq hb ih =>
    rw [Regex.longestMatch_cons_of_nullable rfl, deriv_singleQuotedBody hq hb, ih]
    rfl

private theorem rulesAfter_singleQuote :
    rulesAfter '\'' = [⟨.plain .string, singleQuoted⟩] := by
  decide

/-- A single quote whose string is closed starts a string. -/
theorem firstLexeme_singleQuote {cs : List Char} {n : Nat} (h : closingQuote? cs = some n) :
    firstLexeme ('\'' :: cs) = (.plain .string, n + 1) := by
  have hderiv : singleQuoted.deriv '\'' = quotedRest := by decide
  apply firstLexeme_of_rulesAfter rulesAfter_singleQuote
  rw [Regex.longestMatch_cons rfl, hderiv, longestMatch_quotedRest, h]
  rfl

/-- A single quote whose string is not closed takes the text up to where it breaks off. -/
theorem firstLexeme_brokenQuote {cs : List Char} (h : closingQuote? cs = none) :
    firstLexeme ('\'' :: cs) = (.plain .other, quotedLength cs + 1) := by
  have hderiv : singleQuoted.deriv '\'' = quotedRest := by decide
  have hnone : singleQuoted.longestMatch ('\'' :: cs) = none := by
    rw [Regex.longestMatch_cons rfl, hderiv, longestMatch_quotedRest, h]
    rfl
  have hopen : brokenSingleQuoted.deriv '\'' = singleQuotedBody := by decide
  have hbroken : brokenSingleQuoted.longestMatch ('\'' :: cs) = some (quotedLength cs + 1) := by
    rw [Regex.longestMatch_cons rfl, hopen, longestMatch_singleQuotedBody]
    rfl
  rw [firstLexeme, ← bestMatch_rulesAfter, rulesAfter_singleQuote]
  simp [bestMatch_eq_foldl, improve, hnone, hbroken]

/-! ## Code -/

/-- The rules whose lexemes hold separators or start with a number sign or a single quote. -/
def separateRules : List LexicalRule :=
  [⟨.plain .whitespace, Regex.plus (.chars (.ofText " \t"))⟩,
    ⟨.plain .newline, .seq (Regex.optional (Regex.literal "\r")) (Regex.literal "\n")⟩,
    ⟨.plain .comment, .seq (Regex.literal "#") (.star (.chars (.exceptText "\r\n")))⟩,
    ⟨.openBrace, Regex.literal "\x7b"⟩,
    ⟨.closeBrace, Regex.literal "\x7d"⟩,
    ⟨.plain .string, singleQuoted⟩]

/-- Every other rule stays inside runs of code characters. -/
theorem avoids_of_mem_rules {rule : LexicalRule} (h : rule ∈ rules) (hs : rule ∉ separateRules) :
    rule.pattern.avoids separators = true := by
  have hall : ∀ rule ∈ rules, rule ∉ separateRules →
      rule.pattern.avoids separators = true := by decide
  exact hall rule h hs

private theorem contains_singleton {c d : Char} (h : c ≠ d) :
    CharSet.contains ⟨[(d, d)], false⟩ c = false := by
  rw [← Bool.not_eq_true]
  intro hh
  have hd := (@CharSet.contains_ofText (String.singleton d) c).mp
    (by simpa [CharSet.ofText] using hh)
  exact h (by simpa using hd)

/-- The separate rules match nothing where code starts. -/
theorem deriv_eq_never_of_startsCode {rule : LexicalRule} (h : rule ∈ separateRules) {c : Char}
    (hc : startsCode c = true) : rule.pattern.deriv c = .never := by
  simp only [startsCode, Bool.and_eq_true, isCode_eq_true_iff, bne_iff_ne, ne_eq, endsLine,
    Bool.or_eq_false_iff, beq_eq_false_iff_ne] at hc
  obtain ⟨⟨⟨hspacing, ⟨hreturn, hfeed⟩, hopen, hclose⟩, hsign⟩, hquote⟩ := hc
  simp only [separateRules, List.mem_cons, List.not_mem_nil, or_false] at h
  rcases h with rfl | rfl | rfl | rfl | rfl | rfl
  · simp [Regex.plus, Regex.deriv, Regex.nullable, contains_spacing, hspacing, Regex.cat]
  · simp [Regex.optional, Regex.literal, Regex.deriv, Regex.nullable, Regex.cat, Regex.orElse,
      contains_singleton hreturn, contains_singleton hfeed]
  · simp [Regex.literal, Regex.deriv, Regex.nullable, Regex.cat, contains_singleton hsign]
  · simp [Regex.literal, Regex.deriv, Regex.nullable, Regex.cat, contains_singleton hopen]
  · simp [Regex.literal, Regex.deriv, Regex.nullable, Regex.cat, contains_singleton hclose]
  · simp [singleQuoted, Regex.sequence, Regex.literal, Regex.deriv, Regex.nullable, Regex.cat,
      contains_singleton hquote]

/-- A rule that matches where code starts goes no further than the run of code characters. -/
theorem le_of_matches_startsCode {rule : LexicalRule} (hrule : rule ∈ rules) {c : Char}
    (hc : startsCode c = true) {cs : List Char} {m : Nat} (hle : m ≤ cs.length + 1)
    (hm : Regex.Matches rule.pattern ((c :: cs).take m)) :
    m ≤ (cs.takeWhile isCode).length + 1 := by
  cases m with
  | zero => omega
  | succ m =>
    rw [List.take_succ_cons] at hm
    by_cases hs : rule ∈ separateRules
    · rw [← Regex.matches_deriv_iff, deriv_eq_never_of_startsCode hs hc] at hm
      exact absurd hm (Regex.not_matches_never _)
    · have hmem := hm.not_mem_of_avoids (avoids_of_mem_rules hrule hs)
      have hall : ∀ d ∈ cs.take m, isCode d = true := fun d hd =>
        decide_eq_true (hmem d (List.mem_cons_of_mem _ hd))
      have hrun := @List.takeWhile_append_of_pos _ isCode (cs.take m) (cs.drop m) hall
      have hlen := congrArg List.length hrun
      rw [List.take_append_drop, List.length_append, List.length_take] at hlen
      omega

/-- Every lexeme takes at least one character and no more than there are. -/
theorem firstLexeme_bounds {c : Char} {cs : List Char} {lexeme : Lexeme} {n : Nat}
    (h : firstLexeme (c :: cs) = (lexeme, n)) : 0 < n ∧ n ≤ cs.length + 1 := by
  unfold firstLexeme at h
  split at h
  · rename_i found hfound
    subst h
    obtain ⟨rule, _, _, hm, hpos⟩ := exists_of_bestMatch_eq_some hfound
    exact ⟨hpos, (Regex.longestMatch_eq_some hm).1⟩
  · obtain ⟨-, rfl⟩ := Prod.mk.inj h
    cases hm : brokenSingleQuoted.longestMatch (c :: cs) with
    | none => exact ⟨by simp, by simp⟩
    | some k =>
      obtain ⟨hle, hmatch, _⟩ := Regex.longestMatch_eq_some hm
      have hk : k ≠ 0 := by
        rintro rfl
        have hnull := (Regex.nullable_iff brokenSingleQuoted).mpr hmatch
        exact absurd hnull (by decide)
      rw [Option.getD_some]
      exact ⟨Nat.pos_of_ne_zero hk, hle⟩

/-- The first lexeme as the best match, or one character of its own. -/
theorem firstLexeme_eq_getD {c : Char} (hc : startsCode c = true) (cs : List Char) :
    firstLexeme (c :: cs) = (bestMatch rules (c :: cs)).getD (.plain .other, 1) := by
  have hq : c ≠ '\'' := by
    simp only [startsCode, Bool.and_eq_true, bne_iff_ne] at hc
    exact hc.2
  have hbroken : brokenSingleQuoted.longestMatch (c :: cs) = none := by
    have hnever : brokenSingleQuoted.deriv c = .never := by
      simp [brokenSingleQuoted, Regex.literal, Regex.deriv, Regex.nullable, Regex.cat,
        contains_singleton hq]
    rw [Regex.longestMatch_cons rfl, hnever, Regex.longestMatch_never]
    rfl
  rw [firstLexeme, hbroken]
  cases bestMatch rules (c :: cs) <;> rfl

/-- A lexeme that starts as code does not depend on what follows the run of code characters, and
it stays when that run is cut short behind it. -/
theorem firstLexeme_of_startsCode {c : Char} (hc : startsCode c = true) {xs ys : List Char}
    (hrun : ys.takeWhile isCode <+: xs.takeWhile isCode) {lexeme : Lexeme} {n : Nat}
    (h : firstLexeme (c :: xs) = (lexeme, n)) (hn : n ≤ (ys.takeWhile isCode).length + 1) :
    firstLexeme (c :: ys) = (lexeme, n) := by
  have hagree : (c :: ys).take ((ys.takeWhile isCode).length + 1) =
      (c :: xs).take ((ys.takeWhile isCode).length + 1) := by
    rw [List.take_succ_cons, List.take_succ_cons,
      ← List.prefix_iff_eq_take.mp (List.takeWhile_prefix isCode),
      ← List.prefix_iff_eq_take.mp (hrun.trans (List.takeWhile_prefix isCode))]
  have hscore : score (bestMatch rules (c :: xs)) ≤ n := by
    rw [firstLexeme_eq_getD hc] at h
    cases hbest : bestMatch rules (c :: xs) with
    | none => exact Nat.zero_le n
    | some found =>
      rw [hbest, Option.getD_some] at h
      rw [h]
      exact Nat.le_refl n
  rw [firstLexeme_eq_getD hc, ← h, firstLexeme_eq_getD hc]
  congr 1
  apply bestMatch_congr
  intro rule hrule
  apply Regex.longestMatch_eq_of_take_eq hagree
  · intro m hm
    have hle := le_score_bestMatch hrule hm
    omega
  · exact fun m hle hm => le_of_matches_startsCode hrule hc hle hm

/-- The lexemes of code are neither blanks nor comments, strings or braces. -/
theorem lexeme_of_startsCode {c : Char} (hc : startsCode c = true) {cs : List Char}
    {lexeme : Lexeme} {n : Nat} (h : firstLexeme (c :: cs) = (lexeme, n)) :
    n ≤ (cs.takeWhile isCode).length + 1 ∧
      lexeme ∉ [.plain .whitespace, .plain .newline, .plain .comment, .plain .string,
        .plain .openBrace, .plain .closeBrace, .openBrace, .closeBrace] := by
  rw [firstLexeme_eq_getD hc] at h
  cases hbest : bestMatch rules (c :: cs) with
  | none =>
    rw [hbest, Option.getD_none] at h
    obtain ⟨rfl, rfl⟩ := Prod.mk.inj h
    exact ⟨by omega, by decide⟩
  | some found =>
    rw [hbest, Option.getD_some] at h
    rw [h] at hbest
    obtain ⟨rule, hrule, rfl, hm, hpos⟩ := exists_of_bestMatch_eq_some hbest
    obtain ⟨hle, hmatch, _⟩ := Regex.longestMatch_eq_some hm
    refine ⟨le_of_matches_startsCode hrule hc hle hmatch, ?_⟩
    have hs : rule ∉ separateRules := by
      intro hs
      rw [Regex.longestMatch_cons (not_nullable_of_mem_rules hrule),
        deriv_eq_never_of_startsCode hs hc, Regex.longestMatch_never] at hm
      cases hm
    have hall : ∀ rule ∈ rules, rule ∉ separateRules →
        rule.lexeme ∉ [.plain .whitespace, .plain .newline, .plain .comment, .plain .string,
          .plain .openBrace, .plain .closeBrace, .openBrace, .closeBrace] := by decide
    exact hall rule hrule hs

/-- A lexeme of a rule with one literal starts with that literal. -/
private theorem exists_eq_append_of_literal {lexeme : Lexeme} (text : String)
    (hall : ∀ rule ∈ rules, rule.lexeme = lexeme → rule.pattern = Regex.literal text)
    (hother : lexeme ≠ .plain .other) {source : List Char} {n : Nat}
    (h : firstLexeme source = (lexeme, n)) : ∃ rest, source = text.toList ++ rest := by
  unfold firstLexeme at h
  split at h
  · rename_i found hfound
    rw [h] at hfound
    obtain ⟨rule, hrule, hlexeme, hm, _⟩ := exists_of_bestMatch_eq_some hfound
    obtain ⟨_, hmatch, _⟩ := Regex.longestMatch_eq_some hm
    rw [hall rule hrule hlexeme, Regex.matches_literal_iff] at hmatch
    exact ⟨source.drop n, by rw [← hmatch, List.take_append_drop]⟩
  · exact absurd (Prod.mk.inj h).1.symm hother

/-- Only a double quote starts a double-quoted string. -/
theorem eq_doubleQuote_of_firstLexeme {source : List Char} {n : Nat}
    (h : firstLexeme source = (.quote, n)) : ∃ rest, source = '"' :: rest :=
  exists_eq_append_of_literal "\"" (by decide) (by decide) h

/-- Only a closing brace closes a brace or an interpolation. -/
theorem eq_closeBrace_of_firstLexeme {source : List Char} {n : Nat}
    (h : firstLexeme source = (.closeBrace, n)) : ∃ rest, source = '\x7d' :: rest :=
  exists_eq_append_of_literal "\x7d" (by decide) (by decide) h

/-- Only a slash and a star start a block comment. -/
theorem eq_slash_star_of_firstLexeme {source : List Char} {n : Nat}
    (h : firstLexeme source = (.commentStart, n)) : ∃ rest, source = '/' :: '*' :: rest :=
  exists_eq_append_of_literal "/*" (by decide) (by decide) h

end Grammar

end ManifestSpacing
