import Mathlib
import ManifestSpacing.Proofs.Lexical.Interpolation
import ManifestSpacing.Proofs.Lexical.PartialRuns
import ManifestSpacing.Proofs.Lexical.Positions

/-!
# Which string an error reports

A lexical error is reported from three places, but always at a quote where the
lexer starts a string that it never closes. Every place on the stack of open
strings is where one of the tokens so far starts a string, and the quotes behind
that token leave as many strings open as lie above it on the stack. So a string
that is still on the stack where the run gets stuck is not closed by the tokens
before, and there are none behind. If every string is closed, nothing is left to
get stuck at.
-/

namespace ManifestSpacing

namespace Lexer

open Grammar

/-- How many strings are open behind a token, given how many are open before it; none are counted
where one is closed that was not. -/
def quoteStep : Nat → TokenKind → Option Nat
  | depth, .quoteOpen => some (depth + 1)
  | 0, .quoteClose => none
  | depth + 1, .quoteClose => some depth
  | depth, _ => some depth

/-- How many strings are open behind a run of tokens, given how many are open before it. -/
def quoteDepth (depth : Nat) (kinds : List TokenKind) : Option Nat := kinds.foldlM quoteStep depth

/-- Kinds of one whole double-quoted string, through its closing quote. -/
def IsString (kinds : List TokenKind) : Prop :=
  kinds = [.string] ∨
    ∃ inside, quoteDepth 0 inside = some 0 ∧ kinds = .quoteOpen :: (inside ++ [.quoteClose])

variable {here : Position} {opens after : List OpenString} {id : TokenId} {kind : TokenKind}
  {text rest : List Char} {ts us : List Token}

/-! ## Counting quotes -/

theorem quoteStep_of_isQuote_eq_false {kind : TokenKind} (h : kind.isQuote = false) (depth : Nat) :
    quoteStep depth kind = some depth := by
  cases kind <;> first | rfl | cases h

@[simp] theorem quoteDepth_nil (depth : Nat) : quoteDepth depth [] = some depth := rfl

@[simp] theorem quoteDepth_cons (depth : Nat) (kind : TokenKind) (kinds : List TokenKind) :
    quoteDepth depth (kind :: kinds) = (quoteStep depth kind).bind (quoteDepth · kinds) := rfl

@[simp] theorem quoteDepth_append (depth : Nat) (kinds more : List TokenKind) :
    quoteDepth depth (kinds ++ more) = (quoteDepth depth kinds).bind (quoteDepth · more) :=
  List.foldlM_append

/-- Whole items leave the strings open that they find open, and so does a string up to its end. -/
theorem quoteDepth_of_generates {phrase : Phrase} {kinds : List TokenKind}
    (h : phrase.Generates kinds) :
    match phrase with
    | .items _ | .code => ∀ depth, quoteDepth depth kinds = some depth
    | .tail => ∃ inside, kinds = inside ++ [.quoteClose] ∧
        ∀ depth, quoteDepth depth inside = some depth := by
  induction h with
  | nil => exact fun depth => rfl
  | token hkind _ ih =>
    intro depth
    rw [quoteDepth_cons, quoteStep_of_isQuote_eq_false hkind]
    exact ih depth
  | string _ _ hinside ih =>
    obtain ⟨inside, rfl, hinside⟩ := hinside
    intro depth
    simp [quoteStep, hinside, ih depth]
  | code _ _ ih => exact ih
  | @close kinds _ hcode => exact ⟨kinds, rfl, hcode⟩
  | @next kinds _ _ _ hcode ih =>
    obtain ⟨inside, rfl, hinside⟩ := ih
    refine ⟨kinds ++ .quoteMid :: inside, by rw [List.append_assoc, List.cons_append], ?_⟩
    intro depth
    simp [quoteStep, hcode, hinside]

/-- What ends a string closes it, and nothing outside it. -/
theorem isString_of_tail {inside : List TokenKind} (h : Phrase.tail.Generates inside) :
    IsString (.quoteOpen :: inside) := by
  obtain ⟨inner, rfl, hinner⟩ := quoteDepth_of_generates h
  exact Or.inr ⟨inner, hinner 0, rfl⟩

/-! ## The strings on the stack -/

/-- A token opens a string where it stands, closes the innermost one, or leaves all of them where
they are. -/
theorem Cut.starts (h : Cut here opens kind text rest after) :
    (kind = .quoteOpen ∧ after.map OpenString.start = here :: opens.map OpenString.start) ∨
      (kind = .quoteClose ∧ ∃ p, opens.map OpenString.start = p :: after.map OpenString.start) ∨
      ((∀ depth, quoteStep depth kind = some depth) ∧
        after.map OpenString.start = opens.map OpenString.start) := by
  cases h with
  | quoteOpen => exact Or.inl ⟨rfl, rfl⟩
  | @quoteClose o => exact Or.inr (Or.inl ⟨rfl, o.start, rfl⟩)
  | openBrace =>
    refine Or.inr (Or.inr ⟨fun _ => rfl, ?_⟩)
    cases opens <;> rfl
  | plain _ hfirst =>
    exact Or.inr (Or.inr ⟨quoteStep_of_isQuote_eq_false (isQuote_of_firstLexeme hfirst), rfl⟩)
  | word => exact Or.inr (Or.inr ⟨quoteStep_of_isQuote_eq_false (isQuote_wordKind _), rfl⟩)
  | _ => exact Or.inr (Or.inr ⟨fun _ => rfl, rfl⟩)

/-- Whether each of some places, innermost first, is that of a token that starts a string, and the
tokens behind it leave the strings of the places before open. -/
def Opened (ts : List Token) (starts : List Position) : Prop :=
  ∀ (depth : Nat) (p : Position), starts[depth]? = some p → ∃ front t inside,
    ts = front ++ t :: inside ∧ t.kind = .quoteOpen ∧ t.position = p ∧
      quoteDepth 0 (inside.map Token.kind) = some depth

/-- One more token keeps the stack and the quotes in step. -/
theorem Opened.snoc {t : Token} (h : Opened ts (opens.map OpenString.start))
    (hcut : Cut here opens t.kind text rest after) (hposition : t.position = here) :
    Opened (ts ++ [t]) (after.map OpenString.start) := by
  intro depth p hp
  -- a string that was open before stays so, at the depth the token says
  have hkept {was : Nat} (hwas : (opens.map OpenString.start)[was]? = some p)
      (hstep : quoteStep was t.kind = some depth) : ∃ front u inside,
      ts ++ [t] = front ++ u :: inside ∧ u.kind = .quoteOpen ∧ u.position = p ∧
        quoteDepth 0 (inside.map Token.kind) = some depth := by
    obtain ⟨front, u, inside, rfl, hkind, hplace, hdepth⟩ := h was p hwas
    refine ⟨front, u, inside ++ [t], by rw [List.append_assoc, List.cons_append], hkind, hplace, ?_⟩
    simp [hdepth, hstep]
  rcases hcut.starts with ⟨hkind, hstarts⟩ | ⟨hkind, first, hstarts⟩ | ⟨hsame, hstarts⟩
  · rw [hstarts] at hp
    cases depth with
    | zero => exact ⟨ts, t, [], rfl, hkind, hposition.trans (Option.some.inj hp), rfl⟩
    | succ depth => exact hkept hp (by rw [hkind]; rfl)
  · refine @hkept (depth + 1) ?_ (by rw [hkind]; rfl)
    rwa [hstarts]
  · rw [hstarts] at hp
    exact hkept hp (hsame depth)

/-- The places on the stack are those of strings that the tokens so far leave open. -/
theorem Passes.opened (h : Passes rest after [] here id ts) :
    Opened ts (after.map OpenString.start) := by
  induction ts using List.reverseRecOn generalizing rest after with
  | nil =>
    cases h
    intro depth p hp
    cases hp
  | append_singleton ts t ih =>
    obtain ⟨mid, hfront, _ | ⟨_, hposition, hcut, hrest⟩⟩ := append_iff.mp h
    cases hrest
    exact (ih hfront).snoc hcut hposition

/-- A string on the stack starts behind some of the tokens, and those behind its start leave it
open. -/
theorem Passes.exists_of_mem {o : OpenString} (h : Passes rest after [] here id ts)
    (ho : o ∈ after) : ∃ front t inside depth, ts = front ++ t :: inside ∧ t.kind = .quoteOpen ∧
      o.start = here.advance (textOf front) ∧
      quoteDepth 0 (inside.map Token.kind) = some depth := by
  obtain ⟨depth, hdepth⟩ := List.getElem?_of_mem (List.mem_map_of_mem ho)
  obtain ⟨front, t, inside, rfl, hkind, hposition, hquotes⟩ := h.opened depth _ hdepth
  exact ⟨front, t, inside, depth, rfl, hkind, hposition.symm.trans h.position_of_append, hquotes⟩

/-- Only a quote starts a string that has interpolations. -/
theorem Cut.exists_of_quoteOpen (h : Cut here opens kind text rest after)
    (hkind : kind = .quoteOpen) : ∃ cs, text = '"' :: cs := by
  cases h with
  | @quoteOpen _ cs => exact ⟨cs, rfl⟩
  | plain _ hfirst => cases hkind ▸ isQuote_of_firstLexeme hfirst
  | @word _ c cs => cases hkind ▸ isQuote_wordKind (String.ofList (c :: cs))
  | _ => cases hkind

/-- A quote starts a string that ends in the same token, or one that is open behind it. -/
theorem Cut.of_doubleQuote {cs : List Char} (h : Cut here opens kind ('"' :: cs) rest after) :
    kind = .string ∨ kind = .quoteOpen ∧ after = ⟨0, here⟩ :: opens := by
  have hstep := step_of_cut h
  simp only [step, List.cons_append, firstLexeme_doubleQuote, List.drop_succ_cons,
    List.drop_zero] at hstep
  split at hstep
  · cases hstep
  · exact Or.inl (Step.mk.inj (Except.ok.inj hstep)).1.symm
  · obtain ⟨hkind, _, hafter⟩ := Step.mk.inj (Except.ok.inj hstep)
    exact Or.inr ⟨hkind.symm, hafter.symm⟩

/-- A string that the lexer starts, and that goes on in the tokens behind its start. -/
theorem Passes.startsText {front inside : List Token} {t : Token}
    (h : Passes rest after opens here id (front ++ t :: inside)) (hkind : t.kind = .quoteOpen) :
    ∃ behind mid, textOf (front ++ t :: inside) ++ rest = textOf front ++ '"' :: behind ∧
      Passes ('"' :: behind) mid opens here id front := by
  obtain ⟨mid, hfront, hback⟩ := append_iff.mp h
  cases hback with
  | cons _ _ hcut _ =>
    obtain ⟨cs, htext⟩ := hcut.exists_of_quoteOpen hkind
    have hbehind : textOf (t :: inside) ++ rest = '"' :: (cs ++ textOf inside ++ rest) := by
      rw [textOf_cons, htext, List.cons_append, List.cons_append, List.append_assoc]
    rw [hbehind] at hfront
    refine ⟨_, mid, ?_, hfront⟩
    rw [textOf_append, List.append_assoc, hbehind]

end Lexer

open Lexer

/-- Whether the lexer, behind some tokens at the front of a source, starts a double-quoted
string. -/
def StartsString (source : String) (front : List Token) : Prop :=
  ∃ behind opens, source.toList = textOf front ++ behind ∧ Passes behind opens [] .start 0 front ∧
    (Grammar.firstLexeme behind).1 = .quote

/-- Whether the lexer, behind some tokens at the front of a source, goes on with those of a whole
string. -/
def ClosesString (source : String) (front : List Token) : Prop :=
  ∃ string behind opens, source.toList = textOf (front ++ string) ++ behind ∧
    Passes behind opens [] .start 0 (front ++ string) ∧ IsString (string.map Token.kind)

namespace Lexer

open Grammar

variable {source : String} {front : List Token}

/-- Strings start where a run stands in front of a double quote. -/
theorem startsString_iff : StartsString source front ↔ ∃ cs opens,
    source.toList = textOf front ++ '"' :: cs ∧ Passes ('"' :: cs) opens [] .start 0 front := by
  constructor
  · rintro ⟨behind, opens, htext, hpasses, hquote⟩
    obtain ⟨cs, rfl⟩ := eq_doubleQuote_of_firstLexeme (Prod.ext hquote rfl)
    exact ⟨cs, opens, htext, hpasses⟩
  · rintro ⟨cs, opens, htext, hpasses⟩
    exact ⟨_, opens, htext, hpasses, by rw [firstLexeme_doubleQuote]⟩

theorem IsString.ne_nil {kinds : List TokenKind} (h : IsString kinds) : kinds ≠ [] := by
  rcases h with rfl | ⟨inside, _, rfl⟩
  · exact List.cons_ne_nil _ _
  · exact List.cons_ne_nil _ _

/-- Where a string is still open it has not ended. -/
theorem IsString.not_isPrefix {kinds inside : List TokenKind} {depth : Nat} (h : IsString kinds)
    (hdepth : quoteDepth 0 inside = some depth) : ¬ kinds <+: .quoteOpen :: inside := by
  intro hprefix
  rcases h with rfl | ⟨inner, hinner, rfl⟩
  · cases (List.cons_prefix_cons.mp hprefix).1
  · obtain ⟨more, rfl⟩ := (List.cons_prefix_cons.mp hprefix).2
    simp [hinner, quoteStep] at hdepth

/-- A run that gets stuck reports a string that it starts and does not close. -/
theorem exists_open_of_stuck {e : LexError} (htext : source.toList = textOf ts ++ rest)
    (h : Passes rest after [] .start 0 ts)
    (hstuck : Stuck (Position.start.advance (textOf ts)) after rest e) : ∃ front,
      StartsString source front ∧ ¬ ClosesString source front ∧
        e.position = Position.start.advance (textOf front) := by
  have hends {front : List Token} (hcloses : ClosesString source front) :
      ∃ string, front ++ string <+: ts ∧ IsString (string.map Token.kind) := by
    obtain ⟨string, behind, opens, hbehind, hpasses, hstring⟩ := hcloses
    exact ⟨string, hstuck.isPrefix_of_passes h hpasses (htext.symm.trans hbehind), hstring⟩
  have hstack {o : OpenString} (ho : o ∈ after) : ∃ front, StartsString source front ∧
      ¬ ClosesString source front ∧ o.start = Position.start.advance (textOf front) := by
    obtain ⟨front, t, inside, depth, rfl, hkind, hposition, hquotes⟩ := h.exists_of_mem ho
    refine ⟨front, ?_, fun hcloses => ?_, hposition⟩
    · obtain ⟨behind, mid, hbehind, hfront⟩ := h.startsText hkind
      exact startsString_iff.mpr ⟨behind, mid, htext.trans hbehind, hfront⟩
    · obtain ⟨string, hprefix, hstring⟩ := hends hcloses
      have hkinds := ((List.prefix_append_right_inj front).mp hprefix).map Token.kind
      rw [List.map_cons, hkind] at hkinds
      exact hstring.not_isPrefix hquotes hkinds
  cases hstuck with
  | atEnd hlast => exact hstack (List.mem_of_getLast? hlast)
  | atBrace => exact hstack List.mem_cons_self
  | atQuote =>
    refine ⟨ts, startsString_iff.mpr ⟨_, after, htext, h⟩, fun hcloses => ?_, rfl⟩
    obtain ⟨string, hprefix, hstring⟩ := hends hcloses
    have hnil : string = [] := by
      have hlength := hprefix.length_le
      rw [List.length_append] at hlength
      exact List.length_eq_zero_iff.mp (by omega)
    exact hstring.ne_nil (by rw [hnil, List.map_nil])

/-- Behind tokens at the front of a source, nothing but an earlier string can be reported. -/
theorem Passes.before_of_error {e : LexError} (h : Passes [] after [] .start 0 front)
    (herror : tokensFrom [] .start 0 (textOf front) = .error e) :
    e.position.Before (Position.start.advance (textOf front)) := by
  have hgo := h.tokensFrom_eq
  rw [List.append_nil, herror, tokensFrom] at hgo
  cases hlast : after.getLast? with
  | none =>
    rw [hlast] at hgo
    cases hgo
  | some o =>
    rw [hlast] at hgo
    cases hgo
    obtain ⟨before, t, inside, _, rfl, _, hposition, _⟩ :=
      h.exists_of_mem (List.mem_of_getLast? hlast)
    obtain ⟨_, _, _ | ⟨_, _, hcut, _⟩⟩ := append_iff.mp h
    rw [hposition, textOf_append, Position.advance_append, textOf_cons]
    exact Position.before_advance _ (List.append_ne_nil_of_left_ne_nil hcut.ne_nil _)

/-- A string that has interpolations ends in the tokens that a run to the end has behind it. -/
theorem Lexes.exists_ending {o : OpenString} {id : TokenId} {tokens : List Token}
    (h : Lexes (o :: opens) here id tokens) (hbraces : o.braces = 0) : ∃ ending more,
      tokens = ending ++ more ∧ IsString (.quoteOpen :: ending.map Token.kind) := by
  have hcompletes := h.completes
  rw [List.map_cons, hbraces] at hcompletes
  obtain ⟨inside, others, hkinds, hinside, _⟩ := hcompletes.exists_tail
  obtain ⟨ending, more, rfl, rfl, _⟩ := List.map_eq_append_iff.mp hkinds
  exact ⟨ending, more, rfl, isString_of_tail hinside⟩

/-- A run through the whole source closes every string that it starts. -/
theorem Lexes.closesString {tokens : List Token} (h : Lexes [] .start 0 tokens)
    (htext : source.toList = textOf tokens) (hstarts : StartsString source front) :
    ClosesString source front := by
  obtain ⟨cs, opens, hbehind, hfront⟩ := startsString_iff.mp hstarts
  have hpasses := lexes_iff_passes.mp h
  obtain ⟨string, rfl⟩ : front <+: tokens := by
    rcases hfront.comparable hpasses (by rw [← hbehind, htext, List.append_nil]) with hle | hge
    · exact hle
    · obtain ⟨more, rfl⟩ := hge
      rw [htext, textOf_append, List.append_assoc] at hbehind
      simp at hbehind
  have hrest : textOf string = '"' :: cs := by
    rw [htext, textOf_append] at hbehind
    exact List.append_cancel_left hbehind
  have hback : Passes [] [] opens (Position.start.advance (textOf front)) (0 + front.length)
      string := Passes.of_append (by rwa [List.append_nil, hrest]) hpasses
  cases hback with
  | nil => cases hrest
  | @cons _ mid _ _ t inside _ _ hcut hinside =>
    obtain ⟨text, hquote⟩ : ∃ text, t.text.toList = '"' :: text := by
      obtain ⟨c, text, hc⟩ := List.exists_cons_of_ne_nil hcut.ne_nil
      rw [textOf_cons, hc, List.cons_append] at hrest
      exact ⟨text, (List.cons.inj hrest).1 ▸ hc⟩
    rw [hquote] at hcut
    obtain ⟨ending, more, rfl, hstring⟩ : ∃ ending more,
        inside = ending ++ more ∧ IsString ((t :: ending).map Token.kind) := by
      rcases hcut.of_doubleQuote with hkind | ⟨hkind, rfl⟩
      · exact ⟨[], inside, rfl, Or.inl (congrArg (fun kind => [kind]) hkind)⟩
      · simp only [List.map_cons, hkind]
        exact (lexes_iff_passes.mpr hinside).exists_ending rfl
    rw [← List.cons_append, ← List.append_assoc] at hpasses htext
    obtain ⟨opens, hwhole, _⟩ := Passes.append_iff.mp hpasses
    rw [textOf_append] at htext
    exact ⟨t :: ending, _, opens, htext, List.append_nil (textOf more) ▸ hwhole, hstring⟩

end Lexer

/-- An error is reported at a byte that is a double quote, where the lexer starts a string that it
does not close; the source before that byte is lexed or gives an error further in front. A source is
lexed exactly when every string that the lexer starts in it is closed. -/
theorem lex_error_open_string :
    (∀ (source : String) (e : LexError), lex source = .error e →
      ∃ (offset : Nat) (front : List Token),
        (Bytes.ofText source)[offset]? = some Segment.doubleQuote ∧
        (Bytes.ofText source).take offset = Bytes.ofText (renderTokens front) ∧
        e.position = .behind ((Bytes.ofText source).take offset) ∧
        StartsString source front ∧ ¬ ClosesString source front ∧
        ∀ e', lex (renderTokens front) = .error e' → e'.position.Before e.position) ∧
    ∀ source : String, (∃ s, lex source = .ok s) ↔
      ∀ front, StartsString source front → ClosesString source front := by
  have hopen (source : String) (e : LexError) (hlex : lex source = .error e) : ∃ front,
      StartsString source front ∧ ¬ ClosesString source front ∧
        e.position = Position.start.advance (textOf front) := by
    obtain ⟨ts, rest, after, htext, hpasses, hstuck⟩ := exists_stuck (lex_eq_error_iff.mp hlex)
    exact exists_open_of_stuck htext hpasses hstuck
  refine ⟨fun source e hlex => ?_, fun source => ⟨?_, fun hcloses => ?_⟩⟩
  · obtain ⟨front, hstarts, hcloses, hposition⟩ := hopen source e hlex
    obtain ⟨cs, opens, htext, hpasses⟩ := startsString_iff.mp hstarts
    have hbytes : Bytes.ofText source =
        Bytes.ofText (renderTokens front) ++ Segment.doubleQuote :: Segment.utf8Bytes cs := by
      rw [Bytes.ofText_eq, htext, Bytes.ofText_eq, toList_renderTokens, Segment.utf8Bytes_append]
      rfl
    refine ⟨(Bytes.ofText (renderTokens front)).length, front, ?_, ?_, ?_, hstarts, hcloses, ?_⟩
    · rw [hbytes]
      simp
    · rw [hbytes, List.take_left]
    · rw [hbytes, List.take_left, hposition, Position.advance_start_textOf]
    · intro e' hlex'
      rw [lex_eq_error_iff, toList_renderTokens] at hlex'
      rw [hposition]
      exact Passes.before_of_error (Passes.truncate hpasses) hlex'
  · rintro ⟨s, hlex⟩ front hstarts
    obtain ⟨hlexes, hrender, _⟩ := lex_eq_ok_iff.mp hlex
    exact hlexes.closesString (by rw [← hrender, toList_render]) hstarts
  · cases hlex : lex source with
    | ok s => exact ⟨s, rfl⟩
    | error e =>
      obtain ⟨front, hstarts, hopen, _⟩ := hopen source e hlex
      exact absurd (hcloses front hstarts) hopen

/-- Of two strings that are not closed the inner one is reported, and a quote in single quotes opens
none. -/
theorem lex_error_open_string_inner :
    lex "\"$\x7b\"$\x7bx\x7dy" = .error ⟨⟨1, 4⟩⟩ ∧
      (∃ (offset : Nat) (front : List Token),
        (Bytes.ofText "\"$\x7b\"$\x7bx\x7dy")[offset]? = some Segment.doubleQuote ∧
        (Bytes.ofText "\"$\x7b\"$\x7bx\x7dy").take offset =
          Bytes.ofText (renderTokens front) ∧
        ⟨1, 4⟩ = Position.behind ((Bytes.ofText "\"$\x7b\"$\x7bx\x7dy").take offset) ∧
        StartsString "\"$\x7b\"$\x7bx\x7dy" front ∧
        ¬ ClosesString "\"$\x7b\"$\x7bx\x7dy" front ∧
        ∀ e', lex (renderTokens front) = .error e' → e'.position.Before ⟨1, 4⟩) ∧
      lex "\"$\x7b" = .error ⟨⟨1, 1⟩⟩ ∧ (∃ s, lex "\"$\x7b'\"'\x7d\"" = .ok s) ∧
      ∀ front, StartsString "\"$\x7b'\"'\x7d\"" front →
        ClosesString "\"$\x7b'\"'\x7d\"" front := by
  have hlex : lex "\"$\x7b\"$\x7bx\x7dy" = .error ⟨⟨1, 4⟩⟩ := by cbv
  have hclosed : ∃ s, lex "\"$\x7b'\"'\x7d\"" = .ok s := ⟨⟨[⟨0, .quoteOpen, "\"$\x7b", ⟨1, 1⟩⟩,
    ⟨1, .string, "'\"'", ⟨1, 4⟩⟩, ⟨2, .quoteClose, "\x7d\"", ⟨1, 7⟩⟩], 3⟩, by cbv⟩
  exact ⟨hlex, lex_error_open_string.1 _ _ hlex, by cbv, hclosed,
    (lex_error_open_string.2 _).mp hclosed⟩

end ManifestSpacing
