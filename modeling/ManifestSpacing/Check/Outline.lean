import ManifestSpacing.Check.Problem
import ManifestSpacing.Structure.ValueConditional
import ManifestSpacing.Token.Stream

/-!
# Outlines

What every check looks at: the tokens, their kinds, the matched delimiters and
the braces exempt from checking.
-/

namespace ManifestSpacing

/-- A token sequence with its structure. -/
structure Outline where
  /-- The tokens. -/
  tokens : List Token
  /-- Their kinds. -/
  kinds : List TokenKind
  /-- The matched delimiters. -/
  pairing : Pairing
  /-- The braces that are not checked. -/
  exempt : List Nat
  /-- What the checks are set to. -/
  settings : Settings

namespace Outline

/-- The outline of a token sequence under some settings. -/
def ofTokens (tokens : List Token) (settings : Settings) : Outline :=
  let kinds := tokens.map Token.kind
  let pairing := Pairing.ofKinds kinds
  ⟨tokens, kinds, pairing,
    if settings.checkExpressionBraces then [] else ValueConditional.braces kinds pairing,
    settings⟩

/-- The indices of the closing braces that are matched and not exempt. -/
def checkedCloseBraces (outline : Outline) : List Nat :=
  (List.range outline.kinds.length).filter fun i =>
    outline.kinds[i]? == some .closeBrace && (outline.pairing.partner? i).isSome &&
      !outline.exempt.contains i

/-- The indices of the tokens of a kind. -/
def indicesOf (outline : Outline) (kind : TokenKind) : List Nat :=
  (List.range outline.kinds.length).filter fun i => outline.kinds[i]? == some kind

/-- The problem of a gap: it lies at the first token of the gap, or at the right token when the
gap is empty. -/
def problem? (outline : Outline) (check : Check) (left right : Nat) (rule : GapRule) :
    Option Problem :=
  match outline.tokens[left]?, outline.tokens[right]?,
      outline.tokens[if left + 1 < right then left + 1 else right]? with
  | some before, some after, some spot =>
    some { Problem.located check spot ⟨before.id, after.id, left⟩ rule with
      severity := outline.settings.severityOf check }
  | _, _, _ => none

end Outline

end ManifestSpacing
