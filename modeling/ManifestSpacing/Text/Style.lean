/-!
# Styled text

Styles are written as terminal escape sequences. A reset inside the text would
end the style early, so the style is switched on again after it.
-/

namespace ManifestSpacing

/-- A way to emphasise text. -/
inductive Style where
  | bold
  | dimmed
  | red
  | green
  | yellow
  | boldRed
  | boldYellow
  deriving DecidableEq, Repr

namespace Style

/-- The parameters of the escape sequence. -/
def codes : Style → String
  | bold => "1"
  | dimmed => "2"
  | red => "31"
  | green => "32"
  | yellow => "33"
  | boldRed => "1;31"
  | boldYellow => "1;33"

/-- The sequence that switches a style on. -/
def start (style : Style) : String := "\x1b[" ++ style.codes ++ "m"

/-- The sequence that switches all styles off. -/
def reset : String := "\x1b[0m"

/-- Text in a style, left plain when colours are off. -/
def paint (color : Bool) (style : Style) (text : String) : String :=
  if color then style.start ++ text.replace reset (reset ++ style.start) ++ reset else text

end Style

end ManifestSpacing
