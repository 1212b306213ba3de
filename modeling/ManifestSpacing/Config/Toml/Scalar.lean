import ManifestSpacing.Lexical.Regex

/-!
# TOML numbers, dates and times

Their written forms as one regular expression. Underscores may stand between
digits, a decimal integer has no leading zero, and dates and times have their
fields in range.
-/

namespace ManifestSpacing

namespace Toml.Scalar

open Regex

/-- Digits of a set, with single underscores between them. -/
def digits (set : CharSet) : Regex :=
  .seq (.chars set) (.star (.seq (optional (literal "_")) (.chars set)))

/-- A sign or none. -/
def sign : Regex := optional (.chars (.ofText "+-"))

/-- A decimal integer without leading zeros. -/
def decimal : Regex :=
  .seq sign (.alt (literal "0")
    (.seq (.chars (.ofRanges [('1', '9')]))
      (.star (.seq (optional (literal "_")) (.chars .digit)))))

/-- An exponent. -/
def exponent : Regex := sequence [.chars (.ofText "eE"), sign, digits .digit]

/-- A number of any form. -/
def number : Regex :=
  choice [decimal,
    .seq decimal exponent,
    sequence [decimal, literal ".", digits .digit, optional exponent],
    .seq sign (.alt (literal "inf") (literal "nan")),
    .seq (literal "0x") (digits .hexDigit),
    .seq (literal "0o") (digits (.ofRanges [('0', '7')])),
    .seq (literal "0b") (digits (.ofText "01"))]

/-- Two digits whose first lies in one set and whose second lies in another. -/
def twoDigits (first second : String) : Regex :=
  .seq (.chars (.ofText first)) (.chars (.ofText second))

/-- A date. -/
def date : Regex :=
  sequence [.chars .digit, .chars .digit, .chars .digit, .chars .digit, literal "-",
    .alt (twoDigits "0" "123456789") (twoDigits "1" "012"), literal "-",
    choice [twoDigits "0" "123456789", twoDigits "12" "0123456789", twoDigits "3" "01"]]

/-- Hours and minutes. -/
def clock : Regex :=
  sequence [.alt (twoDigits "01" "0123456789") (twoDigits "2" "0123"), literal ":",
    twoDigits "012345" "0123456789"]

/-- A time of day. -/
def time : Regex :=
  .seq clock (optional (sequence [literal ":",
    .alt (twoDigits "012345" "0123456789") (literal "60"),
    optional (.seq (literal ".") (plus (.chars .digit)))]))

/-- A date, a time, or both with an optional offset. -/
def moment : Regex :=
  choice [date, time,
    sequence [date, .chars (.ofText "Tt "), time,
      optional (.alt (.chars (.ofText "Zz")) (.seq (.chars (.ofText "+-")) clock))]]

/-- Any scalar that is neither a string nor a truth value. -/
def pattern : Regex := .alt number moment

end Toml.Scalar

end ManifestSpacing
