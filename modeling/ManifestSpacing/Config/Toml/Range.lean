import ManifestSpacing.Config.Toml.Strings

/-!
# Ranges of TOML numbers and dates

A number or date of the right form is refused when it has no value: integers
have 64 bits with sign, floats must round to a finite double, and the day of a
date must be in its month.
-/

namespace ManifestSpacing

namespace Toml.Range

/-- The value of digits in a base. Underscores between them do not count. -/
def magnitude (base : Nat) (digits : List Char) : Nat :=
  digits.foldl
    (fun total c => match hexValue? c with
      | some digit => total * base + digit
      | none => total) 0

/-- The first magnitude that a positive integer cannot have. -/
def integerBound : Nat := Nat.pow 2 63

/-- Whether an integer fits into 64 bits with sign. -/
def isInteger (negative : Bool) (n : Nat) : Bool :=
  if negative then decide (n ≤ integerBound) else decide (n < integerBound)

/-- The smallest magnitude that rounds to no finite double: half a unit in the last place above the
greatest of them. -/
def floatBound : Nat := Nat.pow 2 1024 - Nat.pow 2 970

/-- The number of decimal digits of the greatest double. -/
def floatDigits : Int := 309

/-- Whether `m * 10 ^ e` rounds to a finite double. The numbers of digits decide unless they are
equal, so no great power is computed for a great exponent. -/
def isFinite (m : Nat) (e : Int) : Bool :=
  if m = 0 then true
  else
    let places : Int := (Nat.toDigits 10 m).length + e
    if places < floatDigits then true
    else if places > floatDigits then false
    else if 0 ≤ e then decide (m * Nat.pow 10 e.toNat < floatBound)
    else decide (m < floatBound * Nat.pow 10 (-e).toNat)

/-- Splits characters before the first one of a kind, which is dropped. -/
def cut (test : Char → Bool) (cs : List Char) : List Char × List Char :=
  (cs.takeWhile fun c => !test c, (cs.dropWhile fun c => !test c).drop 1)

/-- Takes the sign away; the flag tells whether it is a minus. -/
def unsigned : List Char → Bool × List Char
  | '-' :: rest => (true, rest)
  | '+' :: rest => (false, rest)
  | rest => (false, rest)

/-- Whether a character starts an exponent. -/
def isExponentMark (c : Char) : Bool := c = 'e' || c = 'E'

/-- Whether a decimal number has a value. -/
def isDecimal (text : List Char) : Bool :=
  let (negative, digits) := unsigned text
  if digits.any fun c => isExponentMark c || c = '.' then
    let (mantissa, exponent) := cut isExponentMark digits
    let (whole, fraction) := cut (fun c => c = '.') mantissa
    let (down, places) := unsigned exponent
    let shift : Int := magnitude 10 places
    isFinite (magnitude 10 (whole ++ fraction))
      ((if down then -shift else shift) - (fraction.filter fun c => c ≠ '_').length)
  else isInteger negative (magnitude 10 digits)

/-- Whether a year has a leap day. -/
def isLeapYear (year : Nat) : Bool := year % 4 == 0 && (year % 100 != 0 || year % 400 == 0)

/-- The number of days of a month. -/
def daysInMonth (year month : Nat) : Nat :=
  if month = 2 then if isLeapYear year then 29 else 28
  else if month = 4 ∨ month = 6 ∨ month = 9 ∨ month = 11 then 30
  else 31

/-- Whether a number, date or time of the right form has a value. -/
def contains : List Char → Bool
  | '0' :: 'x' :: digits => isInteger false (magnitude 16 digits)
  | '0' :: 'o' :: digits => isInteger false (magnitude 8 digits)
  | '0' :: 'b' :: digits => isInteger false (magnitude 2 digits)
  | y₁ :: y₂ :: y₃ :: y₄ :: '-' :: m₁ :: m₂ :: '-' :: d₁ :: d₂ :: _ =>
    decide (magnitude 10 [d₁, d₂] ≤
      daysInMonth (magnitude 10 [y₁, y₂, y₃, y₄]) (magnitude 10 [m₁, m₂]))
  | text =>
    -- Times, infinities and the number that is none hold one of these characters.
    if text.any fun c => c = ':' || c = 'n' then true else isDecimal text

end Toml.Range

end ManifestSpacing
