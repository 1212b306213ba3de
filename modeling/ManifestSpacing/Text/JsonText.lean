/-!
# JSON text

Values are written over several lines with two blanks for each level, empty
lists excepted. Fields stand in the order given.
-/

namespace ManifestSpacing

/-- A JSON value. -/
inductive JsonText where
  | string (text : String)
  | number (value : Nat)
  | boolean (value : Bool)
  | array (items : List JsonText)
  | object (fields : List (String × JsonText))
  deriving Repr

namespace JsonText

/-- The lower-case hexadecimal digit of a number below sixteen. -/
def hexDigit (n : Nat) : Char := (Nat.toDigits 16 n).headD '0'

/-- A character inside a string. Quotes, backslashes and control characters are escaped. -/
def escapeChar (c : Char) : List Char :=
  if c = '"' then ['\\', '"']
  else if c = '\\' then ['\\', '\\']
  else if c = '\n' then ['\\', 'n']
  else if c = '\r' then ['\\', 'r']
  else if c = '\t' then ['\\', 't']
  else if c.toNat = 8 then ['\\', 'b']
  else if c.toNat = 12 then ['\\', 'f']
  else if c.toNat < 32 then
    ['\\', 'u', '0', '0', hexDigit (c.toNat / 16), hexDigit (c.toNat % 16)]
  else [c]

/-- A text between quotes. -/
def quoted (text : String) : String :=
  "\"" ++ String.ofList (text.toList.flatMap escapeChar) ++ "\""

/-- The start of a line at a level. -/
def newLine (level : Nat) : String := "\n" ++ String.ofList (List.replicate (2 * level) ' ')

mutual

/-- A value whose first line stands at a level. -/
def render (level : Nat) : JsonText → String
  | string text => quoted text
  | number value => Nat.repr value
  | boolean value => if value then "true" else "false"
  | array [] => "[]"
  | array (item :: items) =>
    "[" ++ newLine (level + 1) ++ render (level + 1) item ++ renderItems (level + 1) items
      ++ newLine level ++ "]"
  | object [] => "\x7b\x7d"
  | object ((key, value) :: fields) =>
    "\x7b" ++ newLine (level + 1) ++ quoted key ++ ": " ++ render (level + 1) value
      ++ renderFields (level + 1) fields ++ newLine level ++ "\x7d"

/-- Further items of a list. -/
def renderItems (level : Nat) : List JsonText → String
  | [] => ""
  | item :: items => "," ++ newLine level ++ render level item ++ renderItems level items

/-- Further fields of an object. -/
def renderFields (level : Nat) : List (String × JsonText) → String
  | [] => ""
  | (key, value) :: fields =>
    "," ++ newLine level ++ quoted key ++ ": " ++ render level value ++ renderFields level fields

end

/-- A value as a text of its own. -/
def pretty (value : JsonText) : String := render 0 value

end JsonText

end ManifestSpacing
