import CommandScript.Text.Unprintable

/-!
Text shown between quotes, as in messages and debugging output. The quote in use, the backslash and
the characters that do not print are written as escapes.
-/

namespace CommandScript.Shown

/-- A code point in lower-case hexadecimal between braces. -/
def codePoint (c : Char) : List Char :=
  ['\\', 'u', '\x7b'] ++ Nat.toDigits 16 c.toNat ++ ['\x7d']

/-- One character inside quotes of the kind `quote`. -/
def character (quote c : Char) : List Char :=
  if c == '\x00' then ['\\', '0']
  else if c == '\t' then ['\\', 't']
  else if c == '\n' then ['\\', 'n']
  else if c == '\r' then ['\\', 'r']
  else if c == '\\' || c == quote then ['\\', c]
  else if isUnprintable c then codePoint c
  else [c]

/-- A text between double quotes. -/
def string (text : String) : String :=
  String.ofList ('"' :: text.toList.flatMap (character '"') ++ ['"'])

/-- A character between single quotes. -/
def char (c : Char) : String :=
  String.ofList ('\'' :: character '\'' c ++ ['\''])

end CommandScript.Shown
