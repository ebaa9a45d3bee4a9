import CommandScript.Text.Byte

/-!
Escapes inside strings. Reading replaces a backslash and its letter by one byte and leaves any other
backslash alone, so a backslash has no escape of its own. Writing therefore copies backslashes and
chooses the quote with care.
-/

namespace CommandScript.Escape

/-- The letters that may follow a backslash, each with the byte it stands for. -/
def table : List (UInt8 × UInt8) :=
  [(0x6e, Byte.lineFeed), (0x72, Byte.carriageReturn), (0x66, Byte.formFeed),
    (0x76, Byte.verticalTab), (0x74, Byte.tab), (0x61, Byte.bell),
    (Byte.doubleQuote, Byte.doubleQuote), (0x30, 0x00)]

/-- The byte that a letter behind a backslash stands for. -/
def meaning? (letter : UInt8) : Option UInt8 :=
  (table.find? (·.1 == letter)).map (·.2)

/-- The letter that stands for a byte. -/
def letter? (b : UInt8) : Option UInt8 :=
  (table.find? (·.2 == b)).map (·.1)

/-- The contents of a string as they are meant. A backslash without a letter of the table stays, and
the byte behind it is read on its own. -/
def unescape : Bytes → Bytes
  | [] => []
  | [b] => [b]
  | b :: letter :: rest =>
    if b == Byte.backslash then
      match meaning? letter with
      | some byte => byte :: unescape rest
      | none => b :: unescape (letter :: rest)
    else b :: unescape (letter :: rest)

/-- A byte as it is written between quotes. -/
def escapeByte (b : UInt8) : Bytes :=
  match letter? b with
  | some letter => [Byte.backslash, letter]
  | none => [b]

/-- The contents of a string as they are written. -/
def escape (value : Bytes) : Bytes :=
  value.flatMap escapeByte

/-- True when a double quote follows an odd number of backslashes, where `odd` tells whether an odd
number of them stands right before the value. -/
def hasGuardedQuote (odd : Bool) : Bytes → Bool
  | [] => false
  | b :: rest =>
    if b == Byte.backslash then hasGuardedQuote (!odd) rest
    else if b == Byte.doubleQuote && odd then true
    else hasGuardedQuote false rest

/-- The quote to write a value in. Behind an odd number of backslashes a written `\"` would close a
string in double quotes early; such a value can only have come out of single quotes. -/
def quoteFor (value : Bytes) : UInt8 :=
  if hasGuardedQuote false value then Byte.singleQuote else Byte.doubleQuote

/-- A value as a string with its quotes. -/
def quoted (value : Bytes) : Bytes :=
  quoteFor value :: escape value ++ [quoteFor value]

end CommandScript.Escape
