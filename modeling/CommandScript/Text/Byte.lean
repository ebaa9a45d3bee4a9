/-!
Bytes of command text and their classes. Text is a list of bytes that need not be valid UTF-8, so
every class is a predicate on one byte. A byte is part of a word, inline space, a quote, or none of
these; the single quote alone is both a word byte and a quote.
-/

namespace CommandScript

/-- Source text, and the contents of words and strings. -/
abbrev Bytes := List UInt8

/-- The UTF-8 form of a text. -/
def Bytes.ofString (text : String) : Bytes :=
  text.toByteArray.data.toList

namespace Byte

abbrev tab : UInt8 := 0x09
abbrev lineFeed : UInt8 := 0x0a
abbrev verticalTab : UInt8 := 0x0b
abbrev formFeed : UInt8 := 0x0c
abbrev carriageReturn : UInt8 := 0x0d
abbrev bell : UInt8 := 0x07
abbrev space : UInt8 := 0x20
abbrev doubleQuote : UInt8 := 0x22
abbrev hash : UInt8 := 0x23
abbrev singleQuote : UInt8 := 0x27
abbrev questionMark : UInt8 := 0x3f
abbrev backslash : UInt8 := 0x5c

/-- An ASCII digit or letter. -/
def isAlphanumeric (b : UInt8) : Bool :=
  (0x30 ≤ b && b ≤ 0x39) || (0x41 ≤ b && b ≤ 0x5a) || (0x61 ≤ b && b ≤ 0x7a)

/-- The punctuation that may stand inside a word. -/
def wordPunctuation : Bytes :=
  Bytes.ofString "!$%^&*()-+_=[]\x7b\x7d|\\:;',<>/?~@."

/-- A byte of a word: any byte above ASCII, a digit, a letter or word punctuation. -/
def isWord (b : UInt8) : Bool :=
  0x80 ≤ b || isAlphanumeric b || wordPunctuation.contains b

/-- Space that separates parts without ending the line. -/
def isInlineSpace (b : UInt8) : Bool :=
  b == space || b == tab || b == verticalTab || b == formFeed || b == carriageReturn

/-- One of the two quotes. -/
def isQuote (b : UInt8) : Bool :=
  b == doubleQuote || b == singleQuote

end Byte

end CommandScript
