import CommandScript.Text.Integer

/-!
Numeric codes of diagnostics. Code 0 means that nothing failed, codes below 100 belong to the engine
and codes from 100 on to hosts. A code is written with at least three digits, as in `PL010`, and is
read with or without the letters.
-/

namespace CommandScript

/-- The number that says what a diagnostic is about. -/
structure Code where
  number : UInt16
deriving DecidableEq, Repr

namespace Code

/-- Nothing failed. -/
def noError : Code := ⟨0⟩

/-- An unexpected character, an invalid limit, or a jump out of the program. -/
def general : Code := ⟨1⟩

/-- Too many parts on one logical line. -/
def tooManyParts : Code := ⟨2⟩

/-- A string that its line does not close. -/
def unclosedString : Code := ⟨3⟩

/-- A block that the source does not close. -/
def unclosedBlock : Code := ⟨4⟩

/-- A command whose name is empty. -/
def emptyCommand : Code := ⟨5⟩

/-- A directive other than `?begin` and `?end`. -/
def unknownDirective : Code := ⟨7⟩

/-- The `language` command, which no run supports. -/
def languageCommand : Code := ⟨9⟩

/-- A command that no route accepts and no fallback takes. -/
def unknownCommand : Code := ⟨10⟩

/-- Storage that could not be had. The engine here never runs out of it. -/
def outOfStorage : Code := ⟨11⟩

/-- A deprecated command was run. -/
def deprecatedCommand : Code := ⟨12⟩

/-- The first code that a host may use for its own failures. -/
def firstHost : Code := ⟨100⟩

/-- Every named code, in numeric order. -/
def named : List Code :=
  [noError, general, tooManyParts, unclosedString, unclosedBlock, emptyCommand, unknownDirective,
    languageCommand, unknownCommand, outOfStorage, deprecatedCommand, firstHost]

/-- True for every code but 0. -/
def isError (code : Code) : Bool :=
  code.number != 0

/-- True for the codes of hosts. -/
def isHost (code : Code) : Bool :=
  firstHost.number ≤ code.number

/-- A host's code, or nothing for a number that the engine reserves. -/
def host? (number : UInt16) : Option Code :=
  if (Code.mk number).isHost then some ⟨number⟩ else none

/-- The written form, with leading zeros up to three digits. -/
def display (code : Code) : String :=
  let digits := Nat.toDigits 10 code.number.toNat
  "PL" ++ String.ofList (List.replicate (3 - digits.length) '0' ++ digits)

/-- Drops the letters in front of a written code. Only both in one case count. -/
def withoutLetters (text : String) : String :=
  match text.toList with
  | 'P' :: 'L' :: rest => String.ofList rest
  | 'p' :: 'l' :: rest => String.ofList rest
  | _ => text

/-- Reads a written code, as in `PL010` or `10`. -/
def ofString (text : String) : Except IntegerError Code :=
  (Integer.natural 65535 (withoutLetters text)).map fun n => ⟨UInt16.ofNat n⟩

/-- What a code means and what to do about it. The reserved numbers without a name have none. -/
def explanation? (code : Code) : Option String :=
  match code.number.toNat with
  | 0 => some "No error. A record with this code carries no payload."
  | 1 => some ("General hard error: an unexpected character in the source, an invalid parser "
      ++ "setting, or a handler that redirected control outside its program.")
  | 2 => some ("A logical line has more parts than the configured parts-per-line limit. Split the "
      ++ "line or raise the limit.")
  | 3 => some ("A quoted string was not closed by its matching quote before the end of the line. "
      ++ "Strings cannot span lines; use \\n for embedded newlines.")
  | 4 => some ("The input ended inside a ?begin block. Close the block with ?end at the start of a "
      ++ "line.")
  | 5 => some "A logical line starts with an empty quoted string as its command name."
  | 7 => some "A line starts with '?' followed by something other than begin or end."
  | 9 => some ("The language command is not supported: the language is chosen by the host before "
      ++ "the program runs.")
  | 10 => some ("No route of the active language matches the command name and the language has no "
      ++ "fallback handler.")
  | 11 => some "Storage for the program or the run could not be allocated."
  | 12 => some ("The command matched a route marked deprecated. It still runs, but may be removed "
      ++ "from the language later.")
  | _ => if code.isHost then some "Host-defined error reported by a command handler." else none

end Code

end CommandScript
