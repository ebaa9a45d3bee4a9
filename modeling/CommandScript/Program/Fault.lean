import CommandScript.Program.Basic
import CommandScript.Settings
import CommandScript.Source.Token

/-!
Faults: what can be wrong with a source, where, and in which words it is reported. A report is
bounded by the capacity that the settings give.
-/

namespace CommandScript

/-- Why a source is no program, with the line to report. -/
inductive Fault where
  | noParts
  | unclosedString (line : UInt32)
  | unexpectedByte (byte : UInt8) (line : UInt32)
  | unknownDirective (name : Bytes) (line : UInt32)
  | tooManyParts (limit : Nat) (line : UInt32)
  | emptyName (line : UInt32)
  | unclosedBlock (line : UInt32)
deriving DecidableEq, Repr

namespace Fault

def code : Fault → Code
  | .noParts => .general
  | .unclosedString _ => .unclosedString
  | .unexpectedByte _ _ => .general
  | .unknownDirective _ _ => .unknownDirective
  | .tooManyParts _ _ => .tooManyParts
  | .emptyName _ => .emptyCommand
  | .unclosedBlock _ => .unclosedBlock

def line : Fault → UInt32
  | .noParts => 0
  | .unclosedString line => line
  | .unexpectedByte _ line => line
  | .unknownDirective _ line => line
  | .tooManyParts _ line => line
  | .emptyName line => line
  | .unclosedBlock line => line

/-- The pieces of the message. -/
def message : Fault → List String
  | .noParts => ["parts per line must be at least 1"]
  | .unclosedString _ => ["unclosed quoted string"]
  | .unexpectedByte byte _ => ["unexpected character ", Shown.char (Char.ofNat byte.toNat)]
  | .unknownDirective name _ => ["unknown directive `?", Utf8.lossy name, "`"]
  | .tooManyParts limit _ =>
    ["parse buffer exceeded: more than ", toString limit, " parts on one line"]
  | .emptyName _ => ["command name is empty"]
  | .unclosedBlock _ => ["unclosed `?begin` block"]

/-- The diagnostic for a source that was read under some settings. -/
def diagnostic (fault : Fault) (settings : ParseSettings) : Diagnostic :=
  (Diagnostic.withCapacity settings.messageCapacity).report fault.code
    ⟨settings.fileName, fault.line⟩ fault.message

/-- The fault behind an error of lexing. -/
def ofLexError (error : LexError) : Fault :=
  match error.kind with
  | .unclosedString => .unclosedString error.line
  | .unexpectedByte byte => .unexpectedByte byte error.line

end Fault

end CommandScript
