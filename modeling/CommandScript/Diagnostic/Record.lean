import CommandScript.Diagnostic.Code
import CommandScript.Diagnostic.Position
import CommandScript.Text.Clip
import CommandScript.Text.Shown

/-!
The diagnostic record: a code, a severity, a position, a message bounded by the record's capacity,
and data a host may attach. A report replaces everything but the capacity, so nothing of an earlier
report shows afterwards, and a record without an error carries no payload.
-/

namespace CommandScript

/-- How serious a diagnostic is. -/
inductive Severity where
  | error
  | warning
  | info
deriving DecidableEq, Repr

namespace Severity

/-- The written form of a severity. -/
def label : Severity → String
  | .error => "error"
  | .warning => "warn"
  | .info => "info"

/-- The name of a severity in a record's debugging text. -/
def name : Severity → String
  | .error => "Error"
  | .warning => "Warn"
  | .info => "Info"

/-- The severity written in this way. -/
def ofLabel? (text : String) : Option Severity :=
  [Severity.error, .warning, .info].find? fun s => s.label == text

/-- The severity a report takes from its code. -/
def ofCode (code : Code) : Severity :=
  if code.isError then .error else .info

end Severity

/-- The capacity of a record that bounds no message. -/
def unbounded : Nat := UInt64.size - 1

/-- A diagnostic. What a host attaches to it is of a type of the host's own, and is only carried
along. The library itself attaches nothing. -/
structure Diagnostic (π : Type := Unit) where
  code : Code
  severity : Severity
  pos : Position
  message : String
  capacity : Nat
  payload : Option π
deriving DecidableEq, Repr

namespace Diagnostic

variable {π : Type}

/-- A record that reports nothing and bounds its messages. -/
def withCapacity (capacity : Nat) : Diagnostic π :=
  ⟨.noError, .info, .unknown, "", capacity, none⟩

/-- A record whose message is not bounded. -/
def make (code : Code) (severity : Severity) (pos : Position) (message : String) : Diagnostic π :=
  ⟨code, severity, pos, message, unbounded, none⟩

def error (code : Code) (pos : Position) (message : String) : Diagnostic π :=
  make code .error pos message

def warning (code : Code) (pos : Position) (message : String) : Diagnostic π :=
  make code .warning pos message

def info (code : Code) (pos : Position) (message : String) : Diagnostic π :=
  make code .info pos message

/-- True when the record reports an error, whatever its severity. -/
def isError (d : Diagnostic π) : Bool :=
  d.code.isError

/-- Attaches data. A record without an error takes none. -/
def withPayload (d : Diagnostic π) (payload : π) : Diagnostic π :=
  if d.isError then { d with payload := some payload } else d

/-- Overwrites the record. The message comes in pieces that are written one by one. -/
def reportWith (d : Diagnostic π) (code : Code) (pos : Position) (payload : Option π)
    (pieces : List String) : Diagnostic π where
  code := code
  severity := .ofCode code
  pos := pos
  message := BoundedText.ofPieces d.capacity pieces
  capacity := d.capacity
  payload := if code.isError then payload else none

/-- Overwrites the record and drops the earlier payload. -/
def report (d : Diagnostic π) (code : Code) (pos : Position) (pieces : List String) :
    Diagnostic π :=
  d.reportWith code pos none pieces

/-- Takes over another record, under this record's capacity. -/
def absorb (d other : Diagnostic π) : Diagnostic π :=
  let taken := d.reportWith other.code other.pos other.payload [other.message]
  if taken.isError then { taken with severity := other.severity } else taken

/-- Back to reporting nothing. -/
def clear (d : Diagnostic π) : Diagnostic π :=
  withCapacity d.capacity

/-- The record without its payload. -/
def withoutPayload (d : Diagnostic π) : Diagnostic π :=
  { d with payload := none }

/-- Agreement in code, severity, position and message. Capacity and payload do not count. -/
def Agrees (d other : Diagnostic π) : Prop :=
  d.code = other.code ∧ d.severity = other.severity ∧ d.pos = other.pos ∧ d.message = other.message

instance (d other : Diagnostic π) : Decidable (d.Agrees other) :=
  inferInstanceAs (Decidable (_ ∧ _ ∧ _ ∧ _))

/-- What the record's code means. -/
def explanation? (d : Diagnostic π) : Option String :=
  d.code.explanation?

/-- The one-line form: severity, code, position and message. -/
def display (d : Diagnostic π) : String :=
  d.severity.label ++ "[" ++ d.code.display ++ "] " ++ d.pos.display ++ ": " ++ d.message

/-- The debugging text, which names each field and only tells whether there is a payload. -/
def debugText (d : Diagnostic π) : String :=
  "Diagnostic \x7b code: ErrorCode(" ++ toString d.code.number.toNat ++ "), severity: "
    ++ d.severity.name ++ ", pos: SourcePos \x7b file: " ++ Shown.string d.pos.file ++ ", line: "
    ++ toString d.pos.line.toNat ++ " \x7d, message: " ++ Shown.string d.message ++ ", payload: "
    ++ (if d.payload.isSome then "true" else "false") ++ " \x7d"

end Diagnostic

end CommandScript
