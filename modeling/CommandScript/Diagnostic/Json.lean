import CommandScript.Diagnostic.Record
import CommandScript.Json.Reader
import CommandScript.Json.Value

/-!
Diagnostics as JSON. The text holds code, severity, position and message, in this order; capacity
and payload stay out of it, so a record read back is unbounded and carries nothing.
-/

namespace CommandScript

namespace Position

def toJson (pos : Position) : Json :=
  .object [("file", .string pos.file), ("line", .number pos.line.toNat)]

/-- A position of which not all fields have been read. -/
structure Draft where
  file : Option String
  line : Option Nat

namespace Draft

def fields : List (Json.Field Draft) :=
  [⟨"file", (·.file.isSome), Json.readText.map fun s d => { d with file := some s }⟩,
    ⟨"line", (·.line.isSome),
      (Json.readNatural (UInt32.size - 1)).map fun n d => { d with line := some n }⟩]

def finish (d : Draft) : Except Json.ReadError Position :=
  match d.file, d.line with
  | some file, some line => .ok ⟨file, UInt32.ofNat line⟩
  | _, _ => .error .mismatched

end Draft

def reader : Json.Reader Position :=
  (Json.readRecord Draft.fields ⟨none, none⟩).check Draft.finish

end Position

namespace Diagnostic

variable {π : Type}

def toJson (d : Diagnostic π) : Json :=
  .object [("code", .number d.code.number.toNat), ("severity", .string d.severity.label),
    ("pos", d.pos.toJson), ("message", .string d.message)]

/-- A diagnostic of which not all fields have been read. -/
structure Draft where
  code : Option Nat
  severity : Option Severity
  pos : Option Position
  message : Option String

namespace Draft

def empty : Draft := ⟨none, none, none, none⟩

def fields : List (Json.Field Draft) :=
  [⟨"code", (·.code.isSome), (Json.readNatural 65535).map fun n d => { d with code := some n }⟩,
    ⟨"severity", (·.severity.isSome),
      (Json.readName Severity.ofLabel?).map fun s d => { d with severity := some s }⟩,
    ⟨"pos", (·.pos.isSome), Position.reader.map fun p d => { d with pos := some p }⟩,
    ⟨"message", (·.message.isSome), Json.readText.map fun s d => { d with message := some s }⟩]

/-- The record, once every field has been read. -/
def finish (d : Draft) : Except Json.ReadError (Diagnostic π) :=
  match d.code, d.severity, d.pos, d.message with
  | some code, some severity, some pos, some message =>
    .ok (.make ⟨UInt16.ofNat code⟩ severity pos message)
  | _, _, _, _ => .error .mismatched

end Draft

def reader : Json.Reader (Diagnostic π) :=
  (Json.readRecord Draft.fields Draft.empty).check Draft.finish

/-- Reads a record from JSON text. Every field has to be there. -/
def ofJson (text : String) : Except Json.ReadError (Diagnostic π) :=
  Json.read reader text

end Diagnostic

end CommandScript
