import CommandScript.Diagnostic.Position
import CommandScript.Json.Reader
import CommandScript.Json.Value

/-!
Settings of parsing and running, and their JSON form. Whatever a text leaves out keeps its default;
members that no setting has are skipped.
-/

namespace CommandScript

/-- Settings of parsing: the file name in positions, the number of parts a logical line may have,
and the bytes a message may have. -/
structure ParseSettings where
  fileName : String := unknownFile
  partsPerLine : Nat := 512
  messageCapacity : Nat := 512
deriving DecidableEq, Repr

/-- Settings of running: the bytes a message may have. -/
structure RunSettings where
  messageCapacity : Nat := 512
deriving DecidableEq, Repr

/-- All settings. -/
structure Settings where
  parse : ParseSettings := {}
  run : RunSettings := {}
deriving DecidableEq, Repr

namespace ParseSettings

def forFile (fileName : String) : ParseSettings :=
  { fileName }

def toJson (settings : ParseSettings) : Json :=
  .object [("file_name", .string settings.fileName),
    ("parts_per_line", .number settings.partsPerLine),
    ("message_capacity", .number settings.messageCapacity)]

/-- The settings that a text has given so far. -/
structure Draft where
  fileName : Option String
  partsPerLine : Option Nat
  messageCapacity : Option Nat

def Draft.empty : Draft := ⟨none, none, none⟩

def Draft.fields : List (Json.Field Draft) :=
  [⟨"file_name", (·.fileName.isSome), Json.readText.map fun s d => { d with fileName := some s }⟩,
    ⟨"parts_per_line", (·.partsPerLine.isSome),
      (Json.readNatural Json.largestWord).map fun n d => { d with partsPerLine := some n }⟩,
    ⟨"message_capacity", (·.messageCapacity.isSome),
      (Json.readNatural Json.largestWord).map fun n d => { d with messageCapacity := some n }⟩]

def Draft.finish (d : Draft) : ParseSettings :=
  let default : ParseSettings := {}
  ⟨d.fileName.getD default.fileName, d.partsPerLine.getD default.partsPerLine,
    d.messageCapacity.getD default.messageCapacity⟩

def reader : Json.Reader ParseSettings :=
  (Json.readRecord Draft.fields Draft.empty).map Draft.finish

end ParseSettings

namespace RunSettings

def toJson (settings : RunSettings) : Json :=
  .object [("message_capacity", .number settings.messageCapacity)]

/-- The settings that a text has given so far. -/
structure Draft where
  messageCapacity : Option Nat

def Draft.fields : List (Json.Field Draft) :=
  [⟨"message_capacity", (·.messageCapacity.isSome),
    (Json.readNatural Json.largestWord).map fun n _ => ⟨some n⟩⟩]

def Draft.finish (d : Draft) : RunSettings :=
  ⟨d.messageCapacity.getD ({} : RunSettings).messageCapacity⟩

def reader : Json.Reader RunSettings :=
  (Json.readRecord Draft.fields ⟨none⟩).map Draft.finish

end RunSettings

/-- Why settings cannot be used: their text is at fault, or one of the values is. -/
inductive SettingsError where
  | json (error : Json.ReadError)
  | noParts
  | noFileName
deriving DecidableEq, Repr

namespace SettingsError

/-- The text of an error in a value. -/
def message? : SettingsError → Option String
  | .json _ => none
  | .noParts => some "invalid parse.parts_per_line: must be at least 1"
  | .noFileName => some "invalid parse.file_name: must not be empty"

end SettingsError

namespace Settings

def toJson (settings : Settings) : Json :=
  .object [("parse", settings.parse.toJson), ("run", settings.run.toJson)]

/-- The sections that a text has given so far. -/
structure Draft where
  parse : Option ParseSettings
  run : Option RunSettings

def Draft.fields : List (Json.Field Draft) :=
  [⟨"parse", (·.parse.isSome), ParseSettings.reader.map fun p d => { d with parse := some p }⟩,
    ⟨"run", (·.run.isSome), RunSettings.reader.map fun r d => { d with run := some r }⟩]

def Draft.finish (d : Draft) : Settings :=
  ⟨d.parse.getD {}, d.run.getD {}⟩

def reader : Json.Reader Settings :=
  (Json.readRecord Draft.fields ⟨none, none⟩).map Draft.finish

/-- Refuses a limit of no parts first and an empty file name second. -/
def validate (settings : Settings) : Except SettingsError Settings :=
  if settings.parse.partsPerLine = 0 then .error .noParts
  else if settings.parse.fileName = "" then .error .noFileName
  else .ok settings

/-- Reads and checks settings. -/
def ofJson (text : String) : Except SettingsError Settings :=
  match Json.read reader text with
  | .error e => .error (.json e)
  | .ok settings => settings.validate

end Settings

end CommandScript
