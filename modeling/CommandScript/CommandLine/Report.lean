import CommandScript.Demo
import CommandScript.Program.Json

/-!
What the command line says. For programs it prints JSON, mostly with sorted members; for people it
writes notices to standard error, with a finding for each diagnostic and a coloured count at the
end.
-/

namespace CommandScript.CommandLine

/-- Something written to standard error: a failure outside the engine, a finding of the engine with
its explanation, or a plain line. -/
inductive Notice where
  | trouble (text : String)
  | finding (header : String) (help : Option String)
  | line (text : String)
deriving DecidableEq, Repr

namespace Notice

/-- The text of a notice. -/
def text : Notice → String
  | .trouble text => "Error: " ++ text
  | .finding header none => header
  | .finding header (some help) => header ++ "\nHelp: " ++ help
  | .line text => text

end Notice

/-- Terminal colours by their codes. -/
inductive Colour where
  | red
  | yellow
  | blue
  | cyan
deriving DecidableEq, Repr

namespace Colour

def code : Colour → String
  | .red => "31"
  | .yellow => "33"
  | .blue => "34"
  | .cyan => "36"

/-- A text in a colour. -/
def paint (colour : Colour) (text : String) : String :=
  "\x1b[" ++ colour.code ++ "m" ++ text ++ "\x1b[0m"

end Colour

/-- The kind of a finding. -/
def kindName : Severity → String
  | .error => "Error"
  | .warning => "Warning"
  | .info => "Advice"

/-- The finding for a diagnostic. -/
def finding (d : Diagnostic) : Notice :=
  .finding ("[" ++ d.code.display ++ "] " ++ kindName d.severity ++ ": " ++ d.message)
    d.explanation?

/-- The number of diagnostics of a severity. -/
def countOf (severity : Severity) (diagnostics : List Diagnostic) : Nat :=
  diagnostics.countP (·.severity == severity)

/-- A count of things in words, painted, or nothing for none. -/
def countText (colour : Colour) (count : Nat) (one many : String) : List String :=
  if count = 0 then []
  else [colour.paint (toString count ++ " " ++ (if count = 1 then one else many))]

/-- How many errors, warnings and notes there are, or nothing where there are none. -/
def countLine (diagnostics : List Diagnostic) : List Notice :=
  let texts := countText .red (countOf .error diagnostics) "error" "errors"
    ++ countText .yellow (countOf .warning diagnostics) "warning" "warnings"
    ++ countText .blue (countOf .info diagnostics) "info" "info"
  if texts.isEmpty then [] else [.line (String.intercalate ", " texts)]

/-- The findings for diagnostics, and their count. -/
def findings (diagnostics : List Diagnostic) : List Notice :=
  diagnostics.map finding ++ countLine diagnostics

/-- A list of diagnostics as JSON. -/
def diagnosticsJson (diagnostics : List Diagnostic) : Json :=
  .array (diagnostics.map Diagnostic.toJson)

/-- A report for a program that parsed. -/
def parsedJson (p : Program) : Json :=
  .object [("ok", .bool true), ("program", p.toJson), ("diagnostics", .array [])]

/-- A report for a check, given the number of commands. -/
def checkJson (commands : Nat) (diagnostics : List Diagnostic) : Json :=
  .object [("ok", .bool diagnostics.isEmpty), ("commands", .number commands),
    ("diagnostics", diagnosticsJson diagnostics)]

/-- A report for formatting a file. -/
def statusJson (status file : String) : Json :=
  .object [("status", .string status), ("file", .string file)]

/-- A report for a run. -/
def runJson (outcome : Outcome) (session : Demo.Session) : Json :=
  let output := ("output", .array (session.output.toList.map Json.string))
  match outcome with
  | .ok summary =>
    .object [("ok", .bool true), output, ("halt", .string summary.halt.label),
      ("invocations", .number summary.invocations.toNat),
      ("skipped", .number session.skipped.toNat),
      ("diagnostics", diagnosticsJson summary.warnings)]
  | .error d =>
    .object [("ok", .bool false), output, ("halt", .null), ("invocations", .null),
      ("skipped", .number session.skipped.toNat), ("diagnostics", diagnosticsJson [d])]

/-- A report for a source that does not parse, with the members a task adds. -/
def failureJson (members : List (String × Json)) (d : Diagnostic) : Json :=
  .object (members ++ [("ok", .bool false), ("diagnostics", diagnosticsJson [d])])

/-- A report for an explanation. -/
def explanationJson (id : String) (explanation : Option String) : Json :=
  .object [("id", .string id), ("explanation", Json.ofText? explanation)]

/-- A text with a line feed as output. -/
def textLine (text : String) : Bytes :=
  Bytes.ofString text ++ [Byte.lineFeed]

/-- A report for programs with its members sorted. -/
def sortedReport (json : Json) : Bytes :=
  textLine json.sorted.pretty

end CommandScript.CommandLine
