import CommandScript.CommandLine.Arguments
import CommandScript.CommandLine.Report
import CommandScript.Program.Format
import CommandScript.Release

/-!
Tasks of the command line as functions of the files and the standard input. A task gives an exit
status, what it writes, and the files afterwards; only formatting with `--write` changes any.
-/

namespace CommandScript.CommandLine

/-- Files by name. -/
abbrev Files := List (String × Bytes)

namespace Files

/-- The parts of a file name between its slashes. -/
def parts : List Char → List (List Char)
  | [] => [[]]
  | '/' :: rest => [] :: parts rest
  | c :: rest =>
    match parts rest with
    | [] => [[c]]
    | part :: others => (c :: part) :: others

/-- Leaves out the parts that stay in the same directory. The last part is kept whatever it is,
since a name that ends in such a part is the name of a directory. -/
def steps : List (List Char) → List (List Char)
  | [] => []
  | [last] => [last]
  | part :: rest => if part = [] ∨ part = ['.'] then steps rest else part :: steps rest

/-- The way to a file. An absolute one begins with an empty step. -/
def path (name : String) : List (List Char) :=
  match name.toList with
  | '/' :: rest => [] :: steps (parts rest)
  | cs => steps (parts cs)

/-- True when two names are of the same file. Directories are not looked into, so a step up leads
back to no file. -/
def sameName (a b : String) : Bool :=
  path a == path b

def read? (files : Files) (name : String) : Option Bytes :=
  (files.find? fun file => sameName file.1 name).map (·.2)

/-- Replaces the content of a file, or adds the file. -/
def write (files : Files) (name : String) (content : Bytes) : Files :=
  if files.any fun file => sameName file.1 name then
    files.map fun file => if sameName file.1 name then (file.1, content) else file
  else files ++ [(name, content)]

end Files

/-- What a command line runs in: files, standard input, and whether a terminal shows the output. -/
structure Surroundings where
  files : Files
  input : Bytes
  isTerminal : Bool := false

/-- What a command line leaves: the exit status, standard output, the notices, and the files. -/
structure Result where
  status : Nat
  output : Bytes
  notices : List Notice
  files : Files

/-- What a task needs beside its own arguments. -/
structure Environment where
  surroundings : Surroundings
  settings : Settings
  style : OutputStyle

namespace Environment

/-- A result that leaves the files alone. -/
def result (env : Environment) (status : Nat) (output : Bytes) (notices : List Notice) : Result :=
  ⟨status, output, notices, env.surroundings.files⟩

/-- A failure outside the engine. -/
def trouble (env : Environment) (text : String) : Result :=
  env.result 1 [] [.trouble text]

/-- The content of a file, where a dash stands for standard input. -/
def source? (env : Environment) (file : String) : Option Bytes :=
  if file == "-" then some env.surroundings.input else env.surroundings.files.read? file

/-- The name in positions: the one in the settings, if they have one, else the file's own. -/
def displayName (env : Environment) (file : String) : String :=
  if env.settings.parse.fileName != unknownFile then env.settings.parse.fileName
  else if file == "-" then "<stdin>"
  else file

/-- Parses a source under the settings. -/
def parse (env : Environment) (file : String) (source : Bytes) : Except Diagnostic Program :=
  Program.parseWith { env.settings.parse with fileName := env.displayName file } source

/-- The exit status for some diagnostics. Only errors make it 1. -/
def statusOf (diagnostics : List Diagnostic) : Nat :=
  if diagnostics.any (·.severity == .error) then 1 else 0

/-- The result for a source that does not parse. -/
def parseFailure (env : Environment) (members : List (String × Json)) (d : Diagnostic) : Result :=
  match env.style with
  | .json => env.result 1 (sortedReport (failureJson members d)) []
  | .pretty => env.result 1 [] (findings [d])

/-- Goes on with the program in a file. -/
def withProgram (env : Environment) (file : String) (members : List (String × Json))
    (task : Bytes → Program → Result) : Result :=
  match env.source? file with
  | none => env.trouble ("reading " ++ file)
  | some source =>
    match env.parse file source with
    | .error d => env.parseFailure members d
    | .ok p => task source p

/-- Prints a program. -/
def parseTask (env : Environment) (file : String) : Result :=
  env.withProgram file [("program", .null)] fun _ p =>
    match env.style with
    | .json => env.result 0 (sortedReport (parsedJson p)) []
    | .pretty => env.result 0 (textLine p.dump) []

/-- The diagnostics that reading a source leaves. -/
def parseDiagnostics : Except Diagnostic Program → List Diagnostic
  | .ok _ => []
  | .error d => [d]

/-- Tells whether a source parses. As after a run, the diagnostics decide about the status. -/
def checkTask (env : Environment) (file : String) : Result :=
  match env.source? file with
  | none => env.trouble ("reading " ++ file)
  | some source =>
    let parsed := env.parse file source
    let commands := (parsed.toOption.map Program.size).getD 0
    let diagnostics := parseDiagnostics parsed
    match env.style with
    | .json => env.result (statusOf diagnostics) (sortedReport (checkJson commands diagnostics)) []
    | .pretty =>
      let verdict := "syntax ok (" ++ toString commands ++ " commands)"
      env.result (statusOf diagnostics) []
        (findings diagnostics ++ if diagnostics.isEmpty then [.line verdict] else [])

/-- Says what has become of a file. -/
def statusResult (env : Environment) (status : Nat) (message file : String) (files : Files) :
    Result :=
  match env.style with
  | .json => ⟨status, sortedReport (statusJson message file), [], files⟩
  | .pretty => ⟨status, [], [.line (message ++ ": " ++ file)], files⟩

/-- Formats a source, and prints it, writes it back or compares it. -/
def formatTask (env : Environment) (file : String) (mode : FormatMode) : Result :=
  let members := [("status", Json.string "parse error"), ("file", Json.string file)]
  env.withProgram file members fun source p =>
    let files := env.surroundings.files
    match mode with
    | .print => env.result 0 p.format []
    | .check =>
      if p.format = source then env.statusResult 0 "already formatted" file files
      else env.statusResult 1 "not formatted" file files
    | .write =>
      if p.format = source then env.statusResult 0 "already formatted" file files
      else env.statusResult 0 "formatted" file (files.write file p.format)

/-- The diagnostics that a run leaves. -/
def runDiagnostics : Outcome → List Diagnostic
  | .ok summary => summary.warnings
  | .error d => [d]

/-- Runs a source in the demo language. -/
def runTask (env : Environment) (file : String) (strict : Bool) : Result :=
  let members := [("output", Json.array []), ("halt", .null), ("invocations", .null),
    ("skipped", .number 0)]
  env.withProgram file members fun _ p =>
    match Demo.run? strict env.settings.run p with
    | none => env.trouble "the run has no end"
    | some (outcome, session) =>
      let diagnostics := runDiagnostics outcome
      match env.style with
      | .json => env.result (statusOf diagnostics) (textLine (runJson outcome session).pretty) []
      | .pretty =>
        env.result (statusOf diagnostics) (session.output.toList.flatMap textLine)
          (findings diagnostics)

/-- Explains a code. -/
def explainTask (env : Environment) (id : String) : Result :=
  let explanation := (Code.ofString id).toOption.bind Code.explanation?
  match env.style, explanation with
  | .json, _ => env.result 0 (sortedReport (explanationJson id explanation)) []
  | .pretty, some text => env.result 0 (textLine (Colour.cyan.paint id ++ ": " ++ text)) []
  | .pretty, none => env.result 0 (textLine (id ++ ": (no explanation available)")) []

def run (env : Environment) : Task → Result
  | .parse file => env.parseTask file
  | .check file => env.checkTask file
  | .format file mode => env.formatTask file mode
  | .run file strict => env.runTask file strict
  | .explain id => env.explainTask id

end Environment

/-- The settings in a file, or the default ones where no file is named. -/
def loadSettings (files : Files) : Option String → Option Settings
  | none => some {}
  | some name =>
    ((files.read? name).bind Utf8.decode?).bind fun text => (Settings.ofJson text).toOption

/-- Carries a request out. The settings are loaded first. -/
def Request.run (r : Request) (surroundings : Surroundings) : Result :=
  match loadSettings surroundings.files r.config with
  | none => ⟨1, [], [.trouble ("loading config from " ++ r.config.getD "")], surroundings.files⟩
  | some settings =>
    let style := r.output.getD (if surroundings.isTerminal then .pretty else .json)
    Environment.run ⟨surroundings, settings, style⟩ r.task

/-- The name and the release of the program. -/
def versionLine : String :=
  "pl2b " ++ Release.number

/-- How to call the program. -/
def usageLine : String :=
  "Usage: pl2b [--output pretty|json] [--config FILE] [--verbose] parse|check|fmt|run|explain ARG"

/-- Runs a command line. -/
def execute (arguments : List String) (surroundings : Surroundings) : Result :=
  match Request.ofArguments arguments with
  | .ok request => request.run surroundings
  | .error .version => ⟨0, textLine versionLine, [], surroundings.files⟩
  | .error .help => ⟨0, textLine usageLine, [], surroundings.files⟩
  | .error .usage => ⟨2, [], [.line usageLine], surroundings.files⟩

end CommandScript.CommandLine
