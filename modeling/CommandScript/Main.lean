import CommandScript.CommandLine.Execution

/-!
The program itself: gathers the files a command line names and standard input, runs the command line
over them, and carries out what it says.
-/

namespace CommandScript

/-- The content of a file, if it can be read. -/
def readFile? (name : String) : IO (Option Bytes) := do
  try
    let content ← IO.FS.readBinFile name
    return some content.data.toList
  catch _ => return none

/-- The names that a request reads. -/
def CommandLine.Request.fileNames (r : CommandLine.Request) : List String :=
  let operand := match r.task with
    | .parse file => [file]
    | .check file => [file]
    | .format file _ => [file]
    | .run file _ => [file]
    | .explain _ => []
  r.config.toList ++ operand

def gatherFiles (names : List String) : IO CommandLine.Files :=
  names.filterMapM fun name => do
    let content? ← readFile? name
    return content?.map (name, ·)

/-- Writes the files that differ from what they were. -/
def writeChanges (before after : CommandLine.Files) : IO Unit := do
  for (name, content) in after do
    unless before.contains (name, content) do
      IO.FS.writeBinFile name ⟨content.toArray⟩

/-- Runs a command line on the files and streams of this process. -/
def runProcess (arguments : List String) : IO UInt32 := do
  let request? := (CommandLine.Request.ofArguments arguments).toOption
  let names := (request?.map (·.fileNames)).getD []
  let files ← gatherFiles names
  let stdin ← IO.getStdin
  let stdout ← IO.getStdout
  let input ← if names.contains "-" then stdin.readBinToEnd else pure ByteArray.empty
  let result := CommandLine.execute arguments ⟨files, input.data.toList, ← stdout.isTty⟩
  stdout.write ⟨result.output.toArray⟩
  stdout.flush
  for notice in result.notices do
    IO.eprintln notice.text
  writeChanges files result.files
  return UInt32.ofNat result.status

end CommandScript

def main (arguments : List String) : IO UInt32 :=
  CommandScript.runProcess arguments
