import CommandScript.Run.Step

/-!
A small language to try programs with. `echo` prints its arguments, `say` is an old name for it, and
`repeat N` runs the command before it `N` more times. Each `repeat` counts down on its own and
starts afresh when control comes back to it after its last jump, so loops nest.
-/

namespace CommandScript.Demo

/-- What a run of the language has done: the lines it printed, the jumps left to the `repeat`
commands under way, and the number of commands it skipped, in 64 bits. -/
structure Session where
  output : Array String
  loops : List (CommandId × Nat)
  skipped : UInt64
deriving DecidableEq, Repr

namespace Session

def empty : Session :=
  ⟨#[], [], 0⟩

/-- The jumps left to a command under way. -/
def remaining? (s : Session) (id : CommandId) : Option Nat :=
  s.loops.lookup id

/-- Forgets a command's count. -/
def disarm (s : Session) (id : CommandId) : Session :=
  { s with loops := s.loops.filter (·.1 != id) }

/-- Sets a command's count. -/
def arm (s : Session) (id : CommandId) (count : Nat) : Session :=
  { s.disarm id with loops := (id, count) :: (s.disarm id).loops }

def print (s : Session) (line : String) : Session :=
  { s with output := s.output.push line }

end Session

/-- The line that `echo` prints. -/
def echoText (args : List Part) : String :=
  String.intercalate " " (args.map Part.lossy)

def echo : Handler Session := fun p s command =>
  (.next p command, s.print (echoText command.args))

/-- The count of a `repeat` command, its only argument. -/
def count? : List Part → Option Nat
  | [arg] => arg.text?.bind fun text => (Integer.natural (UInt64.size - 1) text).toOption
  | _ => none

def repeatPrevious : Handler Session := fun p s command =>
  match count? command.args with
  | none => (.failAt .firstHost command "repeat expects exactly one count", s)
  | some count =>
    match p.prev? command.id with
    | none => (.failAt .firstHost command "repeat has no command to repeat", s)
    | some target =>
      match (s.remaining? command.id).getD count with
      | 0 => (.next p command, s.disarm command.id)
      | left + 1 => (.proceed target, s.arm command.id left)

/-- Passes over a command. -/
def skip : Handler Session := fun p s command =>
  (.next p command, { s with skipped := s.skipped + 1 })

/-- The language. A strict one has no fallback, so it fails on commands it does not know. -/
def language (strict : Bool) : Language Session where
  name := "demo"
  info := some "echo, repeat, and the deprecated say"
  routes := [.exact "echo" echo, (Route.exact "say" echo).deprecated,
    .exact "repeat" repeatPrevious]
  fallback := if strict then none else some skip

/-- The invocations it takes to get past a line for good, where the line before it takes `previous`
of them. -/
def cost (previous : Nat) (line : Line) : Nat :=
  if line.name.text == Bytes.ofString "repeat" then
    1 + (count? line.args).getD 0 * (previous + 1)
  else 1

/-- The invocations it takes to get past each line in turn. -/
def costs : Nat → List Line → List Nat
  | _, [] => []
  | previous, line :: rest => cost previous line :: costs (cost previous line) rest

/-- Enough steps for any run of a program: one for each invocation and one to end. -/
def stepBound (p : Program) : Nat :=
  (costs 0 p.lines).foldr (· + ·) 1

/-- Runs a program. -/
def run? (strict : Bool) (settings : RunSettings) (p : Program) : Option (Outcome × Session) :=
  Engine.run? ⟨language strict, settings⟩ (stepBound p) p .empty

end CommandScript.Demo
