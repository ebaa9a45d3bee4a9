import CommandScript.Program.Basic

/-!
What is known of a run: the log kept while it is under way, and the summary or diagnostic it ends
with.
-/

namespace CommandScript

/-- Why a run that did not fail has ended. A handler that goes on behind the last command halts. -/
inductive HaltReason where
  | empty
  | abort
  | handler
deriving DecidableEq, Repr

namespace HaltReason

def label : HaltReason → String
  | .empty => "Empty"
  | .abort => "Abort"
  | .handler => "Handler"

end HaltReason

/-- The result of a run that did not fail: why it ended, how many times a handler was invoked, the
last command it reached, and a warning for each deprecated command it ran. The count has 64 bits,
and starts at zero again behind the largest of them. -/
structure Summary where
  halt : HaltReason
  invocations : UInt64
  last : Option CommandId
  warnings : List Diagnostic
deriving DecidableEq, Repr

/-- How a run ends: with a summary or with a diagnostic. -/
abbrev Outcome (π : Type := Unit) := Except (Diagnostic π) Summary

/-- What a run under way has done so far, the host's context apart. `warned` holds the commands that
have had their warning. -/
structure RunLog where
  warnings : List Diagnostic
  warned : List CommandId
  invocations : UInt64
  last : Option CommandId
deriving DecidableEq, Repr

namespace RunLog

def empty : RunLog :=
  ⟨[], [], 0, none⟩

/-- The log after reaching a command. -/
def reach (log : RunLog) (command : Command) : RunLog :=
  { log with last := some command.id }

/-- Warns of a deprecated command, once for each command. -/
def warn (log : RunLog) (command : Command) : RunLog :=
  if log.warned.contains command.id then log
  else
    let message := "command `" ++ command.name.lossy ++ "` is deprecated"
    { log with
      warnings := log.warnings ++ [.warning .deprecatedCommand command.pos message]
      warned := command.id :: log.warned }

/-- The log with one more invocation, of the handler of a command just reached. -/
def invoke (log : RunLog) (command : Command) (isDeprecated : Bool) : RunLog :=
  let log := if isDeprecated then (log.reach command).warn command else log.reach command
  { log with invocations := log.invocations + 1 }

def summary (log : RunLog) (halt : HaltReason) : Summary :=
  ⟨halt, log.invocations, log.last, log.warnings⟩

end RunLog

end CommandScript
