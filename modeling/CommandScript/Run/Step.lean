import CommandScript.Language
import CommandScript.Run.Log
import CommandScript.Settings

/-!
Running a program. A run starts at the first command and goes where handlers send it. What a place
of the program means for a run does not depend on the run so far; one step of a run looks that up,
acts on it, and either goes on at another place or ends. A run need not end, so it is given a number
of steps and has no result when they do not suffice.
-/

namespace CommandScript

/-- The name of the command that ends a run. -/
def abortName : Bytes := Bytes.ofString "abort"

/-- The name of the command that no run supports. -/
def languageName : Bytes := Bytes.ofString "language"

/-- What a place means for a run. -/
inductive Visit (σ : Type) (π : Type := Unit) where
  | outside
  | abort (command : Command)
  | switch (command : Command)
  | unknown (command : Command)
  | invoke (command : Command) (handler : Handler σ π) (isDeprecated : Bool)

/-- One step of a run: on to another place, or the end. -/
inductive RunStep (σ : Type) (π : Type := Unit) where
  | goOn (next : CommandId) (log : RunLog) (context : σ)
  | ended (outcome : Outcome π) (context : σ)

/-- A language with the settings of its runs. -/
structure Engine (σ : Type) (π : Type := Unit) where
  language : Language σ π
  settings : RunSettings := {}

namespace Engine

variable {σ π : Type}

/-- What a place of a program means. The two reserved names come before any route. -/
def visit (engine : Engine σ π) (p : Program) (id : CommandId) : Visit σ π :=
  match p.get? id with
  | none => .outside
  | some command =>
    if command.name.text == abortName then .abort command
    else if command.name.text == languageName then .switch command
    else
      match engine.language.handlerFor? command.name with
      | none => .unknown command
      | some (handler, isDeprecated) => .invoke command handler isDeprecated

/-- A report under the capacity that the settings give. -/
def report (engine : Engine σ π) (code : Code) (pos : Position) (pieces : List String) :
    Diagnostic π :=
  (Diagnostic.withCapacity engine.settings.messageCapacity).report code pos pieces

/-- The failure of a run whose handler failed. A handler that gives no code gets one. -/
def failure (engine : Engine σ π) (command : Command) (d : Diagnostic π) : Diagnostic π :=
  if d.isError then (Diagnostic.withCapacity engine.settings.messageCapacity).absorb d
  else engine.report .general command.pos
    ["handler for `", command.name.lossy, "` failed without an error code: ", d.message]

/-- The position of the last command reached. -/
def lastPosition (p : Program) (log : RunLog) : Position :=
  match log.last.bind p.get? with
  | some command => command.pos
  | none => .unknown

/-- The failure of a run that was sent out of its program. -/
def outsideReport (engine : Engine σ π) (p : Program) (log : RunLog) (id : CommandId) :
    Diagnostic π :=
  engine.report .general (lastPosition p log)
    ["handler redirected to command ", CommandId.display id, ", outside the program"]

/-- The failure of a run that meets the `language` command. -/
def switchReport (engine : Engine σ π) (command : Command) : Diagnostic π :=
  engine.report .languageCommand command.pos
    ["the `language` command is not supported; `", engine.language.name,
      "` is bound for the whole run"]

/-- The failure of a run that meets a command without a handler. -/
def unknownReport (engine : Engine σ π) (command : Command) : Diagnostic π :=
  engine.report .unknownCommand command.pos ["unknown command `", command.name.lossy, "`"]

/-- How a run goes on after the handler of a command. -/
def follow (engine : Engine σ π) (command : Command) (log : RunLog) : Flow π × σ → RunStep σ π
  | (.proceed next, context) => .goOn next log context
  | (.halt, context) => .ended (.ok (log.summary .handler)) context
  | (.fail d, context) => .ended (.error (engine.failure command d)) context

/-- One step of a run. -/
def step (engine : Engine σ π) (p : Program) (id : CommandId) (log : RunLog) (context : σ) :
    RunStep σ π :=
  match engine.visit p id with
  | .outside => .ended (.error (engine.outsideReport p log id)) context
  | .abort command => .ended (.ok ((log.reach command).summary .abort)) context
  | .switch command => .ended (.error (engine.switchReport command)) context
  | .unknown command => .ended (.error (engine.unknownReport command)) context
  | .invoke command handler isDeprecated =>
    engine.follow command (log.invoke command isDeprecated) (handler p context command)

/-- Runs on from a place for at most so many steps. -/
def runFrom? (engine : Engine σ π) (p : Program) :
    (steps : Nat) → CommandId → RunLog → σ → Option (Outcome π × σ)
  | 0, _, _, _ => none
  | steps + 1, id, log, context =>
    match engine.step p id log context with
    | .ended outcome context => some (outcome, context)
    | .goOn next log context => engine.runFrom? p steps next log context

/-- Runs a program from its first command for at most so many steps. -/
def run? (engine : Engine σ π) (steps : Nat) (p : Program) (context : σ) : Option (Outcome π × σ) :=
  match p.head? with
  | none => some (.ok (RunLog.empty.summary .empty), context)
  | some id => engine.runFrom? p steps id .empty context

end Engine

end CommandScript
