/-!
Arguments of the command line. Options for all tasks may stand before or behind the name of the
task; where both give one, the later place wins. Giving an option twice in one place is an error,
and so is anything that is not known. Arguments are read from left to right, and a request for the
version or for help is granted as soon as it is met.
-/

namespace CommandScript.CommandLine

/-- The form of reports: for people or for programs. -/
inductive OutputStyle where
  | pretty
  | json
deriving DecidableEq, Repr

namespace OutputStyle

def ofName? (name : String) : Option OutputStyle :=
  if name == "pretty" then some .pretty
  else if name == "json" then some .json
  else none

end OutputStyle

/-- The names of the tasks. -/
inductive TaskName where
  | parse
  | check
  | format
  | run
  | explain
deriving DecidableEq, Repr

namespace TaskName

def ofName? (name : String) : Option TaskName :=
  if name == "parse" then some .parse
  else if name == "check" then some .check
  else if name == "fmt" then some .format
  else if name == "run" then some .run
  else if name == "explain" then some .explain
  else none

end TaskName

/-- What formatting does with its result. -/
inductive FormatMode where
  | print
  | write
  | check
deriving DecidableEq, Repr

/-- A task with its own arguments. -/
inductive Task where
  | parse (file : String)
  | check (file : String)
  | format (file : String) (mode : FormatMode)
  | run (file : String) (strict : Bool)
  | explain (id : String)
deriving DecidableEq, Repr

/-- A whole command line. -/
structure Request where
  output : Option OutputStyle
  config : Option String
  task : Task
deriving DecidableEq, Repr

/-- Why there is no request: the arguments are wrong, or they only ask for help or the version. -/
inductive Stop where
  | usage
  | help
  | version
deriving DecidableEq, Repr

/-- An option without a value. -/
inductive Flag where
  | verbose
  | help
  | version
  | write
  | check
  | strict
deriving DecidableEq, Repr

namespace Flag

/-- The flag of a long name, at the start (no task) or behind the name of a task. -/
def ofName? (task : Option TaskName) (name : String) : Option Flag :=
  if name == "verbose" then some .verbose
  else if name == "help" then some .help
  else match task with
    | none => if name == "version" then some .version else none
    | some .format =>
      if name == "write" then some .write else if name == "check" then some .check else none
    | some .run => if name == "strict" then some .strict else none
    | some _ => none

/-- The flag of a letter. -/
def ofLetter? (task : Option TaskName) (letter : Char) : Option Flag :=
  if letter == 'v' then some .verbose
  else if letter == 'h' then some .help
  else match task with
    | none => if letter == 'V' then some .version else none
    | some .format => if letter == 'w' then some .write else none
    | some _ => none

end Flag

/-- What has been given in one place, at the start or behind the name of a task. -/
structure Given where
  output : Option OutputStyle := none
  config : Option String := none
  flags : List Flag := []
  operand : Option String := none
deriving DecidableEq, Repr

namespace Given

def setFlag (g : Given) : Flag → Except Stop Given
  | .help => .error .help
  | .version => .error .version
  | flag => if g.flags.contains flag then .error .usage else .ok { g with flags := flag :: g.flags }

def setFlags (task : Option TaskName) (g : Given) : List Char → Except Stop Given
  | [] => .ok g
  | letter :: rest =>
    match Flag.ofLetter? task letter with
    | none => .error .usage
    | some flag =>
      match g.setFlag flag with
      | .error stop => .error stop
      | .ok g => g.setFlags task rest

/-- True for the long names of options with a value. -/
def takesValue (name : String) : Bool :=
  name == "output" || name == "config"

def setValue (g : Given) (name value : String) : Except Stop Given :=
  if name == "output" then
    match g.output, OutputStyle.ofName? value with
    | none, some style => .ok { g with output := some style }
    | _, _ => .error .usage
  else
    match g.config with
    | none => .ok { g with config := some value }
    | some _ => .error .usage

/-- Takes an operand. There may be one, behind the name of a task. -/
def setOperand (task : Option TaskName) (g : Given) (operand : String) : Except Stop Given :=
  match task, g.operand with
  | some _, none => .ok { g with operand := some operand }
  | _, _ => .error .usage

end Given

/-- The form of one argument. A lone dash is plain. -/
inductive Form where
  | plain
  | endOfOptions
  | long (name : String) (value : Option String)
  | letters (letters : List Char)
deriving DecidableEq, Repr

namespace Form

/-- A long name, with the value behind its first equals sign. -/
def ofLong (cs : List Char) : Form :=
  .long (String.ofList (cs.takeWhile (· != '='))) (match cs.dropWhile (· != '=') with
    | [] => none
    | _ :: value => some (String.ofList value))

def ofArgument (argument : String) : Form :=
  match argument.toList with
  | ['-', '-'] => .endOfOptions
  | '-' :: '-' :: rest => ofLong rest
  | '-' :: letter :: rest => .letters (letter :: rest)
  | _ => .plain

end Form

/-- Arguments that are all operands. -/
def readOperands (task : Option TaskName) (g : Given) : List String → Except Stop Given
  | [] => .ok g
  | argument :: rest =>
    match g.setOperand task argument with
    | .error stop => .error stop
    | .ok g => readOperands task g rest

/-- What the arguments behind the word `help` make of it: help with everything, with one task or
with help itself. Anything else is an error, be it an option. -/
def helpStop : List String → Stop
  | [] => .help
  | [topic] => if topic == "help" || (TaskName.ofName? topic).isSome then .help else .usage
  | _ => .usage

/-- Reads the arguments of one place. At the start this ends at the name of a task, which is given
back with the arguments behind it. -/
def readPlace (task : Option TaskName) (g : Given) :
    List String → Except Stop (Given × Option (TaskName × List String))
  | [] => .ok (g, none)
  | argument :: rest =>
    match Form.ofArgument argument with
    | .endOfOptions => (readOperands task g rest).map fun g => (g, none)
    | .letters letters =>
      match g.setFlags task letters with
      | .error stop => .error stop
      | .ok g => readPlace task g rest
    | .long name value? =>
      if Given.takesValue name then
        match value?, rest with
        | some value, rest =>
          match g.setValue name value with
          | .error stop => .error stop
          | .ok g => readPlace task g rest
        | none, value :: rest =>
          if Form.ofArgument value == .plain then
            match g.setValue name value with
            | .error stop => .error stop
            | .ok g => readPlace task g rest
          else .error .usage
        | none, [] => .error .usage
      else
        match Flag.ofName? task name, value? with
        | some flag, none =>
          match g.setFlag flag with
          | .error stop => .error stop
          | .ok g => readPlace task g rest
        | _, _ => .error .usage
    | .plain =>
      match task, TaskName.ofName? argument with
      | none, some name => .ok (g, some (name, rest))
      | none, none => .error (if argument == "help" then helpStop rest else .usage)
      | some _, _ =>
        match g.setOperand task argument with
        | .error stop => .error stop
        | .ok g => readPlace task g rest

/-- The task of a name with what was given behind it. -/
def TaskName.task (name : TaskName) (g : Given) : Except Stop Task :=
  match name, g.operand with
  | _, none => .error .usage
  | .parse, some file => .ok (.parse file)
  | .check, some file => .ok (.check file)
  | .format, some file =>
    match g.flags.contains .write, g.flags.contains .check with
    | true, true => .error .usage
    | true, false => .ok (.format file .write)
    | false, true => .ok (.format file .check)
    | false, false => .ok (.format file .print)
  | .run, some file => .ok (.run file (g.flags.contains .strict))
  | .explain, some id => .ok (.explain id)

/-- The request of a command line. -/
def Request.ofArguments (arguments : List String) : Except Stop Request := do
  match ← readPlace none {} arguments with
  | (_, none) => throw .usage
  | (outer, some (name, rest)) =>
    let (inner, _) ← readPlace (some name) {} rest
    let task ← name.task inner
    return ⟨inner.output <|> outer.output, inner.config <|> outer.config, task⟩

end CommandScript.CommandLine
