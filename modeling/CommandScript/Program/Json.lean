import CommandScript.Diagnostic.Json
import CommandScript.Program.Basic

/-!
Programs as JSON. Texts are shown with replacement characters for what is not UTF-8.
-/

namespace CommandScript

def Part.toJson (part : Part) : Json :=
  .object [("text", .string part.lossy), ("quoted", .bool part.quoted)]

def Command.toJson (command : Command) : Json :=
  .object [("id", .number command.id), ("pos", command.pos.toJson), ("name", command.name.toJson),
    ("args", .array (command.args.map Part.toJson))]

namespace Program

def toJson (p : Program) : Json :=
  .object [("commands", .array (p.commands.map Command.toJson))]

/-- The JSON text of a program over several lines. -/
def dump (p : Program) : String :=
  p.toJson.pretty

end Program

end CommandScript
