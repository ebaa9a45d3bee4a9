import CommandScript.Program.Grouping

/-!
The canonical text of a program: one command to a line and one space between parts. Comments and
blocks are gone. A part is written bare when it is an unquoted word and as a string otherwise.
-/

namespace CommandScript

/-- True for bytes that read back as exactly one word. -/
def isBareWord (bytes : Bytes) : Bool :=
  match bytes with
  | [] => false
  | first :: _ => !Byte.isQuote first && bytes.all Byte.isWord

/-- The text of a part. -/
def Part.format (part : Part) : Bytes :=
  if !part.quoted && isBareWord part.text then part.text else Escape.quoted part.text

namespace Line

/-- A space in front of a bare name that would be taken for a directive. -/
def indent (line : Line) : Bytes :=
  if !line.name.quoted && line.name.text.head? == some Byte.questionMark then [Byte.space] else []

/-- The text of a line with its line feed. -/
def format (line : Line) : Bytes :=
  line.indent ++ line.name.format ++ line.args.flatMap (fun arg => Byte.space :: arg.format)
    ++ [Byte.lineFeed]

end Line

namespace Program

/-- The text of a program. -/
def format (p : Program) : Bytes :=
  p.lines.flatMap Line.format

/-- The text of a program for display. -/
def formatText (p : Program) : String :=
  Utf8.lossy p.format

end Program

end CommandScript
