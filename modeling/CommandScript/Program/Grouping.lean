import CommandScript.Program.Fault

/-!
Grouping tokens into logical lines. Outside a block every line feed ends a logical line; between
`?begin` and `?end` only `?end` does. The first fault from left to right counts.
-/

namespace CommandScript

/-- Whether line feeds end logical lines. A block remembers the line of its `?begin`. -/
inductive Mode where
  | single
  | block (openedAt : UInt32)
deriving DecidableEq, Repr

/-- The state of grouping: the mode, the parts of the logical line so far with the line of the first
one, and the program of the lines before it. -/
structure Grouping where
  mode : Mode
  parts : List Part
  lineStart : UInt32
  program : Program
deriving DecidableEq, Repr

namespace Grouping

def start : Grouping :=
  ⟨.single, [], 1, .empty⟩

/-- Ends the logical line. Nothing happens when it has no parts. -/
def endLine (file : String) (g : Grouping) : Except Fault Grouping :=
  match g.parts with
  | [] => .ok g
  | name :: args =>
    if h : name.text = [] then .error (.emptyName g.lineStart)
    else .ok { g with
      parts := []
      program := ⟨g.program.lines ++ [⟨⟨file, g.lineStart⟩, name, args, h⟩]⟩ }

/-- Adds a part to the logical line. -/
def addPart (limit : Nat) (g : Grouping) (token : Token) (quoted : Bool) :
    Except Fault Grouping :=
  let g := if g.parts.isEmpty then { g with lineStart := token.line } else g
  if g.parts.length < limit then
    .ok { g with parts := g.parts ++ [⟨token.text, quoted, token.isShared⟩] }
  else .error (.tooManyParts limit g.lineStart)

/-- Opens a block, unless one is open already. -/
def openBlock (g : Grouping) (line : UInt32) : Grouping :=
  match g.mode with
  | .single => { g with mode := .block line }
  | .block _ => g

/-- Takes one token in. -/
def addToken (settings : ParseSettings) (g : Grouping) (token : Token) : Except Fault Grouping :=
  match token.kind with
  | .word => g.addPart settings.partsPerLine token false
  | .string => g.addPart settings.partsPerLine token true
  | .newline =>
    match g.mode with
    | .single => g.endLine settings.fileName
    | .block _ => .ok g
  | .directive =>
    if token.text == Bytes.ofString "begin" then .ok (g.openBlock token.line)
    else if token.text == Bytes.ofString "end" then
      { g with mode := .single }.endLine settings.fileName
    else .error (.unknownDirective token.text token.line)

/-- Takes tokens in, in order, up to the first fault. -/
def addTokens (settings : ParseSettings) (g : Grouping) : List Token → Except Fault Grouping
  | [] => .ok g
  | token :: rest =>
    match g.addToken settings token with
    | .ok g => g.addTokens settings rest
    | .error fault => .error fault

/-- The program at the end of the source. -/
def finish (settings : ParseSettings) (g : Grouping) : Except Fault Program :=
  match g.mode with
  | .block openedAt => .error (.unclosedBlock openedAt)
  | .single => (g.endLine settings.fileName).map Grouping.program

end Grouping

namespace Program

/-- The program of a source, or its first fault. -/
def ofSource (settings : ParseSettings) (source : Bytes) : Except Fault Program :=
  if settings.partsPerLine = 0 then .error .noParts
  else
    let lexing := Lexing.ofSource source
    match Grouping.start.addTokens settings lexing.tokens, lexing.error with
    | .error fault, _ => .error fault
    | .ok _, some error => .error (.ofLexError error)
    | .ok g, none => g.finish settings

/-- Parses a source, with the first fault as a diagnostic. -/
def parseWith (settings : ParseSettings) (source : Bytes) : Except Diagnostic Program :=
  (ofSource settings source).mapError fun fault => fault.diagnostic settings

/-- Parses a source with a limit of parts per line. -/
def parse (source : Bytes) (partsPerLine : Nat) : Except Diagnostic Program :=
  parseWith { partsPerLine } source

end Program

end CommandScript
