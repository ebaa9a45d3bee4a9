import CommandScript.Diagnostic.Record
import CommandScript.Text.Utf8

/-!
Programs: logical lines in order. A line has a name, which is never empty, and arguments. A command
is a line together with its place in the program, so a program cannot disagree with the places of
its commands; the neighbours of a command are the places around its own.
-/

namespace CommandScript

/-- A word or a string of a line. `isShared` holds while the text is a piece of the source; it is no
part of what the part says. -/
structure Part where
  text : Bytes
  quoted : Bool
  isShared : Bool
deriving DecidableEq, Repr

namespace Part

/-- A part that is no piece of any source. -/
def owned (text : Bytes) (quoted : Bool) : Part :=
  ⟨text, quoted, false⟩

/-- The same part apart from the source. -/
def detach (part : Part) : Part :=
  { part with isShared := false }

/-- The text with replacement characters for what is not UTF-8. -/
def lossy (part : Part) : String :=
  Utf8.lossy part.text

/-- The text, if it is valid UTF-8. -/
def text? (part : Part) : Option String :=
  Utf8.decode? part.text

/-- True for a bare word with this text. A string is never a keyword. -/
def isKeyword (part : Part) (keyword : String) : Bool :=
  !part.quoted && part.text == Bytes.ofString keyword

end Part

/-- A logical line. -/
structure Line where
  pos : Position
  name : Part
  args : List Part
  name_ne : name.text ≠ []
deriving DecidableEq, Repr

namespace Line

/-- The name and the arguments. -/
def parts (line : Line) : List Part :=
  line.name :: line.args

def detach (line : Line) : Line :=
  { line with name := line.name.detach, args := line.args.map Part.detach }

end Line

/-- The place of a command, counted from zero. -/
abbrev CommandId := Nat

/-- A command id as messages show it. -/
def CommandId.display (id : CommandId) : String :=
  "#" ++ toString (id : Nat)

/-- A line at its place in a program. -/
structure Command extends Line where
  id : CommandId
deriving DecidableEq, Repr

/-- Logical lines in the order they were added. -/
structure Program where
  lines : List Line
deriving DecidableEq, Repr

namespace Program

def empty : Program := ⟨[]⟩

/-- The number of commands. -/
def size (p : Program) : Nat :=
  p.lines.length

/-- Adds a line at the end and gives its id, with the program behind the push. An empty name is
refused, and the program stays as it was. -/
def push (p : Program) (pos : Position) (name : Part) (args : List Part) :
    Except Diagnostic CommandId × Program :=
  if h : name.text = [] then (.error (.error .emptyCommand pos "command name is empty"), p)
  else (.ok p.size, ⟨p.lines ++ [⟨pos, name, args, h⟩]⟩)

/-- The first command. -/
def head? (p : Program) : Option CommandId :=
  if p.lines.isEmpty then none else some 0

/-- The last command. -/
def last? (p : Program) : Option CommandId :=
  if p.lines.isEmpty then none else some (p.size - 1)

/-- The command at a place, which may lie outside the program. -/
def get? (p : Program) (id : CommandId) : Option Command :=
  p.lines[id]?.map fun line => ⟨line, id⟩

/-- The place after another. -/
def next? (p : Program) (id : CommandId) : Option CommandId :=
  if id + 1 < p.size then some (id + 1) else none

/-- The place before another. Places outside the program have none. -/
def prev? (p : Program) (id : CommandId) : Option CommandId :=
  if 0 < id ∧ id < p.size then some (id - 1) else none

/-- The commands in order. -/
def commands (p : Program) : List Command :=
  p.lines.zipIdx.map fun (line, id) => ⟨line, id⟩

/-- The same program apart from its source. -/
def detach (p : Program) : Program :=
  ⟨p.lines.map Line.detach⟩

/-- Agreement in everything but the source that parts may be shared with. -/
def Agrees (p q : Program) : Prop :=
  p.detach = q.detach

instance (p q : Program) : Decidable (p.Agrees q) :=
  inferInstanceAs (Decidable (_ = _))

end Program

end CommandScript
