/-!
Positions of commands and diagnostics: a file name and a line number counted from one. A count
beyond the largest line number stays at that number.
-/

namespace CommandScript

/-- The file name of a source that the host did not name. -/
def unknownFile : String := "<unknown-file>"

/-- A line number for a count of lines, at most the largest one. -/
def lineNumber (count : Nat) : UInt32 :=
  UInt32.ofNat (min count (UInt32.size - 1))

/-- A file and one of its lines. Line 0 stands for no particular line. -/
structure Position where
  file : String
  line : UInt32
deriving DecidableEq, Repr

namespace Position

/-- The position of what belongs to no line of a source. -/
def unknown : Position := ⟨unknownFile, 0⟩

def display (pos : Position) : String :=
  pos.file ++ ":" ++ toString pos.line.toNat

end Position

end CommandScript
