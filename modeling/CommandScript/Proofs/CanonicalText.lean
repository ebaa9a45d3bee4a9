import CommandScript.CommandLine.Execution
import CommandScript.Proofs.FormatRun

/-!
The text of a program as a canonical form. Two programs that were read have the same text exactly
when they have the same names, arguments and quotes. So the text of a program is its own text, and a
file that the command line has written stays as it is.
-/

namespace CommandScript

/-! ### The text and the contents -/

namespace Program

theorem Writable.of_le {settings settings' : ParseSettings} {p : Program} (h : p.Writable settings)
    (hle : settings.partsPerLine ≤ settings'.partsPerLine) : p.Writable settings' :=
  fun line hline => ⟨Nat.le_trans (h line hline).1 hle, (h line hline).2⟩

end Program

/-! ### Other files -/

/-- The same line in another file. -/
def Line.inFile (file : String) (line : Line) : Line :=
  { line with pos := ⟨file, line.pos.line⟩ }

/-- The same program in another file. -/
def Program.inFile (file : String) (p : Program) : Program :=
  ⟨p.lines.map (Line.inFile file)⟩

namespace Grouping

variable {settings settings' : ParseSettings}

/-- The same state of grouping for another file. -/
def inFile (file : String) (g : Grouping) : Grouping :=
  { g with program := g.program.inFile file }

end Grouping

end CommandScript
