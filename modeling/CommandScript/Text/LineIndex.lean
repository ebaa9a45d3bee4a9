import CommandScript.Text.Byte

/-!
Line starts of a byte text. Lines and columns count from zero; `range?` takes the line numbers that
positions carry, which count from one.
-/

namespace CommandScript

/-- The offset of the first byte of each line, and the length of the text. -/
structure LineIndex where
  starts : List Nat
  size : Nat
deriving DecidableEq, Repr

namespace LineIndex

/-- The offsets right after each line feed, where the text begins at `offset`. -/
def startsAfter : Nat → Bytes → List Nat
  | _, [] => []
  | offset, b :: rest =>
    if b == Byte.lineFeed then (offset + 1) :: startsAfter (offset + 1) rest
    else startsAfter (offset + 1) rest

def ofBytes (text : Bytes) : LineIndex :=
  ⟨0 :: startsAfter 0 text, text.length⟩

/-- The number of lines, at least one. -/
def lineCount (index : LineIndex) : Nat :=
  index.starts.length

/-- The offset at which a line begins. -/
def start? (index : LineIndex) (line : Nat) : Option Nat :=
  index.starts[line]?

/-- The line that holds an offset, the last one when the offset lies past the end. -/
def lineOf (index : LineIndex) (offset : Nat) : Nat :=
  (index.starts.takeWhile (· ≤ offset)).length - 1

/-- Line and column of an offset. -/
def lineColumn (index : LineIndex) (offset : Nat) : Nat × Nat :=
  let line := index.lineOf offset
  (line, offset - (index.start? line).getD 0)

/-- The bytes of the line with this number, counted from one, without its line feed. -/
def range? (index : LineIndex) (number : Nat) : Option (Nat × Nat) :=
  match number with
  | 0 => none
  | line + 1 =>
    (index.start? line).map fun start =>
      (start, match index.start? (line + 1) with
        | some next => next - 1
        | none => index.size)

end LineIndex

end CommandScript
