/-!
Text bounded by a number of UTF-8 bytes. `clip` keeps the longest prefix of whole characters that
fits; `BoundedText` reaches the same result when the text arrives in pieces.
-/

namespace CommandScript

/-- The longest prefix of whole characters whose UTF-8 form takes at most `room` bytes. -/
def clipChars : Nat → List Char → List Char
  | _, [] => []
  | room, c :: rest =>
    if c.utf8Size ≤ room then c :: clipChars (room - c.utf8Size) rest else []

/-- The longest prefix of a text that takes at most `room` bytes. -/
def clip (room : Nat) (text : String) : String :=
  String.ofList (clipChars room text.toList)

/-- Text that takes pieces until one does not fit. -/
structure BoundedText where
  capacity : Nat
  text : String
  full : Bool
deriving DecidableEq, Repr

namespace BoundedText

def empty (capacity : Nat) : BoundedText :=
  ⟨capacity, "", false⟩

/-- The bytes that are still free. -/
def room (t : BoundedText) : Nat :=
  t.capacity - t.text.utf8ByteSize

/-- Appends a piece. The first piece that does not fit is clipped and later ones are dropped,
even where they would fit. -/
def write (t : BoundedText) (piece : String) : BoundedText :=
  if t.full then t
  else if piece.utf8ByteSize ≤ t.room then { t with text := t.text ++ piece }
  else { t with text := t.text ++ clip t.room piece, full := true }

/-- The text left after writing all pieces in order. -/
def ofPieces (capacity : Nat) (pieces : List String) : String :=
  (pieces.foldl write (empty capacity)).text

end BoundedText

end CommandScript
