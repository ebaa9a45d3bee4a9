import CommandScript.Text.Byte

/-!
Reading bytes as UTF-8, one byte at a time. The scan gives a character for each well-formed
sequence and a hole for each maximal ill-formed one, so that validity, strict decoding and lossy
decoding are three views of one list.
-/

namespace CommandScript.Utf8

/-- Where the scan stands: between characters, or inside a sequence whose next byte has to lie
between `low` and `high` and is followed by `more` continuation bytes. -/
inductive State where
  | ready
  | within (bits : Nat) (low high : UInt8) (more : Nat)
deriving DecidableEq, Repr

/-- A byte met between characters. The bounds on the second byte exclude overlong forms,
surrogates and numbers above the last code point. -/
def start (b : UInt8) : List (Option Char) × State :=
  if b < 0x80 then ([some (Char.ofNat b.toNat)], .ready)
  else if 0xc2 ≤ b && b ≤ 0xdf then ([], .within (b.toNat - 0xc0) 0x80 0xbf 0)
  else if b == 0xe0 then ([], .within 0 0xa0 0xbf 1)
  else if b == 0xed then ([], .within 0xd 0x80 0x9f 1)
  else if 0xe1 ≤ b && b ≤ 0xef then ([], .within (b.toNat - 0xe0) 0x80 0xbf 1)
  else if b == 0xf0 then ([], .within 0 0x90 0xbf 2)
  else if 0xf1 ≤ b && b ≤ 0xf3 then ([], .within (b.toNat - 0xf0) 0x80 0xbf 2)
  else if b == 0xf4 then ([], .within 4 0x80 0x8f 2)
  else ([none], .ready)

/-- The items one byte completes, and the state after it. A byte that breaks a sequence leaves a
hole for the sequence and is then read afresh. -/
def step : State → UInt8 → List (Option Char) × State
  | .ready, b => start b
  | .within bits low high more, b =>
    if low ≤ b && b ≤ high then
      let bits := bits * 64 + b.toNat % 64
      match more with
      | 0 => ([some (Char.ofNat bits)], .ready)
      | more + 1 => ([], .within bits 0x80 0xbf more)
    else
      let (items, after) := start b
      (none :: items, after)

/-- The items of the bytes read from a state. A sequence cut short by the end is a hole. -/
def scanFrom : State → Bytes → List (Option Char)
  | .ready, [] => []
  | .within .., [] => [none]
  | state, b :: rest =>
    let (items, after) := step state b
    items ++ scanFrom after rest

/-- The characters and holes of a byte text. -/
def scan (bytes : Bytes) : List (Option Char) :=
  scanFrom .ready bytes

/-- True when the bytes are the UTF-8 form of some text. -/
def isValid (bytes : Bytes) : Bool :=
  (scan bytes).all Option.isSome

/-- The text, if the bytes are valid UTF-8. -/
def decode? (bytes : Bytes) : Option String :=
  if isValid bytes then some (String.ofList ((scan bytes).filterMap id)) else none

/-- The text with the replacement character in each hole. -/
def lossy (bytes : Bytes) : String :=
  String.ofList ((scan bytes).map (·.getD '\uFFFD'))

end CommandScript.Utf8
