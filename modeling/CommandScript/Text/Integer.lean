/-!
Integers written in decimal. A number may start with one plus sign, or a minus sign where the type
is signed; everything after it has to be an ASCII digit. The error is the one met first from left to
right.
-/

namespace CommandScript

/-- Why a text is no integer of the wanted range. -/
inductive IntegerError where
  | empty
  | invalidDigit
  | tooLarge
deriving DecidableEq, Repr

namespace IntegerError

def message : IntegerError → String
  | .empty => "cannot parse integer from empty string"
  | .invalidDigit => "invalid digit found in string"
  | .tooLarge => "number too large to fit in target type"

end IntegerError

namespace Integer

/-- The value of an ASCII digit. -/
def digit? (c : Char) : Option Nat :=
  if '0' ≤ c && c ≤ '9' then some (c.toNat - '0'.toNat) else none

/-- Reads digits onto `value`, which may not pass `most`. -/
def digits (most : Nat) : Nat → List Char → Except IntegerError Nat
  | value, [] => .ok value
  | value, c :: rest =>
    match digit? c with
    | none => .error .invalidDigit
    | some d =>
        if value * 10 + d ≤ most then digits most (value * 10 + d) rest else .error .tooLarge

/-- Digits of which there is at least one. -/
def digits1 (most : Nat) : List Char → Except IntegerError Nat
  | [] => .error .invalidDigit
  | c :: rest => digits most 0 (c :: rest)

/-- A natural number up to `most`. -/
def natural (most : Nat) (text : String) : Except IntegerError Nat :=
  match text.toList with
  | [] => .error .empty
  | '+' :: rest => digits1 most rest
  | rest => digits1 most rest

/-- A signed number of 64 bits. -/
def signed64 (text : String) : Except IntegerError Int :=
  match text.toList with
  | [] => .error .empty
  | '-' :: rest => (digits1 (UInt64.size / 2) rest).map fun n => -(n : Int)
  | '+' :: rest => (digits1 (UInt64.size / 2 - 1) rest).map Int.ofNat
  | rest => (digits1 (UInt64.size / 2 - 1) rest).map Int.ofNat

end Integer

end CommandScript
