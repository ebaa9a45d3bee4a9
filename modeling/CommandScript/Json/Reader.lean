import CommandScript.Json.Lexeme

/-!
Typed readers over lexemes. A reader takes the lexemes of one value and reports the first thing that
is wrong from left to right. A record may be written as an object, whose unknown members are
skipped, or as an array of its fields in order.
-/

namespace CommandScript.Json

/-- What a reader got out of some lexemes. It has used up at least one of them. -/
structure Parsed (α : Type) (input : List Lexeme) where
  value : α
  rest : List Lexeme
  shorter : rest.length < input.length

/-- Reads a value off the front of the lexemes. -/
abbrev Reader (α : Type) := (input : List Lexeme) → Except ReadError (Parsed α input)

/-- The same result after more lexemes. -/
def Parsed.after {α : Type} {rest input : List Lexeme} (p : Parsed α rest)
    (h : rest.length < input.length) : Parsed α input :=
  ⟨p.value, p.rest, Nat.lt_trans p.shorter h⟩

def Parsed.map {α β : Type} {input : List Lexeme} (f : α → β) (p : Parsed α input) :
    Parsed β input :=
  ⟨f p.value, p.rest, p.shorter⟩

def Reader.map {α β : Type} (f : α → β) (read : Reader α) : Reader β :=
  fun input => (read input).map (Parsed.map f)

/-- Narrows the values of a reader. -/
def Reader.check {α β : Type} (read : Reader α) (f : α → Except ReadError β) : Reader β :=
  fun input => do
    let p ← read input
    let value ← f p.value
    pure ⟨value, p.rest, p.shorter⟩

/-- What is wrong with the value in front, given that it is not of the wanted form. -/
def wrongValue : List Lexeme → ReadError
  | [] => .incomplete
  | .null :: _ => .mismatched
  | .bool _ :: _ => .mismatched
  | .openArray :: _ => .mismatched
  | .openObject :: _ => .mismatched
  | .number (.error e) _ :: _ => e
  | .number (.ok _) _ :: _ => .mismatched
  | .text (.error e) _ :: _ => e
  | .text (.ok _) _ :: _ => .mismatched
  | .badWord e :: _ => e
  | _ => .malformed

/-- What is wrong where other punctuation was due. -/
def wrongPunctuation : List Lexeme → ReadError
  | [] => .incomplete
  | _ => .malformed

/-! ### Skipping a value -/

/-- A container that is open while skipping. -/
inductive Frame where
  | array
  | object
deriving DecidableEq, Repr

/-- What may come next while skipping. -/
inductive Expected where
  | value
  | itemOrEnd
  | name
  | nameOrEnd
  | colon
  | separator
deriving DecidableEq, Repr

/-- Where skipping stands: what may come next and the open containers, innermost first. -/
inductive Skipping where
  | finished
  | expecting (next : Expected) (frames : List Frame)
deriving DecidableEq, Repr

/-- After a whole value. -/
def Skipping.afterValue : List Frame → Skipping
  | [] => .finished
  | frames => .expecting .separator frames

/-- One lexeme where a value is due. -/
def Skipping.value (frames : List Frame) : Lexeme → Except ReadError Skipping
  | .null => .ok (.afterValue frames)
  | .bool _ => .ok (.afterValue frames)
  | .number _ skipped => skipped.map fun _ => .afterValue frames
  | .text _ skipped => skipped.map fun _ => .afterValue frames
  | .openArray => .ok (.expecting .itemOrEnd (.array :: frames))
  | .openObject => .ok (.expecting .nameOrEnd (.object :: frames))
  | .badWord e => .error e
  | _ => .error .malformed

/-- One lexeme where the name of a member is due. -/
def Skipping.name (frames : List Frame) : Lexeme → Except ReadError Skipping
  | .text _ skipped => skipped.map fun _ => .expecting .colon frames
  | _ => .error .malformed

/-- One lexeme of a value that is skipped over. -/
def Skipping.step (next : Expected) (frames : List Frame) (lexeme : Lexeme) :
    Except ReadError Skipping :=
  match next, frames, lexeme with
  | .value, _, _ => Skipping.value frames lexeme
  | .itemOrEnd, .array :: outer, .closeArray => .ok (.afterValue outer)
  | .itemOrEnd, _, _ => Skipping.value frames lexeme
  | .name, _, _ => Skipping.name frames lexeme
  | .nameOrEnd, .object :: outer, .closeObject => .ok (.afterValue outer)
  | .nameOrEnd, _, _ => Skipping.name frames lexeme
  | .colon, _, .colon => .ok (.expecting .value frames)
  | .separator, .array :: _, .comma => .ok (.expecting .value frames)
  | .separator, .array :: outer, .closeArray => .ok (.afterValue outer)
  | .separator, .object :: _, .comma => .ok (.expecting .name frames)
  | .separator, .object :: outer, .closeObject => .ok (.afterValue outer)
  | _, _, _ => .error .malformed

/-- Skips lexemes until the value is whole. -/
def skipFrom (next : Expected) (frames : List Frame) : Reader Unit
  | [] => .error .incomplete
  | lexeme :: rest =>
    match Skipping.step next frames lexeme with
    | .error e => .error e
    | .ok .finished => .ok ⟨(), rest, Nat.lt_succ_self _⟩
    | .ok (.expecting next frames) =>
      (skipFrom next frames rest).map (·.after (Nat.lt_succ_self _))

/-- Skips one value of any form and depth. -/
def skipValue : Reader Unit :=
  skipFrom .value []

/-! ### Single values -/

/-- A string. -/
def readText : Reader String
  | .text (.ok s) _ :: rest => .ok ⟨s, rest, Nat.lt_succ_self _⟩
  | input => .error (wrongValue input)

/-- A natural number up to `most`. -/
def readNatural (most : Nat) : Reader Nat
  | .number (.ok (some n)) _ :: rest =>
    if n ≤ most then .ok ⟨n, rest, Nat.lt_succ_self _⟩ else .error .mismatched
  | input => .error (wrongValue input)

/-- Null. -/
def readNull : Reader Unit
  | .null :: rest => .ok ⟨(), rest, Nat.lt_succ_self _⟩
  | input => .error (wrongValue input)

/-- One punctuation mark, told by a test. -/
def readMark (isMark : Lexeme → Bool) : Reader Unit
  | lexeme :: rest =>
    if isMark lexeme then .ok ⟨(), rest, Nat.lt_succ_self _⟩ else .error .malformed
  | [] => .error .incomplete

def isColon : Lexeme → Bool
  | .colon => true
  | _ => false

def isCloseObject : Lexeme → Bool
  | .closeObject => true
  | _ => false

def isCloseArray : Lexeme → Bool
  | .closeArray => true
  | _ => false

/-- One reader after another. -/
def Reader.andThen {α β : Type} (first : Reader α) (second : α → Reader β) : Reader β :=
  fun input => do
    let p ← first input
    let q ← second p.value p.rest
    pure (q.after p.shorter)

/-- One of several names, written as a string. No other form is even looked into. -/
def readBareName {α : Type} (ofName? : String → Option α) : Reader α
  | .text (.error e) _ :: _ => .error e
  | .text (.ok s) _ :: rest =>
    match ofName? s with
    | some value => .ok ⟨value, rest, Nat.lt_succ_self _⟩
    | none => .error .mismatched
  | input => .error (wrongPunctuation input)

/-- One of several names, as a string or as the only member of an object whose value is null. -/
def readName {α : Type} (ofName? : String → Option α) : Reader α
  | .openObject :: rest =>
    let whole : Reader α := (readBareName ofName?).andThen fun value =>
      (readMark isColon).andThen fun _ => readNull.andThen fun _ =>
        (readMark isCloseObject).map fun _ => value
    (whole rest).map (·.after (Nat.lt_succ_self _))
  | input => readBareName ofName? input

/-! ### Records -/

/-- A field of a record that is read into a draft. -/
structure Field (σ : Type) where
  name : String
  isRead : σ → Bool
  read : Reader (σ → σ)

/-- The value of a member: skipped when no field has its name, refused when the field has been read
before. -/
def readMember {σ : Type} (fields : List (Field σ)) (draft : σ) (name : String) : Reader σ :=
  match fields.find? (·.name == name) with
  | none => (readMark isColon).andThen fun _ => skipValue.map fun _ => draft
  | some field =>
    if field.isRead draft then fun _ => .error .mismatched
    else (readMark isColon).andThen fun _ => field.read.map fun set => set draft

/-- The members of an object from behind the opening brace, or from behind a member when `first` is
false. -/
def readMembers {σ : Type} (fields : List (Field σ)) (first : Bool) (draft : σ)
    (input : List Lexeme) : Except ReadError (Parsed σ input) :=
  match input, first with
  | .closeObject :: rest, _ => .ok ⟨draft, rest, Nat.lt_succ_self _⟩
  | .text kept _ :: rest, true => do
    let name ← kept
    let p ← readMember fields draft name rest
    let q ← readMembers fields false p.value p.rest
    pure (q.after (Nat.lt_succ_of_lt p.shorter))
  | .comma :: .text kept _ :: rest, false => do
    let name ← kept
    let p ← readMember fields draft name rest
    let q ← readMembers fields false p.value p.rest
    pure (q.after (Nat.lt_succ_of_lt (Nat.lt_succ_of_lt p.shorter)))
  | .comma :: rest, false => .error (wrongPunctuation rest)
  | input, _ => .error (wrongPunctuation input)
termination_by input.length
decreasing_by
  all_goals simp only [List.length_cons]
  · exact Nat.lt_succ_of_lt p.shorter
  · exact Nat.lt_succ_of_lt (Nat.lt_succ_of_lt p.shorter)

/-- The items of an array, one for each field in order. The array may stop early, but it may not go
on behind the last field. -/
def readItems {σ : Type} (first : Bool) (draft : σ) :
    List (Field σ) → (input : List Lexeme) → Except ReadError (Parsed σ input)
  | [], input => (readMark isCloseArray input).map (Parsed.map fun _ => draft)
  | field :: fields, input =>
    match input, first with
    | .closeArray :: rest, _ => .ok ⟨draft, rest, Nat.lt_succ_self _⟩
    | .comma :: .closeArray :: _, false => .error .malformed
    | .comma :: rest, false => do
      let p ← field.read rest
      let q ← readItems false (p.value draft) fields p.rest
      pure (q.after (Nat.lt_succ_of_lt p.shorter))
    | [], _ => .error .incomplete
    | _, false => .error .malformed
    | input, true => do
      let p ← field.read input
      let q ← readItems false (p.value draft) fields p.rest
      pure (q.after p.shorter)

/-- A record, as an object or as an array. -/
def readRecord {σ : Type} (fields : List (Field σ)) (start : σ) : Reader σ
  | .openObject :: rest =>
    (readMembers fields true start rest).map (·.after (Nat.lt_succ_self _))
  | .openArray :: rest =>
    (readItems true start fields rest).map (·.after (Nat.lt_succ_self _))
  | input => .error (wrongValue input)

/-- Reads a whole text, which holds one value and nothing behind it. -/
def read {α : Type} (reader : Reader α) (text : String) : Except ReadError α := do
  let p ← reader (lexemes text.toList)
  if p.rest.isEmpty then pure p.value else throw .malformed

end CommandScript.Json
