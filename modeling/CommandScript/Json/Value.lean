/-!
JSON values and their text. Members keep the order they were given in; `sorted` orders them by name.
Numbers are naturals, the only ones that reports hold. Strings are escaped as little as JSON allows:
quotes, backslashes and control characters.
-/

namespace CommandScript

/-- A JSON value whose numbers are naturals. -/
inductive Json where
  | null
  | bool (value : Bool)
  | number (value : Nat)
  | string (value : String)
  | array (items : List Json)
  | object (members : List (String × Json))
deriving Repr

namespace Json

/-- A text, or null where there is none. -/
def ofText? : Option String → Json
  | some text => .string text
  | none => .null

/-- A digit of lower-case hexadecimal. -/
def hexDigit (n : Nat) : Char :=
  if n < 10 then Char.ofNat ('0'.toNat + n) else Char.ofNat ('a'.toNat + (n - 10))

/-- The text of one character inside a string. -/
def escapeChar (c : Char) : List Char :=
  if c == '"' then ['\\', '"']
  else if c == '\\' then ['\\', '\\']
  else if c == '\x08' then ['\\', 'b']
  else if c == '\t' then ['\\', 't']
  else if c == '\n' then ['\\', 'n']
  else if c == '\x0c' then ['\\', 'f']
  else if c == '\r' then ['\\', 'r']
  else if c < ' ' then ['\\', 'u', '0', '0', hexDigit (c.toNat / 16), hexDigit (c.toNat % 16)]
  else [c]

/-- A string with its quotes. -/
def quoted (text : String) : List Char :=
  '"' :: text.toList.flatMap escapeChar ++ ['"']

/-- The text of a truth value. -/
def boolText (b : Bool) : List Char :=
  if b then "true".toList else "false".toList

mutual

/-- The text without any space. -/
def compactChars : Json → List Char
  | .null => "null".toList
  | .bool b => boolText b
  | .number n => Nat.toDigits 10 n
  | .string s => quoted s
  | .array items => '[' :: compactItems items ++ [']']
  | .object members => '\x7b' :: compactMembers members ++ ['\x7d']

/-- Items with commas between them. -/
def compactItems : List Json → List Char
  | [] => []
  | [item] => compactChars item
  | item :: next :: rest => compactChars item ++ ',' :: compactItems (next :: rest)

/-- Members with commas between them. -/
def compactMembers : List (String × Json) → List Char
  | [] => []
  | [(name, value)] => quoted name ++ ':' :: compactChars value
  | (name, value) :: next :: rest =>
    quoted name ++ ':' :: (compactChars value ++ ',' :: compactMembers (next :: rest))

end

/-- A new line at a depth, two spaces for each level. -/
def newLine (depth : Nat) : List Char :=
  '\n' :: List.replicate (2 * depth) ' '

mutual

/-- The text with one item or member to a line. Empty containers stay on their line. -/
def prettyChars (depth : Nat) : Json → List Char
  | .null => "null".toList
  | .bool b => boolText b
  | .number n => Nat.toDigits 10 n
  | .string s => quoted s
  | .array [] => ['[', ']']
  | .array (item :: rest) => '[' :: prettyItems (depth + 1) (item :: rest) ++ newLine depth ++ [']']
  | .object [] => ['\x7b', '\x7d']
  | .object (member :: rest) =>
    '\x7b' :: prettyMembers (depth + 1) (member :: rest) ++ newLine depth ++ ['\x7d']

/-- Items, each on a line of its own. -/
def prettyItems (depth : Nat) : List Json → List Char
  | [] => []
  | [item] => newLine depth ++ prettyChars depth item
  | item :: next :: rest =>
    newLine depth ++ (prettyChars depth item ++ ',' :: prettyItems depth (next :: rest))

/-- Members, each on a line of its own. -/
def prettyMembers (depth : Nat) : List (String × Json) → List Char
  | [] => []
  | [(name, value)] => newLine depth ++ (quoted name ++ ':' :: ' ' :: prettyChars depth value)
  | (name, value) :: next :: rest =>
    newLine depth ++ (quoted name ++ ':' :: ' ' ::
      (prettyChars depth value ++ ',' :: prettyMembers depth (next :: rest)))

end

/-- The text on one line. -/
def compact (json : Json) : String :=
  String.ofList (compactChars json)

/-- The text over several lines, indented by two spaces a level. -/
def pretty (json : Json) : String :=
  String.ofList (prettyChars 0 json)

/-- Puts a member in front of the first one whose name does not come before its own. -/
def insertByName (member : String × Json) : List (String × Json) → List (String × Json)
  | [] => [member]
  | other :: rest =>
    if member.1 ≤ other.1 then member :: other :: rest else other :: insertByName member rest

mutual

/-- The value with the members of every object ordered by name. -/
def sorted : Json → Json
  | .array items => .array (sortedItems items)
  | .object members => .object (sortedMembers members)
  | json => json

def sortedItems : List Json → List Json
  | [] => []
  | item :: rest => sorted item :: sortedItems rest

def sortedMembers : List (String × Json) → List (String × Json)
  | [] => []
  | (name, value) :: rest => insertByName (name, sorted value) (sortedMembers rest)

end

end Json

end CommandScript
