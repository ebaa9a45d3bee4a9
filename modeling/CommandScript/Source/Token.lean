import CommandScript.Diagnostic.Position
import CommandScript.Source.Escape

/-!
Tokens of command text. A cursor walks over the bytes; each step skips a blank, yields a token or
fails. Spans count bytes and cover quotes and the question mark of a directive. Lexing stops at the
first error and nothing follows it.
-/

namespace CommandScript

/-- A directive stands at the very start of a line; its text leaves out the question mark. -/
inductive TokenKind where
  | directive
  | word
  | string
  | newline
deriving DecidableEq, Repr

/-- A token with the line it starts on, its span, and the line right behind it. `isShared` holds
when the text stands in the source byte for byte. -/
structure Token where
  kind : TokenKind
  text : Bytes
  line : UInt32
  start : Nat
  stop : Nat
  isShared : Bool
  endLine : UInt32
deriving DecidableEq, Repr

inductive LexErrorKind where
  | unclosedString
  | unexpectedByte (byte : UInt8)
deriving DecidableEq, Repr

/-- Why lexing stopped, with the line and offset of the offending token. -/
structure LexError where
  kind : LexErrorKind
  line : UInt32
  offset : Nat
deriving DecidableEq, Repr

/-- The tokens of a source up to its first error, and the line where lexing ended. -/
structure Lexing where
  tokens : List Token
  error : Option LexError
  endLine : UInt32
deriving DecidableEq, Repr

/-- The contents of a string and the bytes behind its closing quote. Without a closing quote the
contents are all bytes that were looked through. -/
structure StringScan where
  body : Bytes
  rest : Option Bytes
deriving DecidableEq, Repr

/-- Puts bytes in front of the contents. -/
def StringScan.cons (bytes : Bytes) (scan : StringScan) : StringScan :=
  { scan with body := bytes ++ scan.body }

/-- Looks for the closing quote before the end of the line. A backslash takes the next byte along,
a quote or a line feed too. -/
def scanString (quote : UInt8) : Bytes → StringScan
  | [] => ⟨[], none⟩
  | b :: rest =>
    if b == Byte.lineFeed then ⟨[], none⟩
    else if b == quote then ⟨[], some rest⟩
    else if b == Byte.backslash then
      match rest with
      | [] => ⟨[b], none⟩
      | escaped :: rest => (scanString quote rest).cons [b, escaped]
    else (scanString quote rest).cons [b]

/-- A place in a source: the bytes ahead, their offset, the count of lines begun so far, and whether
a line begins right here. -/
structure Cursor where
  rest : Bytes
  offset : Nat
  line : Nat
  atLineStart : Bool
deriving DecidableEq, Repr

namespace Cursor

def ofSource (source : Bytes) : Cursor :=
  ⟨source, 0, 1, true⟩

/-- The cursor behind some bytes. -/
def advance (c : Cursor) (taken rest : Bytes) : Cursor :=
  ⟨rest, c.offset + taken.length, c.line + taken.count Byte.lineFeed, false⟩

/-- The token between two cursors. -/
def token (c after : Cursor) (kind : TokenKind) (text : Bytes) (isShared : Bool) : Token where
  kind := kind
  text := text
  line := lineNumber c.line
  start := c.offset
  stop := after.offset
  isShared := isShared
  endLine := lineNumber after.line

/-- What a cursor meets. -/
inductive Step where
  | finished
  | blank (after : Cursor)
  | token (token : Token) (after : Cursor)
  | failed (error : LexError) (endLine : UInt32)
deriving DecidableEq, Repr

/-- The token or blank right ahead. -/
def step (c : Cursor) : Step :=
  match c.rest with
  | [] => .finished
  | b :: rest =>
    if c.atLineStart && b == Byte.questionMark then
      let name := rest.takeWhile Byte.isAlphanumeric
      let after := c.advance (b :: name) (rest.dropWhile Byte.isAlphanumeric)
      .token (c.token after .directive name true) after
    else if b == Byte.lineFeed then
      let after := { c.advance [b] rest with atLineStart := true }
      .token (c.token after .newline [b] true) after
    else if b == Byte.hash then
      .blank (c.advance (b :: rest.takeWhile (· != Byte.lineFeed))
        (rest.dropWhile (· != Byte.lineFeed)))
    else if Byte.isInlineSpace b then .blank (c.advance [b] rest)
    else if Byte.isQuote b then
      match scanString b rest with
      | ⟨body, some behind⟩ =>
        let after := c.advance (b :: body ++ [b]) behind
        .token (c.token after .string (Escape.unescape body) (!body.contains Byte.backslash)) after
      | ⟨body, none⟩ =>
        .failed ⟨.unclosedString, lineNumber c.line, c.offset⟩
          (lineNumber (c.line + body.count Byte.lineFeed))
    else if Byte.isWord b then
      let text := b :: rest.takeWhile Byte.isWord
      let after := c.advance text (rest.dropWhile Byte.isWord)
      .token (c.token after .word text true) after
    else .failed ⟨.unexpectedByte b, lineNumber c.line, c.offset⟩ (lineNumber c.line)

end Cursor

theorem length_of_scanString {quote : UInt8} {bytes behind : Bytes}
    (h : (scanString quote bytes).rest = some behind) : behind.length < bytes.length := by
  fun_induction scanString quote bytes <;>
    simp_all only [StringScan.cons, List.length_cons, Option.some.injEq, reduceCtorEq]
  all_goals grind

namespace Cursor

/-- The cursor behind a blank or a token. -/
def Step.after? : Step → Option Cursor
  | .blank after => some after
  | .token _ after => some after
  | _ => none

/-- A step that goes on has used up at least one byte. -/
theorem length_of_step {c after : Cursor} (h : c.step.after? = some after) :
    after.rest.length < c.rest.length := by
  have hdrop (p : UInt8 → Bool) (bytes : Bytes) : (bytes.dropWhile p).length ≤ bytes.length :=
    (List.dropWhile_sublist p).length_le
  revert h
  unfold step
  split
  · simp [Step.after?]
  · rename_i b rest hrest
    rw [hrest, List.length_cons]
    dsimp only
    split
    · rintro ⟨⟩
      exact Nat.lt_succ_of_le (hdrop ..)
    split
    · rintro ⟨⟩
      exact Nat.lt_succ_self _
    split
    · rintro ⟨⟩
      exact Nat.lt_succ_of_le (hdrop ..)
    split
    · rintro ⟨⟩
      exact Nat.lt_succ_self _
    split
    · split
      · rename_i heq
        rintro ⟨⟩
        exact Nat.lt_succ_of_lt (length_of_scanString (congrArg StringScan.rest heq))
      · rintro ⟨⟩
    split
    · rintro ⟨⟩
      exact Nat.lt_succ_of_le (hdrop ..)
    · rintro ⟨⟩

/-- The tokens ahead of a cursor. -/
def lex (c : Cursor) : Lexing :=
  match _h : c.step with
  | .finished => ⟨[], none, lineNumber c.line⟩
  | .blank after => after.lex
  | .token token after =>
    let rest := after.lex
    { rest with tokens := token :: rest.tokens }
  | .failed error endLine => ⟨[], some error, endLine⟩
termination_by c.rest.length
decreasing_by
  · exact length_of_step (by rw [_h]; rfl)
  · exact length_of_step (by rw [_h]; rfl)

end Cursor

namespace Lexing

/-- The tokens of a whole source. -/
def ofSource (source : Bytes) : Lexing :=
  (Cursor.ofSource source).lex

/-- All tokens, or the error that lexing stopped at. -/
def result (lexing : Lexing) : Except LexError (List Token) :=
  match lexing.error with
  | none => .ok lexing.tokens
  | some error => .error error

end Lexing

end CommandScript
