/-!
The lexemes of JSON text. A string or a number can be read in two ways: kept, so that its value
matters, or skipped over. Skipping asks for less, so a lexeme carries what each way makes of it. The
list of lexemes ends where skipping fails, and an error counts only for a reader that gets there.
-/

namespace CommandScript.Json

/-- Why a text is no JSON value of the wanted form: it ended early, it is well formed so far but of
another form, or it is not JSON. -/
inductive ReadError where
  | incomplete
  | mismatched
  | malformed
deriving DecidableEq, Repr

/-- A lexeme. A kept number is a natural of 64 bits, or nothing for any other number. -/
inductive Lexeme where
  | openArray
  | closeArray
  | openObject
  | closeObject
  | colon
  | comma
  | null
  | bool (value : Bool)
  | number (kept : Except ReadError (Option Nat)) (skipped : Except ReadError Unit)
  | text (kept : Except ReadError String) (skipped : Except ReadError Unit)
  | badWord (error : ReadError)
  | stray
deriving Repr

/-- The four kinds of space between lexemes. -/
def isSpace (c : Char) : Bool :=
  c == ' ' || c == '\n' || c == '\t' || c == '\r'

/-! ### Numbers -/

/-- The largest number of 64 bits. -/
def largestWord : Nat := UInt64.size - 1

/-- Reads digits onto `value` while it stays within 64 bits. Gives the value, the count of digits
read and the count of digits left over. -/
def accumulate (value : Nat) : List Char → Nat × Nat × Nat
  | [] => (value, 0, 0)
  | c :: rest =>
    let next := value * 10 + (c.toNat - '0'.toNat)
    if next ≤ largestWord then
      let (final, read, left) := accumulate next rest
      (final, read + 1, left)
    else (value, 0, rest.length + 1)

/-- A natural rounded to 53 significant bits, ties to the even neighbour. -/
def round53 (n : Nat) : Nat :=
  let shift := n.log2 + 1 - 53
  let unit := 1 <<< shift
  let low := n % unit
  let high := n / unit
  let up := 2 * low > unit || (2 * low == unit && high % 2 == 1)
  (if up then high + 1 else high) * unit

/-- True when `significand` times ten to the `exponent` is beyond the largest double. -/
def isTooLarge (significand : Nat) (exponent : Int) : Bool :=
  significand != 0 && 0 ≤ exponent &&
    (308 < exponent ||
      1 <<< 1024 ≤ round53 (round53 significand * round53 (Nat.pow 10 exponent.toNat)))

/-- What a kept number is worth when it is written with a fraction or an exponent, or has more
digits than 64 bits hold: nothing, or an error where no double is large enough. -/
def realNumber (significand : Nat) (exponent : Int) : Except ReadError (Option Nat) :=
  if isTooLarge significand exponent then .error .malformed else .ok none

/-- The value of digits read from left to right. -/
def digitsValue (ds : List Char) : Nat :=
  ds.foldl (fun value c => value * 10 + (c.toNat - '0'.toNat)) 0

/-- A number read off the front of a text: its worth when kept, whether it can be skipped, and the
text behind it. -/
structure NumberScan where
  kept : Except ReadError (Option Nat)
  skipped : Except ReadError Unit
  rest : List Char

/-- A number that cannot be skipped. -/
def NumberScan.fail (kept : ReadError) (rest : List Char) : NumberScan :=
  ⟨.error kept, .error .malformed, rest⟩

/-- The digits of an exponent, behind its sign. -/
def exponentDigits (significand : Nat) (scale : Int) (negative : Bool) (cs : List Char) :
    NumberScan :=
  match cs with
  | [] => .fail .incomplete []
  | c :: _ =>
    if c.isDigit then
      let size : Int := digitsValue (cs.takeWhile Char.isDigit)
      ⟨realNumber significand (if negative then scale - size else scale + size), .ok (),
        cs.dropWhile Char.isDigit⟩
    else .fail .malformed cs

/-- An exponent, behind its letter. -/
def exponentPart (significand : Nat) (scale : Int) : List Char → NumberScan
  | '-' :: rest => exponentDigits significand scale true rest
  | '+' :: rest => exponentDigits significand scale false rest
  | rest => exponentDigits significand scale false rest

/-- The end of a number where an exponent may follow. Without one the number is worth `plain`. -/
def scaledPart (significand : Nat) (scale : Int) (plain : Except ReadError (Option Nat)) :
    List Char → NumberScan
  | 'e' :: rest => exponentPart significand scale rest
  | 'E' :: rest => exponentPart significand scale rest
  | rest => ⟨plain, .ok (), rest⟩

/-- The digits of a fraction, of which there is at least one, and what follows them. -/
def fractionDigits (significand : Nat) (scale : Int) (cs : List Char) : NumberScan :=
  let ds := cs.takeWhile Char.isDigit
  let after := cs.dropWhile Char.isDigit
  if ds.isEmpty then .fail (if after.isEmpty then .incomplete else .malformed) after
  else
    let (value, read, _) := accumulate significand ds
    scaledPart value (scale - read) (realNumber value (scale - read)) after

/-- The end of a number after its whole part, which is worth `whole`. -/
def fractionPart (significand : Nat) (scale : Int) (whole : Except ReadError (Option Nat)) :
    List Char → NumberScan
  | '.' :: rest => fractionDigits significand scale rest
  | rest => scaledPart significand scale whole rest

/-- A number after its sign. Only a natural without a sign, a fraction and an exponent is worth a
value; a zero may have no digit after it. -/
def unsignedNumber (negative : Bool) (cs : List Char) : NumberScan :=
  match cs with
  | [] => .fail .incomplete []
  | c :: next =>
    if !c.isDigit then .fail .malformed cs
    else if c == '0' && next.head?.any Char.isDigit then .fail .malformed cs
    else
      let (significand, _, left) := accumulate 0 (cs.takeWhile Char.isDigit)
      let whole := if left == 0 then .ok (if negative then none else some significand)
        else realNumber significand left
      fractionPart significand left whole (cs.dropWhile Char.isDigit)

/-! ### Strings -/

def isHighSurrogate (n : Nat) : Bool :=
  0xd800 ≤ n && n ≤ 0xdbff

def isLowSurrogate (n : Nat) : Bool :=
  0xdc00 ≤ n && n ≤ 0xdfff

/-- The character that a pair of surrogates stands for. -/
def ofSurrogates (high low : Nat) : Char :=
  Char.ofNat (0x10000 + (high - 0xd800) * 0x400 + (low - 0xdc00))

/-- The value of a hexadecimal digit in either case. -/
def hexValue? (c : Char) : Option Nat :=
  if '0' ≤ c && c ≤ '9' then some (c.toNat - '0'.toNat)
  else if 'a' ≤ c && c ≤ 'f' then some (c.toNat - 'a'.toNat + 10)
  else if 'A' ≤ c && c ≤ 'F' then some (c.toNat - 'A'.toNat + 10)
  else none

/-- The four hexadecimal digits after `\u`. A text with fewer than four bytes left ended early,
whatever these bytes are. -/
def hexEscape (cs : List Char) : Except ReadError Nat :=
  match cs with
  | a :: b :: c :: d :: _ =>
    match hexValue? a, hexValue? b, hexValue? c, hexValue? d with
    | some a, some b, some c, some d => .ok (((a * 16 + b) * 16 + c) * 16 + d)
    | _, _, _, _ => .error .malformed
  | _ => .error (if (String.ofList cs).utf8ByteSize < 4 then .incomplete else .malformed)

/-- The character behind an escape of one letter. -/
def escaped? (c : Char) : Option Char :=
  if c == '"' || c == '\\' || c == '/' then some c
  else if c == 'b' then some '\x08'
  else if c == 'f' then some '\x0c'
  else if c == 'n' then some '\n'
  else if c == 'r' then some '\r'
  else if c == 't' then some '\t'
  else none

/-- The contents of a kept string, read from behind its opening quote. Surrogates have to stand in
pairs. -/
def keepString (cs : List Char) : Except ReadError (List Char) :=
  match cs with
  | [] => .error .incomplete
  | '"' :: _ => .ok []
  | '\\' :: [] => .error .incomplete
  | '\\' :: 'u' :: rest =>
    match hexEscape rest with
    | .error e => .error e
    | .ok n =>
      if isLowSurrogate n then .error .malformed
      else if isHighSurrogate n then
        match rest.drop 4 with
        | [] => .error .incomplete
        | ['\\'] => .error .incomplete
        | '\\' :: 'u' :: _ =>
          match hexEscape (rest.drop 6) with
          | .error e => .error e
          | .ok m =>
            if isLowSurrogate m then (keepString (rest.drop 10)).map (ofSurrogates n m :: ·)
            else .error .malformed
        | _ => .error .malformed
      else (keepString (rest.drop 4)).map (Char.ofNat n :: ·)
  | '\\' :: c :: rest =>
    match escaped? c with
    | some d => (keepString rest).map (d :: ·)
    | none => .error .malformed
  | c :: rest => if c < ' ' then .error .malformed else (keepString rest).map (c :: ·)
termination_by cs.length
decreasing_by
  all_goals simp only [List.length_cons, List.length_drop]
  all_goals omega

/-- The text behind a skipped string, read from behind its opening quote. -/
def skipString (cs : List Char) : Except ReadError (List Char) :=
  match cs with
  | [] => .error .incomplete
  | '"' :: rest => .ok rest
  | '\\' :: [] => .error .incomplete
  | '\\' :: 'u' :: rest =>
    match hexEscape rest with
    | .error e => .error e
    | .ok _ => skipString (rest.drop 4)
  | '\\' :: c :: rest => if (escaped? c).isSome then skipString rest else .error .malformed
  | c :: rest => if c < ' ' then .error .malformed else skipString rest
termination_by cs.length
decreasing_by
  all_goals simp only [List.length_cons, List.length_drop]
  all_goals omega

/-! ### All lexemes of a text -/

/-- The text behind the letters of a literal. -/
def skipWord : List Char → List Char → Except ReadError (List Char)
  | [], cs => .ok cs
  | _ :: _, [] => .error .incomplete
  | letter :: letters, c :: cs => if c == letter then skipWord letters cs else .error .malformed

theorem length_of_skipString {cs rest : List Char} (h : skipString cs = .ok rest) :
    rest.length ≤ cs.length := by
  fun_induction skipString cs <;> simp_all <;> omega

theorem length_of_skipWord {letters cs rest : List Char} (h : skipWord letters cs = .ok rest) :
    rest.length ≤ cs.length := by
  fun_induction skipWord letters cs <;> simp_all
  omega

theorem length_dropWhile_le (p : Char → Bool) (cs : List Char) :
    (cs.dropWhile p).length ≤ cs.length :=
  (List.dropWhile_sublist p).length_le

theorem length_exponentDigits (significand : Nat) (scale : Int) (negative : Bool)
    (cs : List Char) : (exponentDigits significand scale negative cs).rest.length ≤ cs.length := by
  unfold exponentDigits
  split
  · exact Nat.le_refl _
  · split
    · exact length_dropWhile_le _ _
    · exact Nat.le_refl _

theorem length_exponentPart (significand : Nat) (scale : Int) (cs : List Char) :
    (exponentPart significand scale cs).rest.length ≤ cs.length := by
  unfold exponentPart
  split
  · exact Nat.le_succ_of_le (length_exponentDigits ..)
  · exact Nat.le_succ_of_le (length_exponentDigits ..)
  · exact length_exponentDigits ..

theorem length_scaledPart (significand : Nat) (scale : Int)
    (plain : Except ReadError (Option Nat)) (cs : List Char) :
    (scaledPart significand scale plain cs).rest.length ≤ cs.length := by
  unfold scaledPart
  split
  · exact Nat.le_succ_of_le (length_exponentPart ..)
  · exact Nat.le_succ_of_le (length_exponentPart ..)
  · exact Nat.le_refl _

theorem length_fractionPart (significand : Nat) (scale : Int)
    (whole : Except ReadError (Option Nat)) (cs : List Char) :
    (fractionPart significand scale whole cs).rest.length ≤ cs.length := by
  unfold fractionPart
  split
  · unfold fractionDigits
    refine Nat.le_succ_of_le ?_
    dsimp only
    split
    · exact length_dropWhile_le _ _
    · exact Nat.le_trans (length_scaledPart ..) (length_dropWhile_le _ _)
  · exact length_scaledPart ..

theorem length_unsignedNumber (negative : Bool) (cs : List Char) :
    (unsignedNumber negative cs).rest.length ≤ cs.length := by
  unfold unsignedNumber
  split
  · exact Nat.le_refl _
  · split
    · exact Nat.le_refl _
    · split
      · exact Nat.le_refl _
      · exact Nat.le_trans (length_fractionPart ..) (length_dropWhile_le _ _)

/-- A number that starts with a digit and can be skipped uses up at least that digit. -/
theorem length_unsignedNumber_lt {negative : Bool} {c : Char} {rest : List Char}
    (hc : c.isDigit = true) (hok : (unsignedNumber negative (c :: rest)).skipped = .ok ()) :
    (unsignedNumber negative (c :: rest)).rest.length < (c :: rest).length := by
  revert hok
  simp only [unsignedNumber, hc, Bool.not_true, Bool.false_eq_true, if_false]
  split
  · simp [NumberScan.fail]
  · intro _
    refine Nat.lt_of_le_of_lt (length_fractionPart ..) ?_
    rw [List.dropWhile_cons, if_pos hc, List.length_cons]
    exact Nat.lt_succ_of_le (length_dropWhile_le _ _)

/-- The lexemes of a text, up to the first that cannot even be skipped. -/
def lexemes (cs : List Char) : List Lexeme :=
  match cs with
  | [] => []
  | c :: rest =>
    if isSpace c then lexemes rest
    else if c == '[' then .openArray :: lexemes rest
    else if c == ']' then .closeArray :: lexemes rest
    else if c == '\x7b' then .openObject :: lexemes rest
    else if c == '\x7d' then .closeObject :: lexemes rest
    else if c == ':' then .colon :: lexemes rest
    else if c == ',' then .comma :: lexemes rest
    else if c == '"' then
      let kept := (keepString rest).map String.ofList
      match _h : skipString rest with
      | .ok after => .text kept (.ok ()) :: lexemes after
      | .error e => [.text kept (.error e)]
    else if c == '-' then
      let scan := unsignedNumber true rest
      match scan.skipped with
      | .ok () => .number scan.kept (.ok ()) :: lexemes scan.rest
      | .error e => [.number scan.kept (.error e)]
    else if _hd : c.isDigit then
      let scan := unsignedNumber false (c :: rest)
      match _h : scan.skipped with
      | .ok () => .number scan.kept (.ok ()) :: lexemes scan.rest
      | .error e => [.number scan.kept (.error e)]
    else if c == 'n' then
      match _h : skipWord ['u', 'l', 'l'] rest with
      | .ok after => .null :: lexemes after
      | .error e => [.badWord e]
    else if c == 't' then
      match _h : skipWord ['r', 'u', 'e'] rest with
      | .ok after => .bool true :: lexemes after
      | .error e => [.badWord e]
    else if c == 'f' then
      match _h : skipWord ['a', 'l', 's', 'e'] rest with
      | .ok after => .bool false :: lexemes after
      | .error e => [.badWord e]
    else [.stray]
termination_by cs.length
decreasing_by
  all_goals try simp only [List.length_cons]
  any_goals omega
  · exact Nat.lt_succ_of_le (length_of_skipString _h)
  · exact Nat.lt_succ_of_le (length_unsignedNumber true rest)
  · exact length_unsignedNumber_lt _hd _h
  all_goals exact Nat.lt_succ_of_le (length_of_skipWord _h)

end CommandScript.Json
