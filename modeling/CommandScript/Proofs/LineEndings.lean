import CommandScript.Proofs.Grouping
import CommandScript.Proofs.Lexing
import Mathlib.Data.List.TakeWhile

/-!
Two styles of line ends. A carriage return in front of a line feed is a blank, part of a comment or
the end of what an unclosed string was looked through for, so it changes neither tokens nor errors
but for their offsets. A backslash at the end of a line would take it along, and a string with such
a line end is another one afterwards. `Follows` compares a cursor in the text with one in the text
with carriage returns, and grouping does not see offsets.
-/

namespace CommandScript

namespace Bytes

/-- The text with a carriage return in front of every line feed. -/
def withReturns (text : Bytes) : Bytes :=
  text.flatMap fun b => if b = Byte.lineFeed then [Byte.carriageReturn, b] else [b]

/-- No line feed stands right behind a backslash. -/
def Unescaped (text : Bytes) : Prop :=
  ¬ [Byte.backslash, Byte.lineFeed] <:+: text

variable {text line rest : Bytes} {b : UInt8}

@[simp] theorem withReturns_nil : withReturns [] = [] := rfl

@[simp] theorem withReturns_lineFeed (text : Bytes) :
    withReturns (Byte.lineFeed :: text) =
      Byte.carriageReturn :: Byte.lineFeed :: withReturns text :=
  rfl

theorem withReturns_cons (hb : b ≠ Byte.lineFeed) (text : Bytes) :
    withReturns (b :: text) = b :: withReturns text := by
  simp [withReturns, hb]

/-- Nothing happens up to the first line feed. -/
theorem withReturns_append (hline : Byte.lineFeed ∉ line) (rest : Bytes) :
    withReturns (line ++ rest) = line ++ withReturns rest := by
  induction line with
  | nil => rfl
  | cons b line ih =>
      obtain ⟨hb, hline⟩ := not_or.mp (mt List.mem_cons.mpr hline)
      rw [List.cons_append, withReturns_cons (Ne.symm hb), ih hline, List.cons_append]

/-- A span that ends in front of both bytes of a line end is the same. -/
theorem span_withReturns {p : UInt8 → Bool} (hline : p Byte.lineFeed = false)
    (hreturn : p Byte.carriageReturn = false) (text : Bytes) :
    (withReturns text).takeWhile p = text.takeWhile p ∧
      (withReturns text).dropWhile p = withReturns (text.dropWhile p) := by
  induction text with
  | nil => exact ⟨rfl, rfl⟩
  | cons b text ih =>
      by_cases hb : b = Byte.lineFeed
      · subst hb
        simp [hline, hreturn]
      · rw [withReturns_cons hb]
        cases hp : p b with
        | false => simp [hp, withReturns_cons hb]
        | true => simpa [hp] using ih

/-- The span up to a line feed. -/
theorem span_line (hline : Byte.lineFeed ∉ line) (rest : Bytes) :
    (line ++ Byte.lineFeed :: rest).takeWhile (· != Byte.lineFeed) = line ∧
      (line ++ Byte.lineFeed :: rest).dropWhile (· != Byte.lineFeed) = Byte.lineFeed :: rest := by
  have hall : ∀ b ∈ line, (b != Byte.lineFeed) = true :=
    fun b hb => bne_iff_ne.mpr (ne_of_mem_of_not_mem hb hline)
  rw [List.takeWhile_append_of_pos hall, List.dropWhile_append_of_pos hall]
  simp

theorem unescaped_cons : Unescaped (b :: text) ↔
    (b = Byte.backslash → text.head? ≠ some Byte.lineFeed) ∧ Unescaped text := by
  have hpair : [Byte.backslash, Byte.lineFeed] <+: b :: text ↔
      b = Byte.backslash ∧ text.head? = some Byte.lineFeed := by
    rw [List.cons_prefix_cons, @eq_comm _ Byte.backslash]
    cases text <;> simp [@eq_comm _ Byte.lineFeed]
  rw [Unescaped, List.infix_cons_iff, not_or, hpair, not_and]
  rfl

theorem Unescaped.suffix (h : Unescaped text) (hrest : rest <:+ text) : Unescaped rest :=
  fun hpair => h (hpair.trans hrest.isInfix)

/-- Carriage returns keep the backslashes away from the line feeds. -/
theorem unescaped_withReturns (text : Bytes) : Unescaped (withReturns text) := by
  have hhead (text : Bytes) : (withReturns text).head? ≠ some Byte.lineFeed := by
    cases text with
    | nil => simp
    | cons b text =>
        by_cases hb : b = Byte.lineFeed
        · subst hb
          simp only [withReturns_lineFeed, List.head?_cons]
          decide
        · simpa [withReturns_cons hb] using hb
  induction text with
  | nil => simp [Unescaped]
  | cons b text ih =>
      by_cases hb : b = Byte.lineFeed
      · subst hb
        have hline : Byte.lineFeed ≠ Byte.backslash := by decide
        have hreturn : Byte.carriageReturn ≠ Byte.backslash := by decide
        simp [unescaped_cons, hline, hreturn, ih]
      · rw [withReturns_cons hb, unescaped_cons]
        exact ⟨fun _ => hhead text, ih⟩

end Bytes

/-! ### Strings -/

variable {quote : UInt8} {bytes body : Bytes}

open Bytes

/-- Without escaped line feeds a string is looked for on one line. -/
theorem lineFeed_notMem_body (quote : UInt8) (h : Unescaped bytes) :
    Byte.lineFeed ∉ (scanString quote bytes).body := by
  fun_induction scanString quote bytes with
  | case1 => simp
  | case2 => simp
  | case3 => simp
  | case4 b hline =>
      simpa [@eq_comm _ Byte.lineFeed] using hline
  | case5 b hline hquote hb escaped rest ih =>
      obtain ⟨hescaped, hrest⟩ := unescaped_cons.mp h
      have hne : escaped ≠ Byte.lineFeed := by simpa using hescaped (by simpa using hb)
      have hmem := ih (unescaped_cons.mp hrest).2
      simp only [StringScan.cons, List.cons_append, List.nil_append, List.mem_cons, not_or]
      exact ⟨by simpa [@eq_comm _ Byte.lineFeed] using hline, hne.symm, hmem⟩
  | case6 b rest hline hquote hb ih =>
      have hmem := ih (unescaped_cons.mp h).2
      simp only [StringScan.cons, List.cons_append, List.nil_append, List.mem_cons, not_or]
      exact ⟨by simpa [@eq_comm _ Byte.lineFeed] using hline, hmem⟩

theorem scanString_byte {b : UInt8} {rest : Bytes} (hline : b ≠ Byte.lineFeed) (hq : b ≠ quote)
    (hb : b ≠ Byte.backslash) :
    scanString quote (b :: rest) = (scanString quote rest).cons [b] := by
  conv_lhs => unfold scanString
  simp [hline, hq, hb]

theorem scanString_pair {b : UInt8} {rest : Bytes} (hquote : Byte.isQuote quote = true) :
    scanString quote (Byte.backslash :: b :: rest) =
      (scanString quote rest).cons [Byte.backslash, b] := by
  obtain ⟨-, -, hbackslash⟩ := quote_bytes hquote
  have hline : Byte.backslash ≠ Byte.lineFeed := by decide
  conv_lhs => unfold scanString
  simp [hline, hbackslash.symm]

/-- An unclosed string stays unclosed. -/
theorem scanString_withReturns (hquote : Byte.isQuote quote = true) (h : Unescaped bytes)
    (hrest : (scanString quote bytes).rest = none) :
    (scanString quote (withReturns bytes)).rest = none := by
  fun_induction scanString quote bytes with
  | case1 => rfl
  | case2 b rest hline =>
      obtain rfl : b = Byte.lineFeed := by simpa using hline
      obtain ⟨hcases, -, -⟩ := quote_bytes hquote
      have hreturn : Byte.carriageReturn ≠ quote := by
        rcases hcases with rfl | rfl <;> decide
      rw [withReturns_lineFeed, scanString_byte (by decide) hreturn (by decide)]
      unfold scanString
      simp [StringScan.cons]
  | case3 => cases hrest
  | case4 b hline hq hb =>
      rw [withReturns_cons (by simpa using hline), withReturns_nil]
      unfold scanString
      simp [hline, hq, hb]
  | case5 b hline hq hb escaped rest ih =>
      obtain ⟨hescaped, hunescaped⟩ := unescaped_cons.mp h
      obtain rfl : b = Byte.backslash := by simpa using hb
      have hne : escaped ≠ Byte.lineFeed := by simpa using hescaped rfl
      rw [withReturns_cons (by simpa using hline), withReturns_cons hne, scanString_pair hquote]
      exact ih (unescaped_cons.mp hunescaped).2 hrest
  | case6 b rest hline hq hb ih =>
      have hline : b ≠ Byte.lineFeed := by simpa using hline
      rw [withReturns_cons hline, scanString_byte hline (by simpa using hq) (by simpa using hb)]
      exact ih (unescaped_cons.mp h).2 hrest

/-- The contents of a string have no line feeds then. -/
theorem StringBody.lineFeed_notMem {behind : Bytes} (hquote : Byte.isQuote quote = true)
    (h : StringBody quote body) (hunescaped : Unescaped (body ++ quote :: behind)) :
    Byte.lineFeed ∉ body := by
  have hmem := lineFeed_notMem_body quote hunescaped
  rwa [scanString_body hquote h behind] at hmem

/-! ### Offsets left aside -/

/-- The token without its place among the bytes. -/
def Token.unplaced (t : Token) : Token :=
  { t with start := 0, stop := 0 }

def LexError.unplaced (error : LexError) : LexError :=
  { error with offset := 0 }

def Lexing.unplaced (lexing : Lexing) : Lexing where
  tokens := lexing.tokens.map Token.unplaced
  error := lexing.error.map LexError.unplaced
  endLine := lexing.endLine

theorem Grouping.addTokens_unplaced {settings : ParseSettings} (g : Grouping)
    (tokens : List Token) :
    g.addTokens settings (tokens.map Token.unplaced) = g.addTokens settings tokens := by
  induction tokens generalizing g with
  | nil => rfl
  | cons t tokens ih =>
      have ht : g.addToken settings t.unplaced = g.addToken settings t := rfl
      rw [List.map_cons, addTokens, addTokens, ht]
      cases g.addToken settings t with
      | ok g => exact ih g
      | error fault => rfl

namespace Program

/-- The program that a lexing comes to, or its first fault. -/
def ofLexing (settings : ParseSettings) (lexing : Lexing) : Except Fault Program :=
  if settings.partsPerLine = 0 then .error .noParts
  else
    match Grouping.start.addTokens settings lexing.tokens, lexing.error with
    | .error fault, _ => .error fault
    | .ok _, some error => .error (.ofLexError error)
    | .ok g, none => g.finish settings

theorem ofSource_eq (settings : ParseSettings) (source : Bytes) :
    ofSource settings source = ofLexing settings (Lexing.ofSource source) :=
  rfl

/-- Offsets have no part in a program, nor in a fault. -/
theorem ofLexing_unplaced (settings : ParseSettings) (lexing : Lexing) :
    ofLexing settings lexing.unplaced = ofLexing settings lexing := by
  unfold ofLexing
  simp only [Lexing.unplaced, Grouping.addTokens_unplaced]
  cases Grouping.start.addTokens settings lexing.tokens <;> cases lexing.error <;> rfl

end Program

namespace Cursor

/-- The second cursor stands where the first one does, with carriage returns in the text ahead of
it. In front of a line feed it may have gone past the carriage return, and then it does not matter
whether a line begins. -/
inductive Follows (c c' : Cursor) : Prop
  | level (hrest : c'.rest = withReturns c.rest) (hline : c'.line = c.line)
      (hstart : c'.atLineStart = c.atLineStart)
  | atLineFeed {rest : Bytes} (hrest : c.rest = Byte.lineFeed :: rest)
      (hrest' : c'.rest = Byte.lineFeed :: withReturns rest) (hline : c'.line = c.line)

variable {source rest : Bytes} {c c' : Cursor}

theorem follows_ofSource (source : Bytes) :
    Follows (.ofSource source) (.ofSource (withReturns source)) :=
  .level rfl rfl rfl

theorem Follows.advance (hline : c'.line = c.line) (taken rest : Bytes) :
    Follows (c.advance taken rest) (c'.advance taken (withReturns rest)) :=
  .level rfl (congrArg (· + _) hline) rfl

theorem Follows.line_eq (h : Follows c c') : c'.line = c.line := by
  cases h with
  | level _ hline => exact hline
  | atLineFeed _ _ hline => exact hline

/-- Away from line ends the two stand level. -/
theorem Follows.of_ne {b : UInt8} (h : Follows c c') (hrest : c.rest = b :: rest)
    (hb : b ≠ Byte.lineFeed) :
    c'.rest = b :: withReturns rest ∧ c'.atLineStart = c.atLineStart := by
  cases h with
  | level hrest' _ hstart => exact ⟨by rw [hrest', hrest, withReturns_cons hb], hstart⟩
  | atLineFeed hother => exact absurd (List.cons.inj (hrest.symm.trans hother)).1 hb

/-- At a line feed the second cursor gets to the line feed over blanks at most. -/
theorem Follows.exists_newline (h : Follows c c') (hrest : c.rest = Byte.lineFeed :: rest) :
    ∃ next : Cursor, c'.lex = next.lex ∧ next.rest = Byte.lineFeed :: withReturns rest ∧
      next.line = c.line := by
  cases h with
  | level hrest' hline _ =>
      rw [hrest, withReturns_lineFeed] at hrest'
      exact ⟨_, lex_of_blank (Meets.space hrest' rfl rfl).step_eq, rfl, hline⟩
  | atLineFeed hother hrest' hline =>
      obtain rfl := (List.cons.inj (hrest.symm.trans hother)).2
      exact ⟨c', rfl, hrest', hline⟩

/-- A comment takes the carriage return along, up to the same line feed. -/
theorem Follows.comment (hline : c'.line = c.line) (rest : Bytes) :
    Follows (c.advance (Byte.hash :: rest.takeWhile (· != Byte.lineFeed))
        (rest.dropWhile (· != Byte.lineFeed)))
      (c'.advance (Byte.hash :: (withReturns rest).takeWhile (· != Byte.lineFeed))
        ((withReturns rest).dropWhile (· != Byte.lineFeed))) := by
  by_cases hmem : Byte.lineFeed ∈ rest
  · obtain ⟨line, behind, rfl, hnot⟩ := List.eq_append_cons_of_mem hmem
    have hnot' : Byte.lineFeed ∉ line ++ [Byte.carriageReturn] := by
      rw [List.mem_append, not_or]
      exact ⟨hnot, by decide⟩
    have htext : withReturns (line ++ Byte.lineFeed :: behind) =
        (line ++ [Byte.carriageReturn]) ++ Byte.lineFeed :: withReturns behind := by
      rw [withReturns_append hnot]
      simp
    obtain ⟨htake, hdrop⟩ := span_line hnot behind
    obtain ⟨htake', hdrop'⟩ := span_line hnot' (withReturns behind)
    rw [htext, htake, hdrop, htake', hdrop']
    refine .atLineFeed rfl rfl ?_
    rw [Cursor.advance, Cursor.advance, hline, ← List.cons_append, List.count_append]
    rfl
  · have hsame : withReturns rest = rest := by
      simpa using withReturns_append hmem []
    have hall : ∀ b ∈ rest, (b != Byte.lineFeed) = true :=
      fun b hb => bne_iff_ne.mpr (ne_of_mem_of_not_mem hb hmem)
    rw [hsame, List.dropWhile_eq_nil_iff.mpr hall]
    exact .level rfl (congrArg (· + _) hline) rfl

/-- The tokens of a span are the same but for their offsets. -/
theorem token_unplaced (hline : c'.line = c.line) (taken rest : Bytes) (kind : TokenKind)
    (text : Bytes) (isShared : Bool) :
    (c'.token (c'.advance taken (withReturns rest)) kind text isShared).unplaced =
      (c.token (c.advance taken rest) kind text isShared).unplaced := by
  simp [token, Token.unplaced, Cursor.advance, hline]

/-- The step of the second cursor that does what a step of the first one does. -/
inductive StepFollows : Step → Step → Prop
  | finished : StepFollows .finished .finished
  | blank {after after' : Cursor} (h : Follows after after') :
      StepFollows (.blank after) (.blank after')
  | token {t t' : Token} {after after' : Cursor} (ht : t'.unplaced = t.unplaced)
      (h : Follows after after') : StepFollows (.token t after) (.token t' after')
  | failed {error error' : LexError} {endLine : UInt32} (h : error'.unplaced = error.unplaced) :
      StepFollows (.failed error endLine) (.failed error' endLine)

/-- Whatever the first cursor meets, the second one meets as well, behind blanks at most. -/
theorem Follows.exists_step (h : Follows c c') (hunescaped : Unescaped c.rest) :
    ∃ (next : Cursor) (s : Step), c'.lex = next.lex ∧ next.line = c.line ∧ next.step = s ∧
      StepFollows c.step s := by
  have hline := h.line_eq
  have hmeets := meets_step c
  generalize c.step = s at hmeets
  cases hmeets with
  | finished hrest =>
      cases h with
      | level hrest' =>
          rw [hrest, withReturns_nil] at hrest'
          exact ⟨c', _, rfl, hline, step_of_nil hrest', .finished⟩
      | atLineFeed hother => simp [hrest] at hother
  | @directive rest next hrest hstart hafter =>
      obtain ⟨hrest', hstart'⟩ := h.of_ne hrest (by decide)
      obtain ⟨htake, hdrop⟩ := span_withReturns (p := Byte.isAlphanumeric) rfl rfl rest
      refine ⟨c', _, rfl, hline, (Meets.directive hrest' (hstart'.trans hstart) rfl).step_eq, ?_⟩
      rw [htake, hdrop, hafter]
      exact .token (token_unplaced hline ..) (.advance hline ..)
  | @newline rest next hrest hafter =>
      obtain ⟨behind, hlex, hrest', hline'⟩ := h.exists_newline hrest
      refine ⟨behind, _, hlex, hline', (Meets.newline hrest' rfl).step_eq, ?_⟩
      rw [hafter]
      refine .token ?_ (.level rfl (congrArg (· + _) hline') rfl)
      simp [token, Token.unplaced, Cursor.advance, hline']
  | @comment rest next hrest hafter =>
      obtain ⟨hrest', -⟩ := h.of_ne hrest (by decide)
      refine ⟨c', _, rfl, hline, (Meets.comment hrest' rfl).step_eq, ?_⟩
      rw [hafter]
      exact .blank (.comment hline rest)
  | @space b rest next hrest hspace hafter =>
      obtain ⟨hrest', -⟩ := h.of_ne hrest (Byte.ne_of_isInlineSpace hspace).2.1
      refine ⟨c', _, rfl, hline, (Meets.space hrest' hspace rfl).step_eq, ?_⟩
      rw [hafter]
      exact .blank (.advance hline ..)
  | @string quote body behind next hrest hquote hbody hafter =>
      have hquoteLine : quote ≠ Byte.lineFeed := (Byte.ne_of_isQuote hquote).2.1
      obtain ⟨hrest', -⟩ := h.of_ne hrest hquoteLine
      rw [hrest] at hunescaped
      rw [withReturns_append (hbody.lineFeed_notMem hquote (unescaped_cons.mp hunescaped).2),
        withReturns_cons hquoteLine] at hrest'
      refine ⟨c', _, rfl, hline, (Meets.string hrest' hquote hbody rfl).step_eq, ?_⟩
      rw [hafter]
      exact .token (token_unplaced hline ..) (.advance hline ..)
  | @unclosed quote rest body hrest hquote hscan =>
      obtain ⟨hrest', -⟩ := h.of_ne hrest (Byte.ne_of_isQuote hquote).2.1
      rw [hrest] at hunescaped
      have hunescaped := (unescaped_cons.mp hunescaped).2
      have hrest : (scanString quote (withReturns rest)).rest = none :=
        scanString_withReturns hquote hunescaped (congrArg StringScan.rest hscan)
      have hbody := lineFeed_notMem_body quote hunescaped
      have hbody' := lineFeed_notMem_body quote (unescaped_withReturns rest)
      rw [hscan] at hbody
      have hscan' : scanString quote (withReturns rest) =
          ⟨(scanString quote (withReturns rest)).body, none⟩ := by
        rw [← hrest]
      refine ⟨c', _, rfl, hline, (Meets.unclosed hrest' hquote hscan').step_eq, ?_⟩
      rw [List.count_eq_zero.mpr hbody, List.count_eq_zero.mpr hbody', hline]
      exact .failed rfl
  | @word b rest next hrest hword hquote hstart hafter =>
      obtain ⟨hrest', hstart'⟩ := h.of_ne hrest (Byte.ne_of_isWord hword).1
      obtain ⟨htake, hdrop⟩ := span_withReturns (p := Byte.isWord) rfl rfl rest
      refine ⟨c', _, rfl, hline,
        (Meets.word hrest' hword hquote (fun h => hstart (hstart'.symm.trans h)) rfl).step_eq, ?_⟩
      rw [htake, hdrop, hafter]
      exact .token (token_unplaced hline ..) (.advance hline ..)
  | @unexpected b rest hrest hword hquote hspace hnot hhash =>
      obtain ⟨hrest', -⟩ := h.of_ne hrest hnot
      refine ⟨c', _, rfl, hline,
        (Meets.unexpected hrest' hword hquote hspace hnot hhash).step_eq, ?_⟩
      rw [hline]
      exact .failed rfl

/-- Lexing the text with carriage returns yields the same tokens and the same error, but for their
offsets. -/
theorem Follows.lex_unplaced (h : Follows c c') (hat : At source c)
    (hunescaped : Unescaped source) : c'.lex.unplaced = c.lex.unplaced := by
  have hahead {c : Cursor} (hat : At source c) : Unescaped c.rest := by
    obtain ⟨taken, hsource, -⟩ := hat
    exact hunescaped.suffix ⟨taken, hsource.symm⟩
  fun_induction lex c generalizing c' with
  | case1 c hstep =>
      obtain ⟨next, s, hlex, hline, hnext, hfollows⟩ := h.exists_step (hahead hat)
      rw [hstep] at hfollows
      cases hfollows
      rw [hlex, lex_of_finished hnext, hline]
  | case2 c after hstep ih =>
      obtain ⟨next, s, hlex, -, hnext, hfollows⟩ := h.exists_step (hahead hat)
      rw [hstep] at hfollows
      cases hfollows with
      | blank hafter => rw [hlex, lex_of_blank hnext, ih hafter (hat.step (by rw [hstep]; rfl))]
  | case3 c t after hstep rest =>
      rename_i ih
      obtain ⟨next, s, hlex, -, hnext, hfollows⟩ := h.exists_step (hahead hat)
      rw [hstep] at hfollows
      cases hfollows with
      | @token t t' after after' ht hafter =>
          have hrest := ih hafter (hat.step (by rw [hstep]; rfl))
          rw [hlex, lex_of_token hnext]
          simp only [Lexing.unplaced, List.map_cons, Lexing.mk.injEq] at hrest ⊢
          exact ⟨by rw [ht, hrest.1], hrest.2⟩
  | case4 c error endLine hstep =>
      obtain ⟨next, s, hlex, -, hnext, hfollows⟩ := h.exists_step (hahead hat)
      rw [hstep] at hfollows
      cases hfollows with
      | failed herror =>
          rw [hlex, lex_of_failed hnext]
          simp [Lexing.unplaced, herror]

end Cursor

/-- It does not matter in which style lines end, as long as no line ends in a backslash: with a
carriage return in front of every line feed, a source is the same program or fails with the same
diagnostic. -/
theorem parseWith_withReturns {source : Bytes} (settings : ParseSettings)
    (h : ¬ [Byte.backslash, Byte.lineFeed] <:+: source) :
    Program.parseWith settings (withReturns source) = Program.parseWith settings source := by
  have hlexing : (Lexing.ofSource (withReturns source)).unplaced =
      (Lexing.ofSource source).unplaced :=
    (Cursor.follows_ofSource source).lex_unplaced (Cursor.at_ofSource source) h
  have hsource : Program.ofSource settings (withReturns source) =
      Program.ofSource settings source := by
    rw [Program.ofSource_eq, ← Program.ofLexing_unplaced, hlexing, Program.ofLexing_unplaced,
      Program.ofSource_eq]
  rw [Program.parseWith, hsource, Program.parseWith]

/-- Carriage returns behind a comment, a blank line, a string and a directive with a part, and one
more behind a line that has one already. -/
theorem parseWith_withReturns_block :
    ¬ [Byte.backslash, Byte.lineFeed] <:+: Bytes.ofString "?begin a # b\n\n'c \\''\n?end d\r\n" ∧
      withReturns (Bytes.ofString "?begin a # b\n\n'c \\''\n?end d\r\n") =
        Bytes.ofString "?begin a # b\r\n\r\n'c \\''\r\n?end d\r\r\n" ∧
      Program.parseWith {} (withReturns (Bytes.ofString "?begin a # b\n\n'c \\''\n?end d\r\n")) =
        .ok ⟨[⟨⟨unknownFile, 1⟩, ⟨[0x61], false, true⟩,
            [⟨[0x63, 0x20, 0x5c, 0x27], true, false⟩], by simp⟩,
          ⟨⟨unknownFile, 4⟩, ⟨[0x64], false, true⟩, [], by simp⟩]⟩ := by
  have hunescaped : ¬ [Byte.backslash, Byte.lineFeed] <:+:
      Bytes.ofString "?begin a # b\n\n'c \\''\n?end d\r\n" := by
    decide
  have hparse : Program.parseWith {} (Bytes.ofString "?begin a # b\n\n'c \\''\n?end d\r\n") =
      .ok ⟨[⟨⟨unknownFile, 1⟩, ⟨[0x61], false, true⟩,
          [⟨[0x63, 0x20, 0x5c, 0x27], true, false⟩], by simp⟩,
        ⟨⟨unknownFile, 4⟩, ⟨[0x64], false, true⟩, [], by simp⟩]⟩ := by
    decide +kernel
  exact ⟨hunescaped, by decide, (parseWith_withReturns {} hunescaped).trans hparse⟩

end CommandScript
