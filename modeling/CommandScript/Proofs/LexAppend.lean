import CommandScript.Proofs.Lexing
import Mathlib.Data.List.TakeWhile

/-!
Lexing two sources end to end. A source that ends with its last line and is lexed without an error
leaves the cursor as fresh as it was at the start, only further on. So the tokens of the two sources
are the tokens of the first and then those of the second, with their lines and offsets moved.
-/

namespace CommandScript

/-- The line so many lines below another. Line numbers end at the largest one. -/
def lineBelow (lines : Nat) (line : UInt32) : UInt32 :=
  lineNumber (line.toNat + lines)

theorem toNat_lineNumber (count : Nat) :
    (lineNumber count).toNat = min count (UInt32.size - 1) := by
  have hlt : min count (UInt32.size - 1) < UInt32.size :=
    Nat.lt_of_le_of_lt (Nat.min_le_right ..) (by decide)
  exact UInt32.toNat_ofNat_of_lt' hlt

theorem lineBelow_lineNumber (lines count : Nat) :
    lineBelow lines (lineNumber count) = lineNumber (count + lines) := by
  have hmin : min (min count (UInt32.size - 1) + lines) (UInt32.size - 1) =
      min (count + lines) (UInt32.size - 1) := by omega
  unfold lineBelow
  rw [toNat_lineNumber]
  unfold lineNumber
  rw [hmin]

def Token.below (bytes lines : Nat) (t : Token) : Token where
  kind := t.kind
  text := t.text
  line := lineBelow lines t.line
  start := t.start + bytes
  stop := t.stop + bytes
  isShared := t.isShared
  endLine := lineBelow lines t.endLine

def LexError.below (bytes lines : Nat) (error : LexError) : LexError :=
  ⟨error.kind, lineBelow lines error.line, error.offset + bytes⟩

def Lexing.below (bytes lines : Nat) (lexing : Lexing) : Lexing where
  tokens := lexing.tokens.map (Token.below bytes lines)
  error := lexing.error.map (LexError.below bytes lines)
  endLine := lineBelow lines lexing.endLine

namespace Cursor

/-! ### Further down -/

/-- The cursor at the same bytes further down in a source. -/
def below (bytes lines : Nat) (c : Cursor) : Cursor :=
  { c with offset := c.offset + bytes, line := c.line + lines }

def Step.below (bytes lines : Nat) : Step → Step
  | .finished => .finished
  | .blank after => .blank (after.below bytes lines)
  | .token t after => .token (t.below bytes lines) (after.below bytes lines)
  | .failed error endLine => .failed (error.below bytes lines) (lineBelow lines endLine)

variable {bytes lines : Nat} {c after : Cursor}

theorem advance_below (c : Cursor) (taken rest : Bytes) :
    (c.below bytes lines).advance taken rest = (c.advance taken rest).below bytes lines := by
  have hoffset : c.offset + bytes + taken.length = c.offset + taken.length + bytes := by omega
  have hline : c.line + lines + taken.count Byte.lineFeed =
      c.line + taken.count Byte.lineFeed + lines := by omega
  simp only [advance, below, hoffset, hline]

theorem token_below (c after : Cursor) (kind : TokenKind) (text : Bytes) (isShared : Bool) :
    (c.below bytes lines).token (after.below bytes lines) kind text isShared =
      (c.token after kind text isShared).below bytes lines := by
  simp only [token, below, Token.below, lineBelow_lineNumber]

/-- A step does not depend on how far down the cursor stands. -/
theorem step_below (c : Cursor) : (c.below bytes lines).step = c.step.below bytes lines := by
  apply Meets.step_eq
  have hmeets := meets_step c
  generalize c.step = s at hmeets
  cases hmeets with
  | finished hrest => exact .finished hrest
  | directive hrest hstart hafter =>
      rw [Step.below, ← token_below]
      refine Meets.directive (c := c.below bytes lines) hrest hstart ?_
      rw [advance_below, hafter]
  | newline hrest hafter =>
      rw [Step.below, ← token_below]
      refine Meets.newline (c := c.below bytes lines) hrest ?_
      rw [advance_below, hafter]
      rfl
  | comment hrest hafter =>
      refine Meets.comment (c := c.below bytes lines) hrest ?_
      rw [advance_below, hafter]
  | space hrest hspace hafter =>
      refine Meets.space (c := c.below bytes lines) hrest hspace ?_
      rw [advance_below, hafter]
  | string hrest hquote hbody hafter =>
      rw [Step.below, ← token_below]
      refine Meets.string (c := c.below bytes lines) hrest hquote hbody ?_
      rw [advance_below, hafter]
  | @unclosed quote rest body hrest hquote hscan =>
      have hend : c.line + body.count Byte.lineFeed + lines =
          c.line + lines + body.count Byte.lineFeed := by omega
      rw [Step.below, LexError.below, lineBelow_lineNumber, lineBelow_lineNumber, hend]
      exact .unclosed hrest hquote hscan
  | word hrest hword hquote hstart hafter =>
      rw [Step.below, ← token_below]
      refine Meets.word (c := c.below bytes lines) hrest hword hquote hstart ?_
      rw [advance_below, hafter]
  | unexpected hrest hword hquote hspace hline hhash =>
      rw [Step.below, LexError.below, lineBelow_lineNumber]
      exact .unexpected hrest hword hquote hspace hline hhash

theorem lex_below (c : Cursor) : (c.below bytes lines).lex = c.lex.below bytes lines := by
  fun_induction lex c with
  | case1 c h =>
      have hstep : (c.below bytes lines).step = .finished := by rw [step_below, h, Step.below]
      rw [lex_of_finished hstep]
      simp [Lexing.below, below, lineBelow_lineNumber]
  | case2 c after h ih =>
      have hstep : (c.below bytes lines).step = .blank (after.below bytes lines) := by
        rw [step_below, h, Step.below]
      rw [lex_of_blank hstep, ih]
  | case3 c t after h rest ih =>
      have hstep : (c.below bytes lines).step =
          .token (t.below bytes lines) (after.below bytes lines) := by
        rw [step_below, h, Step.below]
      rw [lex_of_token hstep, ih]
      rfl
  | case4 c error endLine h =>
      have hstep : (c.below bytes lines).step =
          .failed (error.below bytes lines) (lineBelow lines endLine) := by
        rw [step_below, h, Step.below]
      rw [lex_of_failed hstep]
      rfl

/-! ### More bytes behind -/

/-- The cursor with more bytes behind those ahead. -/
def extend (c : Cursor) (more : Bytes) : Cursor :=
  { c with rest := c.rest ++ more }

/-- The bytes ahead end with a line, and where there are none, a line has just ended. -/
def EndsLine (c : Cursor) : Prop :=
  if c.rest = [] then c.atLineStart = true else c.rest.getLast? = some Byte.lineFeed

theorem EndsLine.getLast? (h : c.EndsLine) (hne : c.rest ≠ []) :
    c.rest.getLast? = some Byte.lineFeed := by
  unfold EndsLine at h
  rwa [if_neg hne] at h

/-- What does not end in a line feed itself leaves the line end ahead. -/
theorem EndsLine.advance {taken rest : Bytes} (h : c.EndsLine) (hrest : c.rest = taken ++ rest)
    (hne : taken ≠ []) (htaken : taken.getLast? ≠ some Byte.lineFeed) :
    (c.advance taken rest).EndsLine := by
  have hlast := h.getLast? (by simp [hrest, hne])
  rw [hrest, List.getLast?_append] at hlast
  cases hend : rest.getLast? with
  | none =>
      rw [hend, Option.none_or] at hlast
      exact absurd hlast htaken
  | some last =>
      rw [hend, Option.some_or] at hlast
      have hnil : rest ≠ [] := by
        intro hnil
        simp [hnil] at hend
      have hahead : (c.advance taken rest).rest = rest := rfl
      unfold EndsLine
      rw [hahead, if_neg hnil, hend, hlast]

/-- The line feed leads to the start of the next line. -/
theorem EndsLine.newline {rest : Bytes} (h : c.EndsLine) (hrest : c.rest = Byte.lineFeed :: rest) :
    EndsLine { c.advance [Byte.lineFeed] rest with atLineStart := true } := by
  change if rest = [] then true = true else rest.getLast? = some Byte.lineFeed
  split
  · rfl
  · rename_i hne
    have hlast := h.getLast? (by simp [hrest])
    rwa [hrest, List.getLast?_cons_of_ne_nil hne] at hlast

theorem EndsLine.mem_tail {b : UInt8} {rest : Bytes} (h : c.EndsLine) (hrest : c.rest = b :: rest)
    (hb : b ≠ Byte.lineFeed) : Byte.lineFeed ∈ rest := by
  have hlast := h.getLast? (by simp [hrest])
  have hmem := List.mem_of_getLast? hlast
  rw [hrest] at hmem
  rcases List.mem_cons.mp hmem with heq | hmem
  · exact absurd heq.symm hb
  · exact hmem

/-- A span without line feeds ends before the line does, whatever follows. -/
theorem span_append {p : UInt8 → Bool} {rest : Bytes} (more : Bytes) (h : Byte.lineFeed ∈ rest)
    (hp : p Byte.lineFeed = false) :
    (rest ++ more).takeWhile p = rest.takeWhile p ∧
      (rest ++ more).dropWhile p = rest.dropWhile p ++ more := by
  have hnotMem : Byte.lineFeed ∉ rest.takeWhile p := by
    intro hmem
    have htrue := List.mem_takeWhile_imp hmem
    rw [hp] at htrue
    cases htrue
  have hlength : (rest.takeWhile p).length ≠ rest.length := by
    intro hlength
    apply hnotMem
    rw [(List.takeWhile_prefix p).eq_of_length hlength]
    exact h
  have hdrop : ¬ (rest.dropWhile p).isEmpty = true := by
    intro hempty
    apply hnotMem
    have hsplit := List.takeWhile_append_dropWhile (p := p) (l := rest)
    rw [List.isEmpty_iff.mp hempty, List.append_nil] at hsplit
    rw [hsplit]
    exact h
  constructor
  · rw [List.takeWhile_append, if_neg hlength]
  · rw [List.dropWhile_append, if_neg hdrop]

theorem getLast?_span {p : UInt8 → Bool} {b : UInt8} (rest : Bytes) (hb : b ≠ Byte.lineFeed)
    (hp : p Byte.lineFeed = false) : (b :: rest.takeWhile p).getLast? ≠ some Byte.lineFeed := by
  intro hlast
  rcases List.mem_cons.mp (List.mem_of_getLast? hlast) with heq | hmem
  · exact hb heq.symm
  · have htrue := List.mem_takeWhile_imp hmem
    rw [hp] at htrue
    cases htrue

/-- Bytes without a line feed are spanned in the same way, whatever follows the line, and the line
end is still ahead behind them. -/
theorem EndsLine.span {p : UInt8 → Bool} {b : UInt8} {rest : Bytes} (h : c.EndsLine)
    (hrest : c.rest = b :: rest) (hb : b ≠ Byte.lineFeed) (hp : p Byte.lineFeed = false)
    (hafter : after = c.advance (b :: rest.takeWhile p) (rest.dropWhile p)) (more : Bytes) :
    (rest ++ more).takeWhile p = rest.takeWhile p ∧
      after.extend more = (c.extend more).advance (b :: (rest ++ more).takeWhile p)
        ((rest ++ more).dropWhile p) ∧
      after.EndsLine := by
  obtain ⟨htake, hdrop⟩ := span_append more (h.mem_tail hrest hb) hp
  refine ⟨htake, ?_, ?_⟩
  · rw [htake, hdrop, hafter]
    rfl
  · rw [hafter]
    apply h.advance _ (by simp) (getLast?_span rest hb hp)
    rw [hrest, List.cons_append, List.takeWhile_append_dropWhile]

theorem rest_extend {b : UInt8} {rest : Bytes} (more : Bytes) (hrest : c.rest = b :: rest) :
    (c.extend more).rest = b :: (rest ++ more) := by
  rw [extend, hrest, List.cons_append]

def Step.extend (more : Bytes) : Step → Step
  | .finished => .finished
  | .blank after => .blank (after.extend more)
  | .token t after => .token t (after.extend more)
  | .failed error endLine => .failed error endLine

/-- Up to the end of a line, a step does not see what follows. -/
theorem step_extend (more : Bytes) (h : c.EndsLine) (hafter : c.step.after? = some after) :
    (c.extend more).step = c.step.extend more ∧ after.EndsLine := by
  have hmeets := meets_step c
  generalize c.step = s at hmeets hafter
  cases hmeets with
  | finished => simp [Step.after?] at hafter
  | unclosed => simp [Step.after?] at hafter
  | unexpected => simp [Step.after?] at hafter
  | @directive rest next hrest hstart hnext =>
      obtain rfl : next = after := Option.some.inj hafter
      obtain ⟨htake, hnext', hends⟩ := h.span hrest (by decide) (by decide) hnext more
      have hstep := (Meets.directive (rest_extend more hrest) hstart hnext').step_eq
      rw [htake] at hstep
      exact ⟨hstep, hends⟩
  | @newline rest next hrest hnext =>
      obtain rfl : next = after := Option.some.inj hafter
      have hnext' : next.extend more =
          { (c.extend more).advance [Byte.lineFeed] (rest ++ more) with atLineStart := true } := by
        rw [hnext]
        rfl
      refine ⟨(Meets.newline (rest_extend more hrest) hnext').step_eq, ?_⟩
      rw [hnext]
      exact h.newline hrest
  | @comment rest next hrest hnext =>
      obtain rfl : next = after := Option.some.inj hafter
      obtain ⟨-, hnext', hends⟩ := h.span hrest (by decide) (by decide) hnext more
      exact ⟨(Meets.comment (rest_extend more hrest) hnext').step_eq, hends⟩
  | @space b rest next hrest hspace hnext =>
      obtain rfl : next = after := Option.some.inj hafter
      have hnext' : next.extend more = (c.extend more).advance [b] (rest ++ more) := by
        rw [hnext]
        rfl
      refine ⟨(Meets.space (rest_extend more hrest) hspace hnext').step_eq, ?_⟩
      have hb : b ≠ Byte.lineFeed := (Byte.ne_of_isInlineSpace hspace).2.1
      rw [hnext]
      exact h.advance hrest (by simp) (by simpa using hb)
  | @string quote body behind next hrest hquote hbody hnext =>
      obtain rfl : next = after := Option.some.inj hafter
      have hrest' : (c.extend more).rest = quote :: (body ++ quote :: (behind ++ more)) := by
        simp [extend, hrest]
      have hnext' : next.extend more =
          (c.extend more).advance (quote :: body ++ [quote]) (behind ++ more) := by
        rw [hnext]
        rfl
      refine ⟨(Meets.string hrest' hquote hbody hnext').step_eq, ?_⟩
      have hb : quote ≠ Byte.lineFeed := (Byte.ne_of_isQuote hquote).2.1
      have hlast : (quote :: body ++ [quote]).getLast? ≠ some Byte.lineFeed := by
        rw [List.getLast?_concat]
        simpa using hb
      rw [hnext]
      exact h.advance (by simp [hrest]) (by simp) hlast
  | @word b rest next hrest hword hquote hstart hnext =>
      obtain rfl : next = after := Option.some.inj hafter
      obtain ⟨htake, hnext', hends⟩ :=
        h.span hrest (Byte.ne_of_isWord hword).1 (by decide) hnext more
      have hstep := (Meets.word (rest_extend more hrest) hword hquote hstart hnext').step_eq
      rw [htake] at hstep
      exact ⟨hstep, hends⟩

theorem atLineStart_of_blank (h : c.step = .blank after) : after.atLineStart = false := by
  have hmeets := meets_step c
  rw [h] at hmeets
  cases hmeets with
  | comment _ hafter => rw [hafter]; rfl
  | space _ _ hafter => rw [hafter]; rfl

/-- Only a line feed leads to the start of a line. -/
theorem kind_of_atLineStart {t : Token} (h : c.step = .token t after)
    (hstart : after.atLineStart = true) : t.kind = .newline := by
  have hmeets := meets_step c
  rw [h] at hmeets
  cases hmeets with
  | directive _ _ hafter => rw [hafter] at hstart; cases hstart
  | newline => rfl
  | string _ _ _ hafter => rw [hafter] at hstart; cases hstart
  | word _ _ _ _ hafter => rw [hafter] at hstart; cases hstart

/-- A lexing that gets to the end of the last line goes on at the start of the next one with
whatever follows. -/
theorem reads_extend {source : Bytes} (more : Bytes) (hat : At source c) (hend : c.EndsLine)
    (hok : c.lex.error = none) :
    Reads (c.extend more) c.lex.tokens
      ⟨more, source.length, source.count Byte.lineFeed + 1, true⟩ := by
  fun_induction lex c with
  | case1 c h =>
      obtain ⟨taken, hsource, hoffset, hline⟩ := hat
      have hnil : c.rest = [] := by
        have hmeets := meets_step c
        rw [h] at hmeets
        cases hmeets
        assumption
      have hstart : c.atLineStart = true := by
        unfold EndsLine at hend
        rwa [if_pos hnil] at hend
      rw [hnil, List.append_nil] at hsource
      have hplace : c.extend more =
          ⟨more, source.length, source.count Byte.lineFeed + 1, true⟩ := by
        rw [extend, hnil, List.nil_append, hoffset, hline, hstart, hsource]
      rw [hplace]
      rfl
  | case2 c after h ih =>
      have hafter : c.step.after? = some after := by rw [h]; rfl
      obtain ⟨hstep, hends⟩ := step_extend more hend hafter
      rw [h] at hstep
      exact (reads_blank hstep).trans (ih (hat.step hafter) hends hok)
  | case3 c t after h rest ih =>
      have hafter : c.step.after? = some after := by rw [h]; rfl
      obtain ⟨hstep, hends⟩ := step_extend more hend hafter
      rw [h] at hstep
      exact (reads_token hstep).trans (ih (hat.step hafter) hends hok)
  | case4 c error endLine h => cases hok

/-- Such a lexing ends with the token of a line feed. -/
theorem exists_last_newline (hend : c.EndsLine) (hok : c.lex.error = none) (hne : c.rest ≠ []) :
    ∃ init t, c.lex.tokens = init ++ [t] ∧ t.kind = .newline := by
  fun_induction lex c with
  | case1 c h =>
      have hmeets := meets_step c
      rw [h] at hmeets
      cases hmeets
      contradiction
  | case2 c after h ih =>
      have hafter : c.step.after? = some after := by rw [h]; rfl
      have hends := (step_extend [] hend hafter).2
      apply ih hends hok
      intro hnil
      rw [EndsLine, if_pos hnil, atLineStart_of_blank h] at hends
      cases hends
  | case3 c t after h rest ih =>
      have hafter : c.step.after? = some after := by rw [h]; rfl
      have hends := (step_extend [] hend hafter).2
      by_cases hnil : after.rest = []
      · have hstart : after.atLineStart = true := by rwa [EndsLine, if_pos hnil] at hends
        have htokens : after.lex.tokens = [] := by
          rw [lex_of_finished (step_of_nil hnil)]
        exact ⟨[], t, by simp [rest, htokens], kind_of_atLineStart h hstart⟩
      · obtain ⟨init, last, htokens, hkind⟩ := ih hends hok hnil
        exact ⟨t :: init, last, by simp [rest, htokens], hkind⟩
  | case4 c error endLine h => cases hok

end Cursor

namespace Lexing

variable {first : Bytes}

theorem endsLine_ofSource (hend : first = [] ∨ first.getLast? = some Byte.lineFeed) :
    (Cursor.ofSource first).EndsLine := by
  unfold Cursor.EndsLine
  split
  · rfl
  · rename_i hne
    exact hend.resolve_left hne

/-- Behind a source that is lexed to the end of its last line, another is lexed as if it stood
alone, but for its place. -/
theorem ofSource_append (second : Bytes)
    (hend : first = [] ∨ first.getLast? = some Byte.lineFeed)
    (hok : (ofSource first).error = none) :
    ofSource (first ++ second) =
      { (ofSource second).below first.length (first.count Byte.lineFeed) with
        tokens := (ofSource first).tokens ++
          (ofSource second).tokens.map
            (Token.below first.length (first.count Byte.lineFeed)) } := by
  have hreads := Cursor.reads_extend second (Cursor.at_ofSource first) (endsLine_ofSource hend) hok
  have hplace : (⟨second, first.length, first.count Byte.lineFeed + 1, true⟩ : Cursor) =
      (Cursor.ofSource second).below first.length (first.count Byte.lineFeed) := by
    simp [Cursor.ofSource, Cursor.below, Nat.add_comm]
  rw [hplace] at hreads
  unfold Cursor.Reads at hreads
  rw [Cursor.lex_below] at hreads
  exact hreads

/-- The tokens of such a source are none, or the last one is a line feed. -/
theorem tokens_cases (hend : first = [] ∨ first.getLast? = some Byte.lineFeed)
    (hok : (ofSource first).error = none) :
    (ofSource first).tokens = [] ∨
      ∃ init t, (ofSource first).tokens = init ++ [t] ∧ t.kind = .newline := by
  by_cases hnil : first = []
  · left
    rw [ofSource, Cursor.lex_of_finished (Cursor.step_of_nil hnil)]
  · right
    exact Cursor.exists_last_newline (endsLine_ofSource hend) hok hnil

end Lexing

end CommandScript
