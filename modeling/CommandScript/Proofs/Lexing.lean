import CommandScript.Proofs.Quoting

/-!
What a cursor can meet, and what holds along a whole lexing. `Meets` lists the cases of one step
with everything a step does in them; `lex_induction` carries an invariant of cursors to all tokens
and to the error. As a first use, every error is found at a byte of the source that explains it, on
the line that byte stands on.
-/

namespace CommandScript

/-- Words start with no byte that begins a blank or ends a line. -/
theorem Byte.ne_of_isWord {b : UInt8} (h : Byte.isWord b = true) :
    b ≠ Byte.lineFeed ∧ b ≠ Byte.hash ∧ Byte.isInlineSpace b = false := by
  have hexcluded : ∀ other ∈ [Byte.lineFeed, Byte.hash, Byte.space, Byte.tab, Byte.verticalTab,
      Byte.formFeed, Byte.carriageReturn], b ≠ other := by
    rintro other hother rfl
    have hspaces : ∀ other ∈ [Byte.lineFeed, Byte.hash, Byte.space, Byte.tab, Byte.verticalTab,
        Byte.formFeed, Byte.carriageReturn], Byte.isWord other = false :=
      List.all_iff_forall_prop.mp (by decide)
    rw [hspaces b hother] at h
    cases h
  simp only [List.forall_mem_cons] at hexcluded
  obtain ⟨hline, hhash, hspace, htab, hvertical, hform, hreturn, -⟩ := hexcluded
  refine ⟨hline, hhash, ?_⟩
  simp [Byte.isInlineSpace, hspace, htab, hvertical, hform, hreturn]

theorem Byte.ne_of_isInlineSpace {b : UInt8} (h : Byte.isInlineSpace b = true) :
    b ≠ Byte.questionMark ∧ b ≠ Byte.lineFeed ∧ b ≠ Byte.hash := by
  refine ⟨?_, ?_, ?_⟩ <;> rintro rfl <;> exact absurd h (by decide)

theorem Byte.ne_of_isQuote {b : UInt8} (h : Byte.isQuote b = true) :
    b ≠ Byte.questionMark ∧ b ≠ Byte.lineFeed ∧ b ≠ Byte.hash ∧ Byte.isInlineSpace b = false := by
  obtain ⟨rfl | rfl, -, -⟩ := quote_bytes h <;> decide

/-- A word ends in front of these bytes: there are none, or the first one belongs to no word. -/
def EndsWord (behind : Bytes) : Prop :=
  ∀ b ∈ behind.head?, Byte.isWord b = false

theorem EndsWord.span {behind : Bytes} (h : EndsWord behind) :
    behind.takeWhile Byte.isWord = [] ∧ behind.dropWhile Byte.isWord = behind := by
  cases behind with
  | nil => simp
  | cons b behind =>
      have hb : Byte.isWord b = false := h b rfl
      simp [hb]

namespace Cursor

/-- All that can lie right ahead of a cursor, with the step it leads to. -/
inductive Meets (c : Cursor) : Step → Prop
  | finished (hrest : c.rest = []) : Meets c .finished
  | directive {rest : Bytes} {after : Cursor} (hrest : c.rest = Byte.questionMark :: rest)
      (hstart : c.atLineStart = true)
      (hafter : after = c.advance (Byte.questionMark :: rest.takeWhile Byte.isAlphanumeric)
        (rest.dropWhile Byte.isAlphanumeric)) :
      Meets c (.token (c.token after .directive (rest.takeWhile Byte.isAlphanumeric) true) after)
  | newline {rest : Bytes} {after : Cursor} (hrest : c.rest = Byte.lineFeed :: rest)
      (hafter : after = { c.advance [Byte.lineFeed] rest with atLineStart := true }) :
      Meets c (.token (c.token after .newline [Byte.lineFeed] true) after)
  | comment {rest : Bytes} {after : Cursor} (hrest : c.rest = Byte.hash :: rest)
      (hafter : after = c.advance (Byte.hash :: rest.takeWhile (· != Byte.lineFeed))
        (rest.dropWhile (· != Byte.lineFeed))) :
      Meets c (.blank after)
  | space {b : UInt8} {rest : Bytes} {after : Cursor} (hrest : c.rest = b :: rest)
      (hb : Byte.isInlineSpace b = true) (hafter : after = c.advance [b] rest) :
      Meets c (.blank after)
  | string {quote : UInt8} {body behind : Bytes} {after : Cursor}
      (hrest : c.rest = quote :: (body ++ quote :: behind)) (hquote : Byte.isQuote quote = true)
      (hbody : StringBody quote body)
      (hafter : after = c.advance (quote :: body ++ [quote]) behind) :
      Meets c (.token (c.token after .string (Escape.unescape body)
        (!body.contains Byte.backslash)) after)
  | unclosed {quote : UInt8} {rest body : Bytes} (hrest : c.rest = quote :: rest)
      (hquote : Byte.isQuote quote = true) (hscan : scanString quote rest = ⟨body, none⟩) :
      Meets c (.failed ⟨.unclosedString, lineNumber c.line, c.offset⟩
        (lineNumber (c.line + body.count Byte.lineFeed)))
  | word {b : UInt8} {rest : Bytes} {after : Cursor} (hrest : c.rest = b :: rest)
      (hword : Byte.isWord b = true) (hquote : Byte.isQuote b = false)
      (hstart : c.atLineStart = true → b ≠ Byte.questionMark)
      (hafter : after = c.advance (b :: rest.takeWhile Byte.isWord)
        (rest.dropWhile Byte.isWord)) :
      Meets c (.token (c.token after .word (b :: rest.takeWhile Byte.isWord) true) after)
  | unexpected {b : UInt8} {rest : Bytes} (hrest : c.rest = b :: rest)
      (hword : Byte.isWord b = false) (hquote : Byte.isQuote b = false)
      (hspace : Byte.isInlineSpace b = false) (hline : b ≠ Byte.lineFeed)
      (hhash : b ≠ Byte.hash) :
      Meets c (.failed ⟨.unexpectedByte b, lineNumber c.line, c.offset⟩ (lineNumber c.line))

theorem meets_step (c : Cursor) : Meets c c.step := by
  unfold step
  split
  · exact .finished ‹_›
  · rename_i b rest hrest
    split
    · rename_i hb
      obtain ⟨hstart, rfl⟩ : c.atLineStart = true ∧ b = Byte.questionMark := by simpa using hb
      exact .directive hrest hstart rfl
    rename_i hstart
    split
    · rename_i hb
      obtain rfl : b = Byte.lineFeed := by simpa using hb
      exact .newline hrest rfl
    rename_i hline
    split
    · rename_i hb
      obtain rfl : b = Byte.hash := by simpa using hb
      exact .comment hrest rfl
    rename_i hhash
    split
    · exact .space hrest ‹_› rfl
    rename_i hspace
    split
    · rename_i hquote
      split
      · rename_i body behind hscan
        obtain ⟨hbytes, hbody⟩ := stringBody_of_scanString hscan
        exact .string (hrest.trans (congrArg (b :: ·) hbytes)) hquote hbody rfl
      · exact .unclosed hrest hquote ‹_›
    rename_i hquote
    split
    · refine .word hrest ‹_› (by simpa using hquote) ?_ rfl
      intro hatStart hb
      simp [hatStart, hb] at hstart
    · rename_i hword
      exact .unexpected hrest (by simpa using hword) (by simpa using hquote)
        (by simpa using hspace) (by simpa using hline) (by simpa using hhash)

/-- The step is settled by what lies ahead. -/
theorem Meets.step_eq {c : Cursor} {s : Step} (h : Meets c s) : c.step = s := by
  cases h with
  | finished hrest => simp [step, hrest]
  | directive hrest hstart hafter => simp [step, hrest, hstart, hafter]
  | newline hrest hafter =>
      have hquestion : (Byte.lineFeed == Byte.questionMark) = false := rfl
      simp [step, hrest, hquestion, hafter]
  | comment hrest hafter =>
      have hquestion : (Byte.hash == Byte.questionMark) = false := rfl
      have hline : (Byte.hash == Byte.lineFeed) = false := rfl
      simp [step, hrest, hquestion, hline, hafter]
  | space hrest hspace hafter =>
      obtain ⟨hquestion, hline, hhash⟩ := Byte.ne_of_isInlineSpace hspace
      simp [step, hrest, hquestion, hline, hhash, hspace, hafter]
  | string hrest hquote hbody hafter =>
      obtain ⟨hquestion, hline, hhash, hspace⟩ := Byte.ne_of_isQuote hquote
      simp [step, hrest, hquestion, hline, hhash, hspace, hquote, scanString_body hquote hbody,
        hafter]
  | unclosed hrest hquote hscan =>
      obtain ⟨hquestion, hline, hhash, hspace⟩ := Byte.ne_of_isQuote hquote
      simp [step, hrest, hquestion, hline, hhash, hspace, hquote, hscan]
  | @word b _ _ hrest hword hquote hstart hafter =>
      obtain ⟨hline, hhash, hspace⟩ := Byte.ne_of_isWord hword
      have hdirective : ¬ (c.atLineStart = true ∧ b = Byte.questionMark) :=
        fun h => hstart h.1 h.2
      simp [step, hrest, hdirective, hline, hhash, hspace, hquote, hword, hafter]
  | @unexpected b _ hrest hword hquote hspace hline hhash =>
      have hquestion : b ≠ Byte.questionMark := by
        rintro rfl
        exact absurd hword (by decide)
      simp [step, hrest, hquestion, hline, hhash, hspace, hquote, hword]

/-! ### Steps by what lies ahead -/

theorem step_of_nil {c : Cursor} (hrest : c.rest = []) : c.step = .finished := by
  simp [step, hrest]

theorem step_of_newline {c : Cursor} {rest : Bytes} (hrest : c.rest = Byte.lineFeed :: rest) :
    ∃ after, c.step = .token (c.token after .newline [Byte.lineFeed] true) after ∧
      after = { c.advance [Byte.lineFeed] rest with atLineStart := true } :=
  ⟨_, (Meets.newline hrest rfl).step_eq, rfl⟩

theorem step_of_space {c : Cursor} {rest : Bytes} (hrest : c.rest = Byte.space :: rest) :
    c.step = .blank (c.advance [Byte.space] rest) :=
  (Meets.space hrest rfl rfl).step_eq

/-- Contents between their quotes are one string. -/
theorem step_of_string {c : Cursor} {quote : UInt8} {body behind : Bytes}
    (hrest : c.rest = quote :: (body ++ quote :: behind)) (hquote : Byte.isQuote quote = true)
    (hbody : StringBody quote body) :
    ∃ after, c.step = .token (c.token after .string (Escape.unescape body)
        (!body.contains Byte.backslash)) after ∧
      after = c.advance (quote :: body ++ [quote]) behind :=
  ⟨_, (Meets.string hrest hquote hbody rfl).step_eq, rfl⟩

/-- Bytes of a word are one word where it ends behind them. At the start of a line the question mark
would make them a directive. -/
theorem step_of_word {c : Cursor} {b : UInt8} {word rest : Bytes}
    (hrest : c.rest = b :: (word ++ rest)) (hb : Byte.isWord b = true)
    (hquote : Byte.isQuote b = false) (hword : ∀ b ∈ word, Byte.isWord b = true)
    (hends : EndsWord rest) (hstart : c.atLineStart = true → b ≠ Byte.questionMark) :
    ∃ after, c.step = .token (c.token after .word (b :: word) true) after ∧
      after = c.advance (b :: word) rest := by
  have htake : (word ++ rest).takeWhile Byte.isWord = word := by
    rw [List.takeWhile_append_of_pos hword, hends.span.1, List.append_nil]
  have hdrop : (word ++ rest).dropWhile Byte.isWord = rest := by
    rw [List.dropWhile_append_of_pos hword, hends.span.2]
  have hstep := (Meets.word hrest hb hquote hstart rfl).step_eq
  rw [htake, hdrop] at hstep
  exact ⟨_, hstep, rfl⟩

/-! ### Whole lexings -/

theorem lex_of_finished {c : Cursor} (h : c.step = .finished) :
    c.lex = ⟨[], none, lineNumber c.line⟩ := by
  rw [lex]
  split <;> simp_all

theorem lex_of_blank {c after : Cursor} (h : c.step = .blank after) : c.lex = after.lex := by
  rw [lex]
  split <;> simp_all

theorem lex_of_token {c after : Cursor} {token : Token} (h : c.step = .token token after) :
    c.lex = { after.lex with tokens := token :: after.lex.tokens } := by
  rw [lex]
  split <;> simp_all

theorem lex_of_failed {c : Cursor} {error : LexError} {endLine : UInt32}
    (h : c.step = .failed error endLine) : c.lex = ⟨[], some error, endLine⟩ := by
  rw [lex]
  split <;> simp_all

/-- Lexing from one cursor yields these tokens and goes on at the other. -/
def Reads (c : Cursor) (tokens : List Token) (after : Cursor) : Prop :=
  c.lex = { after.lex with tokens := tokens ++ after.lex.tokens }

theorem reads_blank {c after : Cursor} (h : c.step = .blank after) : Reads c [] after :=
  lex_of_blank h

theorem reads_token {c after : Cursor} {token : Token} (h : c.step = .token token after) :
    Reads c [token] after :=
  lex_of_token h

theorem Reads.trans {c after final : Cursor} {tokens others : List Token}
    (h : Reads c tokens after) (hothers : Reads after others final) :
    Reads c (tokens ++ others) final := by
  unfold Reads at h hothers ⊢
  rw [h, hothers, List.append_assoc]

/-- What steps keep of cursors, tokens and errors holds along the whole lexing. -/
theorem lex_induction {I : Cursor → Prop} {P : Token → Prop} {E : LexError → Prop}
    (hafter : ∀ c after : Cursor, I c → c.step.after? = some after → I after)
    (htoken : ∀ c after token, I c → c.step = .token token after → P token)
    (herror : ∀ c error endLine, I c → c.step = .failed error endLine → E error)
    {c : Cursor} (hc : I c) :
    (∀ token ∈ c.lex.tokens, P token) ∧ (∀ error ∈ c.lex.error, E error) := by
  fun_induction lex c with
  | case1 c h => simp
  | case2 c after h ih => exact ih (hafter c after hc (by rw [h]; rfl))
  | case3 c token after h rest ih =>
      obtain ⟨htokens, herrors⟩ := ih (hafter c after hc (by rw [h]; rfl))
      refine ⟨?_, herrors⟩
      intro other hother
      rcases List.mem_cons.mp hother with rfl | hother
      · exact htoken c after other hc h
      · exact htokens other hother
  | case4 c error endLine h =>
      refine ⟨by simp, ?_⟩
      intro other hother
      obtain rfl : error = other := by simpa using hother
      exact herror c error endLine hc h

/-! ### Places in the source -/

/-- The cursor stands in the source, and its offset and line count what lies behind it. -/
def At (source : Bytes) (c : Cursor) : Prop :=
  ∃ taken, source = taken ++ c.rest ∧ c.offset = taken.length ∧
    c.line = taken.count Byte.lineFeed + 1

theorem at_ofSource (source : Bytes) : At source (ofSource source) :=
  ⟨[], rfl, rfl, rfl⟩

theorem At.advance {source taken rest : Bytes} {c : Cursor} (h : At source c)
    (hrest : c.rest = taken ++ rest) : At source (c.advance taken rest) := by
  obtain ⟨before, hsource, hoffset, hline⟩ := h
  refine ⟨before ++ taken, ?_, ?_, ?_⟩
  · rw [hsource, hrest, List.append_assoc]
    rfl
  · simp [Cursor.advance, hoffset]
  · simp only [Cursor.advance, hline, List.count_append]
    omega

theorem At.step {source : Bytes} {c after : Cursor} (h : At source c)
    (hafter : c.step.after? = some after) : At source after := by
  generalize hstep : c.step = step at hafter
  have hmeets := meets_step c
  rw [hstep] at hmeets
  cases hmeets with
  | finished => simp [Step.after?] at hafter
  | directive hrest _ heq =>
      obtain rfl : _ = after := by simpa [Step.after?] using hafter
      rw [heq]
      exact h.advance (by rw [hrest, List.cons_append, List.takeWhile_append_dropWhile])
  | newline hrest heq =>
      obtain rfl : _ = after := by simpa [Step.after?] using hafter
      rw [heq]
      exact h.advance hrest
  | comment hrest heq =>
      obtain rfl : _ = after := by simpa [Step.after?] using hafter
      rw [heq]
      exact h.advance (by rw [hrest, List.cons_append, List.takeWhile_append_dropWhile])
  | space hrest _ heq =>
      obtain rfl : _ = after := by simpa [Step.after?] using hafter
      rw [heq]
      exact h.advance hrest
  | string hrest _ _ heq =>
      obtain rfl : _ = after := by simpa [Step.after?] using hafter
      rw [heq]
      exact h.advance (by rw [hrest]; simp)
  | unclosed => simp [Step.after?] at hafter
  | word hrest _ _ _ heq =>
      obtain rfl : _ = after := by simpa [Step.after?] using hafter
      rw [heq]
      exact h.advance (by rw [hrest, List.cons_append, List.takeWhile_append_dropWhile])
  | unexpected => simp [Step.after?] at hafter

end Cursor

/-- The byte that an error of lexing is about: a quote that its line does not close, or a byte that
begins nothing. -/
def LexErrorKind.Blames : LexErrorKind → UInt8 → Prop
  | .unclosedString, b => Byte.isQuote b = true
  | .unexpectedByte byte, b => byte = b

/-- An error of lexing stands at a byte of the source that explains it, on the line of that byte. -/
theorem Lexing.exists_of_error {source : Bytes} {error : LexError}
    (h : (ofSource source).error = some error) :
    ∃ before b after, source = before ++ b :: after ∧ error.kind.Blames b ∧
      error.offset = before.length ∧
      error.line = lineNumber (before.count Byte.lineFeed + 1) := by
  have hall := Cursor.lex_induction (I := Cursor.At source) (P := fun _ => True)
    (E := fun error => ∃ before b after, source = before ++ b :: after ∧ error.kind.Blames b ∧
      error.offset = before.length ∧
      error.line = lineNumber (before.count Byte.lineFeed + 1))
    (fun c after hc hafter => hc.step hafter) (fun _ _ _ _ _ => trivial) ?_
    (Cursor.at_ofSource source)
  · exact hall.2 error h
  · rintro c error endLine ⟨before, hsource, hoffset, hline⟩ hstep
    have hmeets := Cursor.meets_step c
    rw [hstep] at hmeets
    cases hmeets with
    | unclosed hrest hquote _ =>
        exact ⟨before, _, _, hsource.trans (by rw [hrest]), hquote, hoffset, by rw [hline]⟩
    | unexpected hrest =>
        exact ⟨before, _, _, hsource.trans (by rw [hrest]), rfl, hoffset, by rw [hline]⟩

end CommandScript
