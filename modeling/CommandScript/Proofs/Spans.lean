import CommandScript.Proofs.LexAppend
import CommandScript.Proofs.Lines

/-!
Nothing is lost in lexing. The spans of the tokens follow one another in the source with only blanks
between them, each has the bytes that its kind asks for, and lexing stops short of the end of the
source only where no token can begin. `Yields` says this of the tokens from an offset on; it is what
a cursor keeps along its steps, and everything else is read off it.
-/

namespace CommandScript

/-! ### Blanks -/

/-- From one offset up to another there are only inline spaces and comments. A comment runs up to a
line feed or the end of the source. -/
inductive Blank (source : Bytes) : Nat → Nat → Prop
  | none (i : Nat) : Blank source i i
  | space {i j : Nat} {b : UInt8} (hb : source[i]? = some b)
      (hspace : Byte.isInlineSpace b = true) (hrest : Blank source (i + 1) j) : Blank source i j
  | comment {i k j : Nat} (hhash : source[i]? = some Byte.hash) (hlt : i < k)
      (hbody : ∀ n, i ≤ n → n < k → ∃ b, source[n]? = some b ∧ b ≠ Byte.lineFeed)
      (hend : ∀ b, source[k]? = some b → b = Byte.lineFeed) (hrest : Blank source k j) :
      Blank source i j

namespace Blank

variable {source : Bytes} {i j k : Nat} {b : UInt8}

theorem le (h : Blank source i j) : i ≤ j := by
  induction h with
  | none i => exact Nat.le_refl i
  | space _ _ _ ih => omega
  | comment _ hlt _ _ _ ih => omega

theorem eq_of_notBlank (h : Blank source i j) (hb : source[i]? = some b)
    (hspace : Byte.isInlineSpace b = false) (hhash : b ≠ Byte.hash) : i = j := by
  cases h with
  | none => rfl
  | space hfound hfoundSpace _ =>
      obtain rfl := Option.some.inj (hb.symm.trans hfound)
      rw [hspace] at hfoundSpace
      cases hfoundSpace
  | comment hfound => exact absurd (Option.some.inj (hb.symm.trans hfound)) hhash

/-- Of two blank stretches from one offset on, one goes on where the other ends. -/
theorem total (h : Blank source i j) (h' : Blank source i k) :
    Blank source j k ∨ Blank source k j := by
  induction h generalizing k with
  | none i => exact Or.inl h'
  | @space i j b hb hspace hrest ih =>
      cases h' with
      | none => exact Or.inr (.space hb hspace hrest)
      | space _ _ hrest' => exact ih hrest'
      | comment hhash =>
          obtain rfl := Option.some.inj (hb.symm.trans hhash)
          cases hspace
  | @comment i m j hhash hlt hbody hend hrest ih =>
      cases h' with
      | none => exact Or.inr (.comment hhash hlt hbody hend hrest)
      | space hb hspace =>
          obtain rfl := Option.some.inj (hhash.symm.trans hb)
          cases hspace
      | @comment _ m' _ hhash' hlt' hbody' hend' hrest' =>
          -- Both comments end at the first line feed behind the hash, or at the end of the source.
          have hle {m m' : Nat} (hlt' : i < m')
              (hbody : ∀ n, i ≤ n → n < m → ∃ b, source[n]? = some b ∧ b ≠ Byte.lineFeed)
              (hend' : ∀ b, source[m']? = some b → b = Byte.lineFeed) : m ≤ m' := by
            by_contra hgt
            obtain ⟨b, hb, hne⟩ := hbody m' (by omega) (by omega)
            exact hne (hend' b hb)
          obtain rfl : m = m' := Nat.le_antisymm (hle hlt' hbody hend') (hle hlt hbody' hend)
          exact ih hrest'

/-- A blank stretch ends in one place, where something other than a blank follows. -/
theorem unique {b' : UInt8} (h : Blank source i j) (h' : Blank source i k)
    (hb : source[j]? = some b) (hspace : Byte.isInlineSpace b = false) (hhash : b ≠ Byte.hash)
    (hb' : source[k]? = some b') (hspace' : Byte.isInlineSpace b' = false)
    (hhash' : b' ≠ Byte.hash) : j = k := by
  rcases h.total h' with hto | hto
  · exact hto.eq_of_notBlank hb hspace hhash
  · exact (hto.eq_of_notBlank hb' hspace' hhash').symm

/-- The last byte of a blank stretch in front of a byte other than a line feed is an inline
space. -/
theorem exists_space (h : Blank source i j) (hlt : i < j) (hb : source[j]? = some b)
    (hline : b ≠ Byte.lineFeed) :
    ∃ space, source[j - 1]? = some space ∧ Byte.isInlineSpace space = true := by
  induction h with
  | none i => exact absurd hlt (Nat.lt_irrefl i)
  | @space i j found hfound hspace hrest ih =>
      by_cases heq : i + 1 = j
      · subst heq
        exact ⟨found, hfound, hspace⟩
      · exact ih (Nat.lt_of_le_of_ne hrest.le heq) hb
  | @comment i m j hhash _ hbody hend hrest ih =>
      by_cases heq : m = j
      · subst heq
        exact absurd (hend b hb) hline
      · exact ih (Nat.lt_of_le_of_ne hrest.le heq) hb

end Blank

/-! ### Spans and failures -/

/-- The span of a token has the bytes that its kind asks for. Words and the names of directives are
as long as they can be. -/
inductive Token.Spans (source : Bytes) (t : Token) : Prop
  | newline (hkind : t.kind = .newline) (htext : t.text = [Byte.lineFeed])
      (hspan : source.slice t.start t.stop = [Byte.lineFeed]) : Spans source t
  | word (hkind : t.kind = .word) (hspan : source.slice t.start t.stop = t.text)
      (hword : ∀ b ∈ t.text, Byte.isWord b = true)
      (hquote : ∀ b ∈ t.text.head?, Byte.isQuote b = false)
      (hend : ∀ b, source[t.stop]? = some b → Byte.isWord b = false) : Spans source t
  | directive (hkind : t.kind = .directive)
      (hspan : source.slice t.start t.stop = Byte.questionMark :: t.text)
      (hname : ∀ b ∈ t.text, Byte.isAlphanumeric b = true)
      (hend : ∀ b, source[t.stop]? = some b → Byte.isAlphanumeric b = false) : Spans source t
  | string {quote : UInt8} {body : Bytes} (hkind : t.kind = .string)
      (hspan : source.slice t.start t.stop = quote :: body ++ [quote])
      (hquote : Byte.isQuote quote = true) (hbody : StringBody quote body)
      (htext : t.text = Escape.unescape body) : Spans source t

/-- Behind an opening quote, a line feed or the end of the source comes before the closing one. A
backslash at the very end has no byte to take along. -/
def Unclosed (quote : UInt8) (bytes : Bytes) : Prop :=
  ∃ body, StringBody quote body ∧ (bytes = body ∨ bytes = body ++ [Byte.backslash] ∨
    ∃ behind, bytes = body ++ Byte.lineFeed :: behind)

/-- No token and no blank begins at an offset: a string would not be closed, or the byte begins
nothing at all. -/
inductive Stuck (source : Bytes) (i : Nat) : LexErrorKind → Prop
  | unclosedString {quote : UInt8} {rest : Bytes} (hrest : source.drop i = quote :: rest)
      (hquote : Byte.isQuote quote = true) (hunclosed : Unclosed quote rest) :
      Stuck source i .unclosedString
  | unexpectedByte {b : UInt8} (hb : source[i]? = some b) (hline : b ≠ Byte.lineFeed)
      (hhash : b ≠ Byte.hash) (hspace : Byte.isInlineSpace b = false)
      (hquote : Byte.isQuote b = false) (hword : Byte.isWord b = false) :
      Stuck source i (.unexpectedByte b)

theorem Unclosed.cons {quote b : UInt8} {bytes : Bytes} (hline : b ≠ Byte.lineFeed)
    (hquote : b ≠ quote) (hbackslash : b ≠ Byte.backslash) (h : Unclosed quote bytes) :
    Unclosed quote (b :: bytes) := by
  obtain ⟨body, hbody, hcases⟩ := h
  refine ⟨b :: body, .byte hline hquote hbackslash hbody, ?_⟩
  rcases hcases with rfl | rfl | ⟨behind, rfl⟩
  · exact Or.inl rfl
  · exact Or.inr (Or.inl rfl)
  · exact Or.inr (Or.inr ⟨behind, rfl⟩)

theorem Unclosed.pair {quote : UInt8} (b : UInt8) {bytes : Bytes} (h : Unclosed quote bytes) :
    Unclosed quote (Byte.backslash :: b :: bytes) := by
  obtain ⟨body, hbody, hcases⟩ := h
  refine ⟨Byte.backslash :: b :: body, hbody.pair b, ?_⟩
  rcases hcases with rfl | rfl | ⟨behind, rfl⟩
  · exact Or.inl rfl
  · exact Or.inr (Or.inl rfl)
  · exact Or.inr (Or.inr ⟨behind, rfl⟩)

theorem unclosed_of_scanString {quote : UInt8} {bytes : Bytes}
    (h : (scanString quote bytes).rest = none) : Unclosed quote bytes := by
  fun_induction scanString quote bytes with
  | case1 => exact ⟨[], .nil, Or.inl rfl⟩
  | case2 b rest hline =>
      obtain rfl : b = Byte.lineFeed := by simpa using hline
      exact ⟨[], .nil, Or.inr (Or.inr ⟨rest, rfl⟩)⟩
  | case3 => cases h
  | case4 b hline hquote hb =>
      obtain rfl : b = Byte.backslash := by simpa using hb
      exact ⟨[], .nil, Or.inr (Or.inl rfl)⟩
  | case5 b hline hquote hb escaped rest ih =>
      obtain rfl : b = Byte.backslash := by simpa using hb
      exact (ih h).pair escaped
  | case6 b rest hline hquote hb ih =>
      exact (ih h).cons (by simpa using hline) (by simpa using hquote) (by simpa using hb)

/-! ### Tokens from an offset on -/

/-- Lexing from an offset on yields these tokens and this error, where the flag tells whether a line
begins at the offset. -/
inductive Yields (source : Bytes) : Nat → Bool → List Token → Option LexError → Prop
  | finish {i : Nat} {atLineStart : Bool} (hgap : Blank source i source.length) :
      Yields source i atLineStart [] none
  | fail {i : Nat} {atLineStart : Bool} {error : LexError} (hgap : Blank source i error.offset)
      (hstuck : Stuck source error.offset error.kind) : Yields source i atLineStart [] (some error)
  | token {i : Nat} {atLineStart : Bool} {t : Token} {tokens : List Token}
      {error : Option LexError} (hgap : Blank source i t.start) (hlt : t.start < t.stop)
      (hle : t.stop ≤ source.length) (hspans : t.Spans source)
      (hdirective : t.kind = .directive ↔
        atLineStart = true ∧ t.start = i ∧ source[i]? = some Byte.questionMark)
      (hrest : Yields source t.stop (t.kind == .newline) tokens error) :
      Yields source i atLineStart (t :: tokens) error

namespace Cursor

variable {source : Bytes} {c after : Cursor}

theorem At.drop_offset (h : At source c) : source.drop c.offset = c.rest := by
  obtain ⟨taken, rfl, hoffset, -⟩ := h
  rw [hoffset, List.drop_left]

theorem At.getElem? (h : At source c) (n : Nat) : source[c.offset + n]? = c.rest[n]? := by
  rw [← h.drop_offset, List.getElem?_drop]

theorem At.length (h : At source c) : c.offset + c.rest.length = source.length := by
  obtain ⟨taken, rfl, hoffset, -⟩ := h
  rw [hoffset, List.length_append]

theorem At.slice {span behind : Bytes} (h : At source c) (hrest : c.rest = span ++ behind) :
    source.slice c.offset (c.offset + span.length) = span := by
  rw [Bytes.slice, List.drop_take, h.drop_offset, hrest, Nat.add_sub_cancel_left, List.take_left]

/-- The byte behind what a step takes is the next one ahead. -/
theorem At.getElem?_behind {span behind : Bytes} (h : At source c)
    (hrest : c.rest = span ++ behind) : source[c.offset + span.length]? = behind.head? := by
  rw [h.getElem?, hrest, List.getElem?_append_right (Nat.le_refl _), Nat.sub_self,
    List.head?_eq_getElem?]

theorem not_of_head?_dropWhile {q : UInt8 → Bool} {bytes : Bytes} {b : UInt8}
    (h : (bytes.dropWhile q).head? = some b) : q b = false := by
  have hnot := List.head?_dropWhile_not q bytes
  rw [h] at hnot
  simpa using hnot

/-- A step that goes on does so at a later offset, as it leaves fewer bytes ahead. -/
theorem At.offset_lt (h : At source c) (hafter : c.step.after? = some after) :
    c.offset < after.offset := by
  have hrest := length_of_step hafter
  have hlength := h.length
  have hlengthAfter := (h.step hafter).length
  omega

theorem At.getElem?_offset (h : At source c) : source[c.offset]? = c.rest.head? := by
  rw [← Nat.add_zero c.offset, h.getElem?, List.head?_eq_getElem?]

/-- What a step takes for a token is the span of the token. It is a directive exactly where a
question mark begins a line, and a line begins behind it exactly when it ends one. -/
theorem At.spans_of_step {t : Token} (h : At source c) (hstep : c.step = .token t after) :
    t.start = c.offset ∧ t.start < t.stop ∧ t.stop = after.offset ∧ t.Spans source ∧
      (t.kind = .directive ↔
        c.atLineStart = true ∧ source[c.offset]? = some Byte.questionMark) ∧
      after.atLineStart = (t.kind == .newline) := by
  have hlt : c.offset < after.offset := h.offset_lt (by rw [hstep]; rfl)
  have hmeets := meets_step c
  rw [hstep] at hmeets
  cases hmeets with
  | @directive rest _ hrest hstart hafter =>
      have hspan : c.rest = (Byte.questionMark :: rest.takeWhile Byte.isAlphanumeric) ++
          rest.dropWhile Byte.isAlphanumeric := by
        rw [hrest, List.cons_append, List.takeWhile_append_dropWhile]
      refine ⟨rfl, hlt, rfl, .directive rfl ?_ ?_ ?_, ?_, ?_⟩
      · rw [hafter]
        exact h.slice hspan
      · intro b hb
        exact List.mem_takeWhile_imp hb
      · intro b hb
        rw [hafter] at hb
        exact not_of_head?_dropWhile ((h.getElem?_behind hspan).symm.trans hb)
      · simp [token, hstart, h.getElem?_offset, hrest]
      · rw [hafter]
        rfl
  | newline hrest hafter =>
      refine ⟨rfl, hlt, rfl, .newline rfl rfl ?_, ?_, ?_⟩
      · rw [hafter]
        have hspan : c.rest = [Byte.lineFeed] ++ _ := hrest
        exact h.slice hspan
      · have hquestion : Byte.lineFeed ≠ Byte.questionMark := by decide
        simp [token, h.getElem?_offset, hrest, hquestion]
      · rw [hafter]
        rfl
  | @string quote body behind _ hrest hquote hbody hafter =>
      have hspan : c.rest = (quote :: body ++ [quote]) ++ behind := by
        simp [hrest]
      refine ⟨rfl, hlt, rfl, .string rfl ?_ hquote hbody rfl, ?_, ?_⟩
      · rw [hafter]
        exact h.slice hspan
      · have hquestion := (Byte.ne_of_isQuote hquote).1
        simp [token, h.getElem?_offset, hrest, hquestion]
      · rw [hafter]
        rfl
  | @word b rest _ hrest hword hquote hstart hafter =>
      have hspan : c.rest = (b :: rest.takeWhile Byte.isWord) ++ rest.dropWhile Byte.isWord := by
        rw [hrest, List.cons_append, List.takeWhile_append_dropWhile]
      refine ⟨rfl, hlt, rfl, .word rfl ?_ ?_ ?_ ?_, ?_, ?_⟩
      · rw [hafter]
        exact h.slice hspan
      · intro other hother
        rcases List.mem_cons.mp hother with rfl | hother
        · exact hword
        · exact List.mem_takeWhile_imp hother
      · simpa [token] using hquote
      · intro other hother
        rw [hafter] at hother
        exact not_of_head?_dropWhile ((h.getElem?_behind hspan).symm.trans hother)
      · simpa [token, h.getElem?_offset, hrest] using hstart
      · rw [hafter]
        rfl

/-- What a step takes for a blank goes in front of whatever is blank behind it. -/
theorem At.blank_of_step (h : At source c) (hstep : c.step = .blank after) :
    c.offset < after.offset ∧
      ∀ j, Blank source after.offset j → Blank source c.offset j := by
  have hlt : c.offset < after.offset := h.offset_lt (by rw [hstep]; rfl)
  refine ⟨hlt, ?_⟩
  have hmeets := meets_step c
  rw [hstep] at hmeets
  cases hmeets with
  | @comment rest _ hrest hafter =>
      have hspan : c.rest = (Byte.hash :: rest.takeWhile (· != Byte.lineFeed)) ++
          rest.dropWhile (· != Byte.lineFeed) := by
        rw [hrest, List.cons_append, List.takeWhile_append_dropWhile]
      intro j hblank
      refine .comment (by rw [h.getElem?_offset, hrest]; rfl) hlt ?_ ?_ hblank
      · intro n hle hn
        obtain ⟨k, rfl⟩ := Nat.exists_eq_add_of_le hle
        have hk : k < (Byte.hash :: rest.takeWhile (· != Byte.lineFeed)).length := by
          rw [hafter] at hn
          exact Nat.lt_of_add_lt_add_left hn
        refine ⟨_, ((h.getElem? k).trans (congrArg (·[k]?) hspan)).trans
          ((List.getElem?_append_left hk).trans (List.getElem?_eq_getElem hk)), ?_⟩
        have hmem := List.getElem_mem hk
        generalize (Byte.hash :: rest.takeWhile (· != Byte.lineFeed))[k] = b at hmem
        rcases List.mem_cons.mp hmem with rfl | hmem
        · decide
        · simpa using List.mem_takeWhile_imp hmem
      · intro b hb
        rw [hafter] at hb
        simpa using not_of_head?_dropWhile ((h.getElem?_behind hspan).symm.trans hb)
  | @space b rest _ hrest hspace hafter =>
      intro j hblank
      rw [hafter] at hblank
      exact .space (by rw [h.getElem?_offset, hrest]; rfl) hspace hblank

/-- Where lexing stops with an error, nothing can begin. -/
theorem At.stuck_of_step {error : LexError} {endLine : UInt32} (h : At source c)
    (hstep : c.step = .failed error endLine) :
    error.offset = c.offset ∧ Stuck source c.offset error.kind := by
  have hmeets := meets_step c
  rw [hstep] at hmeets
  cases hmeets with
  | unclosed hrest hquote hscan =>
      exact ⟨rfl, .unclosedString (h.drop_offset.trans hrest) hquote
        (unclosed_of_scanString (congrArg StringScan.rest hscan))⟩
  | unexpected hrest hword hquote hspace hline hhash =>
      exact ⟨rfl, .unexpectedByte (by rw [h.getElem?_offset, hrest]; rfl) hline hhash hspace hquote
        hword⟩

end Cursor

namespace Yields

variable {source : Bytes} {i j : Nat} {atLineStart : Bool} {tokens : List Token}
  {error : Option LexError}

/-- A blank in front changes no token. It does end the chance of a directive. -/
theorem blank (h : Yields source j false tokens error) (hlt : i < j)
    (hblank : ∀ k, Blank source j k → Blank source i k) :
    Yields source i atLineStart tokens error := by
  cases h with
  | finish hgap => exact .finish (hblank _ hgap)
  | fail hgap hstuck => exact .fail (hblank _ hgap) hstuck
  | token hgap hlt' hle hspans hdirective hrest =>
      refine .token (hblank _ hgap) hlt' hle hspans ?_ hrest
      have hle' := hgap.le
      constructor
      · intro hkind
        cases (hdirective.mp hkind).1
      · rintro ⟨-, hstart, -⟩
        omega

end Yields

/-- The tokens ahead of a cursor are what lexing yields from its offset on. -/
theorem Cursor.At.yields {source : Bytes} {c : Cursor} (h : At source c) :
    Yields source c.offset c.atLineStart c.lex.tokens c.lex.error := by
  fun_induction lex c with
  | case1 c hstep =>
      have hmeets := meets_step c
      rw [hstep] at hmeets
      cases hmeets with
      | finished hrest =>
          have hlength := h.length
          rw [hrest, List.length_nil, Nat.add_zero] at hlength
          exact .finish (hlength ▸ .none c.offset)
  | case2 c after hstep ih =>
      obtain ⟨hlt, hblank⟩ := h.blank_of_step hstep
      have hrest := ih (h.step (by rw [hstep]; rfl))
      rw [atLineStart_of_blank hstep] at hrest
      exact hrest.blank hlt hblank
  | case3 c t after hstep rest ih =>
      have hafter : At source after := h.step (by rw [hstep]; rfl)
      obtain ⟨hstart, hlt, hstop, hspans, hdirective, hline⟩ := h.spans_of_step hstep
      have hlength := hafter.length
      refine .token (hstart ▸ .none t.start) hlt (by omega) hspans ?_ ?_
      · simpa [hstart] using hdirective
      · rw [hstop, ← hline]
        exact ih hafter
  | case4 c error endLine hstep =>
      obtain ⟨hoffset, hstuck⟩ := h.stuck_of_step hstep
      exact .fail (hoffset ▸ .none error.offset) (hoffset.symm ▸ hstuck)

end CommandScript
