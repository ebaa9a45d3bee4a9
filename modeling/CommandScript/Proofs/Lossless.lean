import CommandScript.Proofs.Spans

/-!
The whole lexical grammar, for every source. The tokens and the blanks between them cover the source
up to its end or up to the error, and the error stands where no token can begin.
-/

namespace CommandScript

/-- The offset that lexing has reached behind some tokens. -/
def reached (before : List Token) : Nat :=
  before.getLast?.elim 0 Token.stop

/-- A line begins at the start of a source and right behind a newline. -/
def beginsLine (before : List Token) : Bool :=
  before.getLast?.elim true (·.kind == .newline)

namespace Stuck

variable {source : Bytes} {i : Nat} {kind other : LexErrorKind}

/-- The byte that stops lexing is no blank, and whether it is a quote decides the error. -/
theorem exists_byte (h : Stuck source i kind) :
    ∃ b, source[i]? = some b ∧ Byte.isInlineSpace b = false ∧ b ≠ Byte.hash ∧
      b ≠ Byte.questionMark ∧
      kind = if Byte.isQuote b then .unclosedString else .unexpectedByte b := by
  cases h with
  | @unclosedString quote rest hrest hquote =>
      have hb : source[i]? = some quote := by
        rw [← Nat.add_zero i, ← List.getElem?_drop, hrest, List.getElem?_cons_zero]
      obtain ⟨hquestion, -, hhash, hspace⟩ := Byte.ne_of_isQuote hquote
      exact ⟨quote, hb, hspace, hhash, hquestion, (if_pos hquote).symm⟩
  | @unexpectedByte b hb hline hhash hspace hquote hword =>
      refine ⟨b, hb, hspace, hhash, ?_, ?_⟩
      · rintro rfl
        revert hword
        decide
      · rw [hquote]
        rfl

theorem kind_eq (h : Stuck source i kind) (h' : Stuck source i other) : kind = other := by
  obtain ⟨b, hb, -, -, -, hkind⟩ := h.exists_byte
  obtain ⟨b', hb', -, -, -, hother⟩ := h'.exists_byte
  obtain rfl := Option.some.inj (hb.symm.trans hb')
  exact hkind.trans hother.symm

end Stuck

namespace Token.Spans

variable {source : Bytes} {t : Token} {b : UInt8}

/-- The byte that a span ends with is a word byte only for a word, a directive or a string. -/
theorem isWord_stop (h : t.Spans source) (hlt : t.start < t.stop)
    (hb : source[t.stop - 1]? = some b) (hword : Byte.isWord b = true) :
    t.kind = .word ∨ t.kind = .directive ∨ t.kind = .string := by
  cases h with
  | newline hkind htext hspan =>
      have hlast : (source.slice t.start t.stop)[t.stop - 1 - t.start]? = some b := by
        rw [Bytes.getElem?_slice (by omega), ← hb]
        congr 1
        omega
      rw [hspan] at hlast
      obtain rfl := List.mem_singleton.mp (List.mem_of_getElem? hlast)
      exact absurd hword (by decide)
  | word hkind => exact Or.inl hkind
  | directive hkind => exact Or.inr (Or.inl hkind)
  | string hkind => exact Or.inr (Or.inr hkind)

theorem of_word (h : t.Spans source) (hkind : t.kind = .word) :
    source.slice t.start t.stop = t.text ∧ (∀ b ∈ t.text, Byte.isWord b = true) ∧
      ∀ b, source[t.stop]? = some b → Byte.isWord b = false := by
  cases h with
  | word _ hspan hword _ hend => exact ⟨hspan, hword, hend⟩
  | newline hother => cases hkind.symm.trans hother
  | directive hother => cases hkind.symm.trans hother
  | string hother => cases hkind.symm.trans hother

theorem of_string (h : t.Spans source) (hkind : t.kind = .string) :
    ∃ quote body, source.slice t.start t.stop = quote :: body ++ [quote] ∧
      Byte.isQuote quote = true ∧ StringBody quote body := by
  cases h with
  | string _ hspan hquote hbody => exact ⟨_, _, hspan, hquote, hbody⟩
  | newline hother => cases hkind.symm.trans hother
  | word hother => cases hkind.symm.trans hother
  | directive hother => cases hkind.symm.trans hother

/-- A word starts with a word byte. -/
theorem isWord_start (h : t.Spans source) (hkind : t.kind = .word) (hlt : t.start < t.stop)
    (hle : t.stop ≤ source.length) :
    ∃ b, source[t.start]? = some b ∧ Byte.isWord b = true := by
  obtain ⟨hspan, hword, -⟩ := h.of_word hkind
  have hb : source[t.start]? = some source[t.start] :=
    List.getElem?_eq_getElem (Nat.lt_of_lt_of_le hlt hle)
  have hfirst : (source.slice t.start t.stop).head? = some source[t.start] :=
    (Bytes.head?_slice hlt).trans hb
  rw [hspan] at hfirst
  exact ⟨_, hb, hword _ (List.mem_of_head? hfirst)⟩

end Token.Spans

namespace Yields

variable {source : Bytes} {i : Nat} {atLineStart : Bool} {tokens before behind : List Token}
  {error : Option LexError}

theorem behind_tokens (h : Yields source i atLineStart (before ++ behind) error) :
    Yields source (before.getLast?.elim i Token.stop)
      (before.getLast?.elim atLineStart (·.kind == .newline)) behind error := by
  induction before generalizing i atLineStart with
  | nil => exact h
  | cons t before ih =>
      cases h with
      | token _ _ _ _ _ hrest =>
          have hbehind := ih hrest
          rw [List.getLast?_cons]
          cases hlast : before.getLast? <;> rw [hlast] at hbehind <;> exact hbehind

theorem length_le (h : Yields source i atLineStart tokens error) (hi : i ≤ source.length) :
    i + tokens.length ≤ source.length := by
  induction h with
  | finish => exact hi
  | fail => exact hi
  | token hgap hlt hle _ _ _ ih =>
      have hrest := ih hle
      have hstart := hgap.le
      rw [List.length_cons]
      omega

theorem of_mem (h : Yields source i atLineStart tokens error) :
    ∀ t ∈ tokens, t.start < t.stop ∧ t.stop ≤ source.length ∧ t.Spans source := by
  induction h with
  | finish => simp
  | fail => simp
  | token _ hlt hle hspans _ _ ih => exact List.forall_mem_cons.mpr ⟨⟨hlt, hle, hspans⟩, ih⟩

theorem directive_iff {t : Token} (h : Yields source i atLineStart (t :: tokens) error) :
    t.kind = .directive ↔
      atLineStart = true ∧ t.start = i ∧ source[i]? = some Byte.questionMark := by
  cases h with
  | token _ _ _ _ hdirective => exact hdirective

/-- The blank in front of the next token, of the error or of the end of the source. -/
theorem gap (h : Yields source i atLineStart tokens error) :
    Blank source i
      (tokens.head?.elim (error.elim source.length LexError.offset) Token.start) := by
  cases h with
  | finish hgap => exact hgap
  | fail hgap => exact hgap
  | token hgap => exact hgap

theorem exists_directive (h : Yields source i true tokens error)
    (hquestion : source[i]? = some Byte.questionMark) :
    ∃ t rest, tokens = t :: rest ∧ t.kind = .directive ∧ t.start = i := by
  cases h with
  | finish hgap =>
      obtain rfl := hgap.eq_of_notBlank hquestion (by decide) (by decide)
      simp at hquestion
  | fail hgap hstuck =>
      obtain rfl := hgap.eq_of_notBlank hquestion (by decide) (by decide)
      obtain ⟨b, hb, -, -, hne, -⟩ := hstuck.exists_byte
      exact absurd (Option.some.inj (hb.symm.trans hquestion)) hne
  | token hgap _ _ _ hdirective =>
      have hstart := (hgap.eq_of_notBlank hquestion (by decide) (by decide)).symm
      exact ⟨_, _, rfl, hdirective.mpr ⟨rfl, hstart, hquestion⟩, hstart⟩

/-- Where no tokens are left, lexing fails exactly where something other than a blank comes up that
begins no token. -/
theorem fails_iff (h : Yields source i atLineStart [] error) (kind : LexErrorKind) (offset : Nat) :
    (∃ line, error = some ⟨kind, line, offset⟩) ↔
      Blank source i offset ∧ Stuck source offset kind := by
  constructor
  · rintro ⟨line, rfl⟩
    cases h with
    | fail hgap hstuck => exact ⟨hgap, hstuck⟩
  · rintro ⟨hblank, hstuck⟩
    obtain ⟨b, hb, hspace, hhash, -, -⟩ := hstuck.exists_byte
    have hlt : offset < source.length := (List.getElem?_eq_some_iff.mp hb).1
    cases h with
    | finish hgap =>
        -- A blank up to the end of the source would have to go on over the byte at the offset.
        rcases hblank.total hgap with hto | hto
        · have hend := hto.eq_of_notBlank hb hspace hhash
          omega
        · have hend := hto.le
          omega
    | @fail _ _ error hgap hstuck' =>
        obtain ⟨b', hb', hspace', hhash', -, -⟩ := hstuck'.exists_byte
        obtain ⟨kind', line, offset'⟩ := error
        obtain rfl : offset' = offset :=
          hgap.unique hblank hb' hspace' hhash' hb hspace hhash
        obtain rfl : kind' = kind := hstuck'.kind_eq hstuck
        exact ⟨line, rfl⟩

end Yields

/-- The tokens of a source and its error, if it has one, account for every byte. -/
structure Lossless (source : Bytes) (lexing : Lexing) : Prop where
  /-- Lexing comes to an end after at most one token for each byte. -/
  length_le : lexing.tokens.length ≤ source.length
  /-- Spans hold at least one byte and lie inside the source. -/
  bounds : ∀ t ∈ lexing.tokens, t.start < t.stop ∧ t.stop ≤ source.length
  /-- A token starts where the one in front of it stops, or later. -/
  ordered : ∀ before t behind, lexing.tokens = before ++ t :: behind → reached before ≤ t.start
  /-- Between spans there are only inline spaces and comments, and so in front of the first token
  and behind the last one. -/
  gaps : ∀ before behind, lexing.tokens = before ++ behind →
    Blank source (reached before)
      (behind.head?.elim (lexing.error.elim source.length LexError.offset) Token.start)
  /-- A span has the bytes that the kind of the token asks for. -/
  spans : ∀ t ∈ lexing.tokens, t.Spans source
  /-- A word byte stands right in front of a word only where a directive or a string ends. -/
  words : ∀ before t behind b, lexing.tokens = before ++ t :: behind → t.kind = .word →
    0 < t.start → source[t.start - 1]? = some b → Byte.isWord b = true →
    ∃ last, before.getLast? = some last ∧ last.stop = t.start ∧
      (last.kind = .directive ∨ last.kind = .string)
  /-- A directive stands at the start of the source or right behind a newline. -/
  directives : ∀ before t behind, lexing.tokens = before ++ t :: behind → t.kind = .directive →
    beginsLine before = true ∧ t.start = reached before
  /-- A question mark there is always a directive. -/
  questionMarks : ∀ before behind, lexing.tokens = before ++ behind → beginsLine before = true →
    source[reached before]? = some Byte.questionMark →
    ∃ t rest, behind = t :: rest ∧ t.kind = .directive ∧ t.start = reached before
  /-- Lexing fails exactly where no token begins behind the last one, and says why. -/
  fails : ∀ kind offset, (∃ line, lexing.error = some ⟨kind, line, offset⟩) ↔
    Blank source (reached lexing.tokens) offset ∧ Stuck source offset kind

/-- In front of a word there is a directive, a string, or no word byte. -/
theorem Yields.exists_touching {source : Bytes} {before behind : List Token} {t : Token} {b : UInt8}
    {error : Option LexError} (h : Yields source 0 true (before ++ t :: behind) error)
    (hkind : t.kind = .word) (hpos : 0 < t.start) (hb : source[t.start - 1]? = some b)
    (hword : Byte.isWord b = true) :
    ∃ last, before.getLast? = some last ∧ last.stop = t.start ∧
      (last.kind = .directive ∨ last.kind = .string) := by
  obtain ⟨hlt, hle, hspans⟩ := h.of_mem t (by simp)
  obtain ⟨first, hfirst, hfirstWord⟩ := hspans.isWord_start hkind hlt hle
  have hgap : Blank source (before.getLast?.elim 0 Token.stop) t.start := h.behind_tokens.gap
  have hstart : before.getLast?.elim 0 Token.stop = t.start := by
    by_contra hne
    obtain ⟨space, hspace, hinline⟩ := hgap.exists_space (Nat.lt_of_le_of_ne hgap.le hne) hfirst
      (Byte.ne_of_isWord hfirstWord).1
    obtain rfl := Option.some.inj (hb.symm.trans hspace)
    rw [(Byte.ne_of_isWord hword).2.2] at hinline
    cases hinline
  cases hlast : before.getLast? with
  | none =>
      rw [hlast] at hstart
      exact absurd hstart (Nat.ne_of_lt hpos)
  | some last =>
      rw [hlast] at hstart
      have hstop : last.stop = t.start := hstart
      obtain ⟨hlt', -, hspans'⟩ := h.of_mem last
        (List.mem_append_left _ (List.mem_of_getLast? hlast))
      refine ⟨last, rfl, hstop, (hspans'.isWord_stop hlt' (hstop ▸ hb) hword).resolve_left ?_⟩
      intro hkind'
      have hnot := (hspans'.of_word hkind').2.2 first (hstop ▸ hfirst)
      rw [hfirstWord] at hnot
      cases hnot

/-- Lexing loses nothing. Every byte of a source belongs to a token, to a blank or to what lexing
failed at. -/
theorem Lexing.lossless_ofSource (source : Bytes) : Lossless source (ofSource source) := by
  have hyields : Yields source 0 true (ofSource source).tokens (ofSource source).error :=
    (Cursor.at_ofSource source).yields
  have hsplit {before behind : List Token} (h : (ofSource source).tokens = before ++ behind) :
      Yields source (reached before) (beginsLine before) behind (ofSource source).error :=
    (h ▸ hyields).behind_tokens
  constructor
  case length_le => simpa using hyields.length_le (Nat.zero_le _)
  case bounds =>
    intro t ht
    obtain ⟨hlt, hle, -⟩ := hyields.of_mem t ht
    exact ⟨hlt, hle⟩
  case ordered =>
    intro before t behind h
    exact (hsplit h).gap.le
  case gaps =>
    intro before behind h
    exact (hsplit h).gap
  case spans =>
    intro t ht
    exact (hyields.of_mem t ht).2.2
  case words =>
    intro before t behind b h
    exact (h ▸ hyields).exists_touching
  case directives =>
    intro before t behind h hkind
    obtain ⟨hbegins, hstart, -⟩ := (hsplit h).directive_iff.mp hkind
    exact ⟨hbegins, hstart⟩
  case questionMarks =>
    intro before behind h hbegins
    exact (hbegins ▸ hsplit h).exists_directive
  case fails => exact (hsplit (List.append_nil _).symm).fails_iff

end CommandScript
