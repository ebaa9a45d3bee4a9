import CommandScript.Proofs.LineEndings
import CommandScript.Proofs.Lossless
import CommandScript.Proofs.SourceLines

/-!
Strings and lines. A string is meant to be closed on the line that it is opened on, and each of its
bytes is tested for the end of the line, except the one that a backslash takes along. So a line feed
gets into a string only behind a backslash. Where no string has such a pair, all strings keep to
their lines, and a quote that its line does not close is what lexing and parsing fail with.
-/

namespace CommandScript

variable {source : Bytes} {quote : UInt8} {t : Token} {i j : Nat} {before behind : List Token}

/-- Behind an opening quote, the closing one comes before the next line feed. -/
def ClosedOnLine (quote : UInt8) (bytes : Bytes) : Prop :=
  ∃ body behind, bytes = body ++ quote :: behind ∧ StringBody quote body ∧ Byte.lineFeed ∉ body

/-- Between some tokens of a source and those behind, lexing comes upon an opening quote. -/
structure OpensString (source : Bytes) (before behind : List Token) (i : Nat) (quote : UInt8) :
    Prop where
  tokens : (Lexing.ofSource source).tokens = before ++ behind
  blank : Blank source (reached before) i
  byte : source[i]? = some quote
  isQuote : Byte.isQuote quote = true

/-- No string goes on over the end of its line. A quote that its line does not close is where lexing
fails, and parsing as well, unless something is wrong with the tokens before it. -/
structure StringsKeepToLines (source : Bytes) : Prop where
  spans : ∀ t ∈ (Lexing.ofSource source).tokens, t.kind = .string →
    Byte.lineFeed ∉ source.slice t.start t.stop
  lexing : ∀ before behind i quote, OpensString source before behind i quote →
    ¬ ClosedOnLine quote (source.drop (i + 1)) →
    behind = [] ∧
      (Lexing.ofSource source).error = some ⟨.unclosedString, source.lineNumberAt i, i⟩
  parsing : ∀ before behind i quote, OpensString source before behind i quote →
    ¬ ClosedOnLine quote (source.drop (i + 1)) → ∀ settings : ParseSettings,
    ∃ d, Program.parseWith settings source = .error d ∧
      (0 < settings.partsPerLine → Grouping.Faultless settings.partsPerLine before →
        d.code = .unclosedString ∧ d.severity = .error ∧
          d.pos = ⟨settings.fileName, source.lineNumberAt i⟩)

/-! ### The first byte of what follows a blank -/

/-- A token begins with no blank, and with a quote only if it is a string. -/
theorem Token.Spans.exists_first (h : t.Spans source) (hlt : t.start < t.stop)
    (hle : t.stop ≤ source.length) :
    ∃ b, source[t.start]? = some b ∧ Byte.isInlineSpace b = false ∧ b ≠ Byte.hash ∧
      (Byte.isQuote b = true → t.kind = .string) := by
  have hb : source[t.start]? = some source[t.start] :=
    List.getElem?_eq_getElem (Nat.lt_of_lt_of_le hlt hle)
  have hfirst : (source.slice t.start t.stop).head? = some source[t.start] :=
    (Bytes.head?_slice hlt).trans hb
  generalize source[t.start] = b at hb hfirst
  refine ⟨b, hb, ?_⟩
  cases h with
  | newline _ _ hspan =>
      rw [hspan] at hfirst
      obtain rfl := Option.some.inj hfirst
      exact ⟨rfl, by decide, nofun⟩
  | word _ hspan hword hquote _ =>
      rw [hspan] at hfirst
      obtain ⟨-, hhash, hspace⟩ := Byte.ne_of_isWord (hword b (List.mem_of_head? hfirst))
      refine ⟨hspace, hhash, fun hother => ?_⟩
      rw [hquote b hfirst] at hother
      cases hother
  | directive _ hspan =>
      rw [hspan] at hfirst
      obtain rfl := Option.some.inj hfirst
      exact ⟨rfl, by decide, nofun⟩
  | @string quote body hkind hspan hquote =>
      rw [hspan] at hfirst
      obtain rfl := Option.some.inj hfirst
      obtain ⟨-, -, hhash, hspace⟩ := Byte.ne_of_isQuote hquote
      exact ⟨hspace, hhash, fun _ => hkind⟩

/-- A quote behind a blank opens the next token, or it is where lexing fails. -/
theorem Yields.string_or_fails {tokens : List Token} {error : Option LexError} {atLineStart : Bool}
    (h : Yields source i atLineStart tokens error) (hblank : Blank source i j)
    (hb : source[j]? = some quote) (hquote : Byte.isQuote quote = true) :
    (∃ t rest, tokens = t :: rest ∧ t.kind = .string ∧ t.start = j) ∨
      (tokens = [] ∧ ∃ line, error = some ⟨.unclosedString, line, j⟩) := by
  obtain ⟨-, -, hhash, hspace⟩ := Byte.ne_of_isQuote hquote
  cases h with
  | finish hgap =>
      have hlt : j < source.length := (List.getElem?_eq_some_iff.mp hb).1
      rcases hblank.total hgap with hto | hto
      · exact absurd (hto.eq_of_notBlank hb hspace hhash) (Nat.ne_of_lt hlt)
      · exact absurd hto.le (Nat.not_le_of_lt hlt)
  | @fail _ _ error hgap hstuck =>
      obtain ⟨b, hb', hspace', hhash', -, hkind⟩ := hstuck.exists_byte
      obtain ⟨kind, line, offset⟩ := error
      obtain rfl : j = offset := hblank.unique hgap hb hspace hhash hb' hspace' hhash'
      obtain rfl := Option.some.inj (hb.symm.trans hb')
      rw [if_pos hquote] at hkind
      obtain rfl : kind = .unclosedString := hkind
      exact Or.inr ⟨rfl, line, rfl⟩
  | @token _ _ t tokens _ hgap hlt hle hspans =>
      obtain ⟨b, hb', hspace', hhash', hkind⟩ := hspans.exists_first hlt hle
      obtain rfl : j = t.start := hblank.unique hgap hb hspace hhash hb' hspace' hhash'
      obtain rfl := Option.some.inj (hb.symm.trans hb')
      exact Or.inl ⟨t, tokens, rfl, hkind hquote, rfl⟩

/-! ### Strings without escaped line feeds -/

namespace Token.Spans

/-- A string that takes no line feed along has none. -/
theorem lineFeed_notMem (h : t.Spans source) (hkind : t.kind = .string)
    (hunescaped : Bytes.Unescaped (source.slice t.start t.stop)) :
    Byte.lineFeed ∉ source.slice t.start t.stop := by
  obtain ⟨quote, body, hspan, hquote, hbody⟩ := h.of_string hkind
  rw [hspan, List.cons_append] at hunescaped
  have hline : Byte.lineFeed ∉ body :=
    hbody.lineFeed_notMem hquote (Bytes.unescaped_cons.mp hunescaped).2
  have hne : Byte.lineFeed ≠ quote := (Byte.ne_of_isQuote hquote).2.1.symm
  simp [hspan, hline, hne]

/-- A string without a line feed was closed on its line. -/
theorem closedOnLine (h : t.Spans source) (hkind : t.kind = .string) (hlt : t.start < t.stop)
    (hb : source[t.start]? = some quote)
    (hline : Byte.lineFeed ∉ source.slice t.start t.stop) :
    ClosedOnLine quote (source.drop (t.start + 1)) := by
  obtain ⟨other, body, hspan, -, hbody⟩ := h.of_string hkind
  have hfirst : (source.slice t.start t.stop).head? = some quote :=
    (Bytes.head?_slice hlt).trans hb
  rw [hspan] at hfirst hline
  obtain rfl : other = quote := Option.some.inj hfirst
  refine ⟨body, source.drop t.stop, ?_, hbody, fun hmem => hline (by simp [hmem])⟩
  rw [← List.tail_drop, Bytes.drop_eq_slice_append (Nat.le_of_lt hlt), hspan]
  simp

end Token.Spans

/-! ### Failing at a quote -/

/-- Where strings keep to their lines, a quote that its line does not close ends lexing. -/
theorem OpensString.lexing_fails (h : OpensString source before behind i quote)
    (hspans : ∀ t ∈ (Lexing.ofSource source).tokens, t.kind = .string →
      Byte.lineFeed ∉ source.slice t.start t.stop)
    (hopen : ¬ ClosedOnLine quote (source.drop (i + 1))) :
    behind = [] ∧
      (Lexing.ofSource source).error = some ⟨.unclosedString, source.lineNumberAt i, i⟩ := by
  have hyields := (Cursor.at_ofSource source).yields
  rw [show (Cursor.ofSource source).lex.tokens = before ++ behind from h.tokens] at hyields
  rcases hyields.behind_tokens.string_or_fails h.blank h.byte h.isQuote with
    ⟨t, rest, rfl, hkind, rfl⟩ | ⟨rfl, line, herror⟩
  · have hmem : t ∈ before ++ t :: rest := by simp
    obtain ⟨hlt, -, htoken⟩ := hyields.of_mem t hmem
    exact absurd (htoken.closedOnLine hkind hlt h.byte (hspans t (h.tokens ▸ hmem) hkind)) hopen
  · obtain rfl : line = source.lineNumberAt i := Lexing.line_of_error herror
    exact ⟨rfl, herror⟩

/-- A source with a string that is not closed is refused, and for this reason unless something is
wrong with its tokens. -/
theorem Program.parseWith_of_unclosedString {line : UInt32}
    (herror : (Lexing.ofSource source).error = some ⟨.unclosedString, line, i⟩)
    (settings : ParseSettings) :
    ∃ d, parseWith settings source = .error d ∧
      (0 < settings.partsPerLine →
        Grouping.Faultless settings.partsPerLine (Lexing.ofSource source).tokens →
        d.code = .unclosedString ∧ d.severity = .error ∧ d.pos = ⟨settings.fileName, line⟩) := by
  cases hparse : parseWith settings source with
  | ok p =>
      obtain ⟨-, hnone, -⟩ := Grouping.of_ofSource (parseWith_eq_ok_iff.mp hparse)
      cases herror.symm.trans hnone
  | error d =>
      refine ⟨d, rfl, fun hlimit hfaultless => ?_⟩
      obtain ⟨fault, hfault, rfl⟩ := parseWith_error_iff.mp hparse
      rcases (ofSource_eq_error_iff_first hlimit).mp hfault with
        ⟨earlier, t, later, htokens, -, htoken⟩ | ⟨-, hend⟩
      · exact absurd htoken (hfaultless earlier t later fault htokens)
      · obtain rfl := (endFault_of_lexError herror).mp hend
        exact Fault.report_fields _ settings

/-- The rest of the law follows from what it says of the strings that there are. -/
theorem stringsKeepToLines_of_spans
    (hspans : ∀ t ∈ (Lexing.ofSource source).tokens, t.kind = .string →
      Byte.lineFeed ∉ source.slice t.start t.stop) : StringsKeepToLines source where
  spans := hspans
  lexing _ _ _ _ hopens hopen := hopens.lexing_fails hspans hopen
  parsing before behind i quote hopens hopen settings := by
    obtain ⟨rfl, herror⟩ := hopens.lexing_fails hspans hopen
    rw [← List.append_nil before, ← hopens.tokens]
    exact Program.parseWith_of_unclosedString herror settings

/-- A source in which no line ends in a backslash is on the safe side. -/
theorem stringsKeepToLines_of_unescaped (h : Bytes.Unescaped source) :
    StringsKeepToLines source := by
  have hyields := (Cursor.at_ofSource source).yields
  refine stringsKeepToLines_of_spans fun t ht hkind => ?_
  have hinfix : source.slice t.start t.stop <:+: source :=
    (List.drop_suffix ..).isInfix.trans (List.take_prefix ..).isInfix
  exact (hyields.of_mem t ht).2.2.lineFeed_notMem hkind fun hpair => h (hpair.trans hinfix)

/-- Strings keep to their lines unless one of them takes a line feed along behind a backslash. -/
theorem stringsKeepToLines_iff (source : Bytes) :
    StringsKeepToLines source ↔
      ∀ t ∈ (Lexing.ofSource source).tokens, t.kind = .string →
        ¬ [Byte.backslash, Byte.lineFeed] <:+: source.slice t.start t.stop := by
  constructor
  · intro h t ht hkind hpair
    exact h.spans t ht hkind (hpair.subset (by simp))
  · intro h
    have hyields := (Cursor.at_ofSource source).yields
    refine stringsKeepToLines_of_spans fun t ht hkind => ?_
    exact (hyields.of_mem t ht).2.2.lineFeed_notMem hkind (h t ht hkind)

/-- A backslash at the end of the line leaves the string open, and yet it becomes an argument. -/
theorem not_stringsKeepToLines_escaped :
    ¬ StringsKeepToLines (Bytes.ofString "echo \"a\\\nb\"\n") ∧
      Program.parseWith {} (Bytes.ofString "echo \"a\\\nb\"\n") =
        .ok ⟨[⟨⟨unknownFile, 1⟩, ⟨[0x65, 0x63, 0x68, 0x6f], false, true⟩,
          [⟨[0x61, 0x5c, 0x0a, 0x62], true, false⟩], by simp⟩]⟩ := by
  refine ⟨fun h => ?_, by decide +kernel⟩
  have htoken : (Lexing.ofSource (Bytes.ofString "echo \"a\\\nb\"\n")).tokens[1]? =
      some ⟨.string, [0x61, 0x5c, 0x0a, 0x62], 1, 5, 11, false, 2⟩ := by
    decide +kernel
  exact h.spans _ (List.mem_of_getElem? htoken) rfl (by decide)

end CommandScript
