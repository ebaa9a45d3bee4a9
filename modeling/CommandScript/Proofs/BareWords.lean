import CommandScript.Proofs.LexAppend
import CommandScript.Proofs.RoundTrip

/-!
Bare words in their surroundings. Formatting tells from the bytes alone whether a part can be
written bare; lexing finds a word by where it starts and how far it goes. Both mean the same words:
`isBareWord` holds of the bytes that are one word when they are lexed on their own, and such bytes
stay one word behind all whole lines and in front of everything that no word goes on with.
-/

namespace CommandScript

/-- Lexed on their own, the bytes are one word and nothing else. The space in front keeps them from
the start of a line, where a question mark begins a directive. -/
def LexesAsWord (word : Bytes) : Prop :=
  ∃ t, (Lexing.ofSource (Byte.space :: word)).result = .ok [t] ∧ t.kind = .word ∧
    t.text = word

/-- The words of every source are bare words. -/
theorem isBareWord_of_mem_lexing {source : Bytes} {t : Token}
    (ht : t ∈ (Lexing.ofSource source).tokens) (hkind : t.kind = .word) :
    isBareWord t.text = true := by
  have hpart : t.isPart = true := by simp [Token.isPart, hkind]
  have hbare : t.part.quoted = false := by simp [Token.part, hkind]
  exact (Part.writable_bare hbare).mp (writable_of_mem_lexing ht hpart)

namespace Lexing

theorem tokens_of_result {lexing : Lexing} {tokens : List Token}
    (h : lexing.result = .ok tokens) : lexing.tokens = tokens := by
  unfold result at h
  split at h
  · exact Except.ok.inj h
  · cases h

/-- Behind whole lines and a space, a bare word is one word up to where it ends. What follows is
lexed as if it stood right behind the space, only further on by the word and further down by the
lines. -/
theorem ofSource_bareWord {first word behind : Bytes} (hword : isBareWord word = true)
    (hlines : first = [] ∨ first.getLast? = some Byte.lineFeed)
    (hok : (ofSource first).error = none) (hends : EndsWord behind) :
    ofSource (first ++ Byte.space :: (word ++ behind)) =
      let others := (ofSource (Byte.space :: behind)).below (first.length + word.length)
        (first.count Byte.lineFeed)
      { others with
        tokens := (ofSource first).tokens ++
          Token.ofWord word (lineNumber (first.count Byte.lineFeed + 1)) (first.length + 1) ::
            others.tokens } := by
  let lines := first.count Byte.lineFeed
  let atWord : Cursor := ⟨word ++ behind, first.length + 1, lines + 1, false⟩
  have hfirst := Cursor.reads_extend (Byte.space :: (word ++ behind)) (Cursor.at_ofSource first)
    (endsLine_ofSource hlines) hok
  have hspace : Cursor.Reads ⟨Byte.space :: (word ++ behind), first.length, lines + 1, true⟩ []
      atWord :=
    Cursor.reads_blank (Cursor.step_of_space rfl)
  obtain ⟨hread, hbehind⟩ :=
    Cursor.reads_bareWord (c := atWord) hword rfl hends (by simp [atWord])
  -- The cursor behind the word is the one behind a space alone, moved by the word and the lines.
  let atOthers : Cursor := ⟨behind, 1, 1, false⟩
  have hothers : ofSource (Byte.space :: behind) = atOthers.lex :=
    Cursor.lex_of_blank (Cursor.step_of_space rfl)
  have hplace : atWord.advance word behind =
      atOthers.below (first.length + word.length) lines := by
    have hoffset : first.length + 1 + word.length = 1 + (first.length + word.length) := by omega
    have hline : lines + 1 + word.count Byte.lineFeed = 1 + lines :=
      hbehind.line_eq.trans (Nat.add_comm lines 1)
    simp only [atWord, atOthers, Cursor.advance, Cursor.below, hoffset, hline]
  have hall := hfirst.trans (hspace.trans hread)
  rw [hplace] at hall
  unfold Cursor.Reads at hall
  rw [Cursor.lex_below, ← hothers, List.nil_append, List.append_assoc] at hall
  exact hall

end Lexing

/-- On its own, a bare word has no lines in front and ends with the source. -/
theorem lexesAsWord_of_isBareWord {word : Bytes} (h : isBareWord word = true) :
    LexesAsWord word := by
  have hempty : Lexing.ofSource [] = ⟨[], none, 1⟩ := by decide +kernel
  have hspace : Lexing.ofSource [Byte.space] = ⟨[], none, 1⟩ := by decide +kernel
  have hends : EndsWord [] := by simp [EndsWord]
  have hlexing := Lexing.ofSource_bareWord h (.inl rfl) (congrArg Lexing.error hempty) hends
  rw [List.nil_append, List.append_nil, hempty, hspace] at hlexing
  refine ⟨Token.ofWord word 1 1, ?_, rfl, rfl⟩
  rw [hlexing]
  rfl

theorem isBareWord_of_lexesAsWord {word : Bytes} (h : LexesAsWord word) :
    isBareWord word = true := by
  obtain ⟨t, hresult, hkind, htext⟩ := h
  have hmem : t ∈ (Lexing.ofSource (Byte.space :: word)).tokens := by
    rw [Lexing.tokens_of_result hresult]
    exact List.mem_singleton_self t
  rw [← htext]
  exact isBareWord_of_mem_lexing hmem hkind

/-- What formatting takes for a bare word is what lexing takes for one: these bytes and no others
are one word when they are lexed on their own. And they are this one word wherever a word can stand:
behind whole lines without an error and a space, and in front of anything that no word goes on with.
-/
theorem isBareWord_iff_lexesAsWord (word : Bytes) :
    (isBareWord word = true ↔ LexesAsWord word) ∧
    (isBareWord word = true → ∀ first behind : Bytes,
      (first = [] ∨ first.getLast? = some Byte.lineFeed) →
      (Lexing.ofSource first).error = none → EndsWord behind →
      Lexing.ofSource (first ++ Byte.space :: (word ++ behind)) =
        let others := (Lexing.ofSource (Byte.space :: behind)).below (first.length + word.length)
          (first.count Byte.lineFeed)
        { others with
          tokens := (Lexing.ofSource first).tokens ++
            Token.ofWord word (lineNumber (first.count Byte.lineFeed + 1)) (first.length + 1) ::
              others.tokens }) := by
  refine ⟨⟨lexesAsWord_of_isBareWord, isBareWord_of_lexesAsWord⟩, ?_⟩
  intro hword first behind hlines hok hends
  exact Lexing.ofSource_bareWord hword hlines hok hends

/-- A word with a question mark in front and a quote inside, behind the start of a block. It stays
one word, though the string right behind it is never closed. -/
theorem isBareWord_iff_lexesAsWord_in_block :
    let first := Bytes.ofString "?begin\n"
    let word := Bytes.ofString "?'s"
    let behind : Bytes := [Byte.doubleQuote, Byte.hash]
    isBareWord word = true ∧ LexesAsWord word ∧ first.getLast? = some Byte.lineFeed ∧
      (Lexing.ofSource first).error = none ∧ EndsWord behind ∧
      Lexing.ofSource (first ++ Byte.space :: (word ++ behind)) =
        ⟨[⟨.directive, Bytes.ofString "begin", 1, 0, 6, true, 1⟩,
            ⟨.newline, [Byte.lineFeed], 1, 6, 7, true, 2⟩,
            ⟨.word, Bytes.ofString "?'s", 2, 8, 11, true, 2⟩],
          some ⟨.unclosedString, 2, 11⟩, 2⟩ := by
  intro first word behind
  obtain ⟨halone, haround⟩ := isBareWord_iff_lexesAsWord word
  have hword : isBareWord word = true := by decide
  have hlines : first.getLast? = some Byte.lineFeed := by decide
  have hfirst : Lexing.ofSource first =
      ⟨[⟨.directive, Bytes.ofString "begin", 1, 0, 6, true, 1⟩,
          ⟨.newline, [Byte.lineFeed], 1, 6, 7, true, 2⟩], none, 2⟩ := by
    decide +kernel
  have hok : (Lexing.ofSource first).error = none := congrArg Lexing.error hfirst
  have hends : EndsWord behind := by
    rintro b ⟨⟩
    rfl
  have hbehind : Lexing.ofSource (Byte.space :: behind) =
      ⟨[], some ⟨.unclosedString, 1, 1⟩, 1⟩ := by
    decide +kernel
  refine ⟨hword, halone.mp hword, hlines, hok, hends, ?_⟩
  rw [haround hword first behind (.inr hlines) hok hends, hfirst, hbehind]
  rfl

end CommandScript
