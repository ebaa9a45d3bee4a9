import CommandScript.Source.Escape
import Mathlib.Data.Bool.AllAny
import Mathlib.Data.List.Chain

/-!
When reading a string undoes writing it. A written backslash is copied, so a value comes back from
its written form exactly when none of its backslashes meets a letter of the table in the next byte.
The double quote is the exception, since writing puts a backslash of its own in front of it. What
reading gives is always such a value.
-/

namespace CommandScript.Escape

/-! ### The table -/

theorem mem_table_of_meaning? {letter b : UInt8} (h : meaning? letter = some b) :
    (letter, b) ∈ table := by
  obtain ⟨pair, hfind, rfl⟩ := Option.map_eq_some_iff.mp h
  have hletter : pair.1 = letter := by simpa using List.find?_some hfind
  rw [← hletter]
  exact List.mem_of_find?_eq_some hfind

theorem mem_table_of_letter? {letter b : UInt8} (h : letter? b = some letter) :
    (letter, b) ∈ table := by
  obtain ⟨pair, hfind, rfl⟩ := Option.map_eq_some_iff.mp h
  have hbyte : pair.2 = b := by simpa using List.find?_some hfind
  rw [← hbyte]
  exact List.mem_of_find?_eq_some hfind

/-- Letters and bytes of the table belong to each other. -/
theorem letter?_eq_some_iff {letter b : UInt8} :
    letter? b = some letter ↔ meaning? letter = some b := by
  have htable : ∀ pair ∈ table, letter? pair.2 = some pair.1 ∧ meaning? pair.1 = some pair.2 :=
    List.all_iff_forall_prop.mp (by decide)
  constructor
  · intro h
    exact (htable _ (mem_table_of_letter? h)).2
  · intro h
    exact (htable _ (mem_table_of_meaning? h)).1

/-- Neither side of the table holds a backslash or a single quote, and no letter is a line feed. The
double quote stands for itself. -/
theorem table_bytes {letter b : UInt8} (h : meaning? letter = some b) :
    letter ≠ Byte.backslash ∧ letter ≠ Byte.singleQuote ∧ letter ≠ Byte.lineFeed ∧
      b ≠ Byte.backslash ∧ b ≠ Byte.singleQuote ∧
      (letter = Byte.doubleQuote ↔ b = Byte.doubleQuote) := by
  have htable : ∀ pair ∈ table,
      pair.1 ≠ Byte.backslash ∧ pair.1 ≠ Byte.singleQuote ∧ pair.1 ≠ Byte.lineFeed ∧
        pair.2 ≠ Byte.backslash ∧ pair.2 ≠ Byte.singleQuote ∧
        (pair.1 = Byte.doubleQuote ↔ pair.2 = Byte.doubleQuote) :=
    List.all_iff_forall_prop.mp (by decide)
  exact htable _ (mem_table_of_meaning? h)

/-- A byte of the table is either no letter itself or the double quote. -/
theorem meaning?_of_meaning? {letter b : UInt8} (h : meaning? letter = some b) :
    b = Byte.doubleQuote ∨ meaning? b = none := by
  have htable : ∀ pair ∈ table, pair.2 = Byte.doubleQuote ∨ meaning? pair.2 = none :=
    List.all_iff_forall_prop.mp (by decide)
  exact htable _ (mem_table_of_meaning? h)

@[simp] theorem letter?_backslash : letter? Byte.backslash = none := rfl

@[simp] theorem letter?_lineFeed : letter? Byte.lineFeed = some 0x6e := rfl

@[simp] theorem meaning?_doubleQuote : meaning? Byte.doubleQuote = some Byte.doubleQuote := rfl

@[simp] theorem letter?_doubleQuote : letter? Byte.doubleQuote = some Byte.doubleQuote := rfl

/-! ### Reading -/

theorem unescape_cons_of_ne {b : UInt8} (hb : b ≠ Byte.backslash) (rest : Bytes) :
    unescape (b :: rest) = b :: unescape rest := by
  cases rest with
  | nil => rfl
  | cons letter rest => simp [unescape, hb]

/-- A backslash in front of a letter of the table is read together with it. -/
theorem unescape_letter {letter b : UInt8} (h : meaning? letter = some b) (rest : Bytes) :
    unescape (Byte.backslash :: letter :: rest) = b :: unescape rest := by
  simp [unescape, h]

/-- A backslash stays where no letter of the table follows. -/
theorem unescape_backslash {rest : Bytes} (h : ∀ letter ∈ rest.head?, meaning? letter = none) :
    unescape (Byte.backslash :: rest) = Byte.backslash :: unescape rest := by
  cases rest with
  | nil => rfl
  | cons letter rest => simp [unescape, h letter rfl]

/-- No backslash stands right before a letter of the table, the double quote apart. -/
def HasNoEscape (value : Bytes) : Prop :=
  value.IsChain fun b letter =>
    b = Byte.backslash → letter = Byte.doubleQuote ∨ meaning? letter = none

/-- The first byte of what is read: the first byte read, or a byte of the table. -/
theorem head?_unescape {raw : Bytes} {b : UInt8} (h : (unescape raw).head? = some b) :
    raw.head? = some b ∨ b = Byte.doubleQuote ∨ meaning? b = none := by
  fun_cases unescape raw with
  | case1 => simp [unescape] at h
  | case2 c => exact Or.inl h
  | case3 c letter rest hc byte hbyte =>
      obtain rfl : c = Byte.backslash := by simpa using hc
      rw [unescape_letter hbyte, List.head?_cons, Option.some.injEq] at h
      exact Or.inr (h ▸ meaning?_of_meaning? hbyte)
  | case4 c letter rest hc hnone =>
      obtain rfl : c = Byte.backslash := by simpa using hc
      rw [unescape_backslash (by simpa using hnone)] at h
      exact Or.inl h
  | case5 c letter rest hc =>
      rw [unescape_cons_of_ne (by simpa using hc)] at h
      exact Or.inl h

/-- Whatever is read, the value holds no escape that could be read again. -/
theorem hasNoEscape_unescape (raw : Bytes) : HasNoEscape (unescape raw) := by
  fun_induction unescape raw with
  | case1 => exact .nil
  | case2 b => exact .singleton b
  | case3 c letter rest _ byte hbyte ih =>
      refine List.isChain_cons.mpr ⟨?_, ih⟩
      intro next _ hbackslash
      exact absurd hbackslash (table_bytes hbyte).2.2.2.1
  | case4 c letter rest _ hnone ih =>
      refine List.isChain_cons.mpr ⟨?_, ih⟩
      intro next hnext _
      rcases head?_unescape hnext with hhead | hnext
      · obtain rfl : letter = next := by simpa using hhead
        exact Or.inr hnone
      · exact hnext
  | case5 c letter rest hc ih =>
      refine List.isChain_cons.mpr ⟨?_, ih⟩
      intro next _ hbackslash
      exact absurd hbackslash (by simpa using hc)

/-! ### Writing -/

@[simp] theorem escape_nil : escape [] = [] := rfl

@[simp] theorem escape_cons (b : UInt8) (value : Bytes) :
    escape (b :: value) = escapeByte b ++ escape value := rfl

theorem escapeByte_of_some {letter b : UInt8} (h : letter? b = some letter) :
    escapeByte b = [Byte.backslash, letter] := by
  simp [escapeByte, h]

theorem escapeByte_of_none {b : UInt8} (h : letter? b = none) : escapeByte b = [b] := by
  simp [escapeByte, h]

/-- The first byte of a written value: a backslash, or the first byte of the value where that has no
letter. -/
theorem head?_escape {value : Bytes} {b : UInt8} (h : (escape value).head? = some b) :
    b = Byte.backslash ∨ (value.head? = some b ∧ letter? b = none) := by
  cases value with
  | nil => simp at h
  | cons c rest =>
      cases hletter : letter? c with
      | none =>
          obtain rfl : c = b := by simpa [escapeByte_of_none hletter] using h
          exact Or.inr ⟨rfl, hletter⟩
      | some letter =>
          rw [escape_cons, escapeByte_of_some hletter] at h
          exact Or.inl (Option.some.inj h).symm

/-- A value that holds no escape comes back from its written form. -/
theorem unescape_escape {value : Bytes} (h : HasNoEscape value) :
    unescape (escape value) = value := by
  induction value with
  | nil => rfl
  | cons b rest ih =>
      obtain ⟨hnext, hrest⟩ := List.isChain_cons.mp h
      cases hletter : letter? b with
      | some letter =>
          rw [escape_cons, escapeByte_of_some hletter, List.cons_append, List.singleton_append,
            unescape_letter (letter?_eq_some_iff.mp hletter), ih hrest]
      | none =>
          rw [escape_cons, escapeByte_of_none hletter, List.singleton_append]
          by_cases hb : b = Byte.backslash
          · subst hb
            rw [unescape_backslash ?_, ih hrest]
            intro letter hhead
            rcases head?_escape hhead with rfl | ⟨hhead, hnone⟩
            · rfl
            · rcases hnext letter hhead rfl with rfl | hmeaning
              · simp at hnone
              · exact hmeaning
          · rw [unescape_cons_of_ne hb, ih hrest]

/-- A written value holds no line feed. -/
theorem lineFeed_notMem_escape (value : Bytes) : Byte.lineFeed ∉ escape value := by
  intro hmem
  obtain ⟨b, _, hb⟩ := List.mem_flatMap.mp hmem
  cases hletter : letter? b with
  | none =>
      rw [escapeByte_of_none hletter, List.mem_singleton] at hb
      subst hb
      simp at hletter
  | some letter =>
      rw [escapeByte_of_some hletter] at hb
      have hline := (table_bytes (letter?_eq_some_iff.mp hletter)).2.2.1
      rcases List.mem_pair.mp hb with hbackslash | hb
      · exact absurd hbackslash (by decide)
      · exact hline hb.symm

/-! ### Letters that are no quote -/

/-- The letters of the table but for the double quote, which stands for itself. -/
def controlLetters : Bytes := Bytes.ofString "nrfvta0"

theorem notMem_controlLetters_iff {letter : UInt8} :
    letter ∉ controlLetters ↔ letter = Byte.doubleQuote ∨ meaning? letter = none := by
  have hletters : ∀ pair ∈ table, pair.1 = Byte.doubleQuote ∨ pair.1 ∈ controlLetters :=
    List.all_iff_forall_prop.mp (by decide)
  have htable : ∀ letter ∈ controlLetters, letter ≠ Byte.doubleQuote ∧ meaning? letter ≠ none :=
    List.all_iff_forall_prop.mp (by decide)
  constructor
  · intro hnot
    cases hmeaning : meaning? letter with
    | none => exact Or.inr rfl
    | some b =>
        rcases hletters _ (mem_table_of_meaning? hmeaning) with hdouble | hmem
        · exact Or.inl hdouble
        · exact absurd hmem hnot
  · intro h hmem
    obtain ⟨hdouble, hmeaning⟩ := htable letter hmem
    exact h.elim hdouble hmeaning

theorem hasNoEscape_iff {value : Bytes} :
    HasNoEscape value ↔
      ∀ before letter after, value = before ++ Byte.backslash :: letter :: after →
        letter ∉ controlLetters := by
  unfold HasNoEscape
  rw [List.isChain_iff_forall_rel_of_append_cons_cons]
  constructor
  · intro h before letter after heq
    apply notMem_controlLetters_iff.mpr
    exact h heq rfl
  · rintro h b letter before after heq rfl
    apply notMem_controlLetters_iff.mp
    exact h before letter after heq

/-! ### Reading what was written -/

/-- What stands between the first byte of a text and its last one. -/
def inside (text : Bytes) : Bytes :=
  text.tail.dropLast

theorem inside_quoted (value : Bytes) : inside (quoted value) = escape value := by
  simp [inside, quoted]

/-- Reading undoes writing for the values that hold no escape, and for no other. -/
theorem unescape_escape_iff {value : Bytes} :
    unescape (escape value) = value ↔ HasNoEscape value := by
  constructor
  · intro h
    have hread := hasNoEscape_unescape (escape value)
    rwa [h] at hread
  · exact unescape_escape

theorem hasNoEscape_iff_infix {value : Bytes} :
    HasNoEscape value ↔ ∀ letter ∈ controlLetters, ¬ [Byte.backslash, letter] <:+: value := by
  rw [hasNoEscape_iff]
  constructor
  · rintro h letter hletter ⟨before, after, heq⟩
    exact h before letter after (by simp [← heq]) hletter
  · rintro h before letter after rfl hletter
    exact h letter hletter ⟨before, after, by simp⟩

/-- A value is read back from between its quotes if and only if no backslash in it stands right
before one of the letters, and nothing that is read holds such a pair. So writing and reading again
changes nothing that was ever read. -/
theorem unescape_quoted_iff :
    (∀ value, unescape (inside (quoted value)) = value ↔
      ∀ letter ∈ controlLetters, ¬ [Byte.backslash, letter] <:+: value) ∧
    (∀ raw, ∀ letter ∈ controlLetters, ¬ [Byte.backslash, letter] <:+: unescape raw) ∧
    ∀ raw, unescape (inside (quoted (unescape raw))) = unescape raw := by
  refine ⟨?_, ?_, ?_⟩
  · intro value
    rw [inside_quoted, unescape_escape_iff, hasNoEscape_iff_infix]
  · intro raw
    exact hasNoEscape_iff_infix.mp (hasNoEscape_unescape raw)
  · intro raw
    rw [inside_quoted, unescape_escape (hasNoEscape_unescape raw)]

-- Two backslashes and a line feed come back, though their written form ends in a letter of the
-- table.
example : quoted [0x5c, 0x5c, 0x0a] = Bytes.ofString "\"\\\\\\n\"" ∧
    unescape (inside (quoted [0x5c, 0x5c, 0x0a])) = [0x5c, 0x5c, 0x0a] := by
  decide

end CommandScript.Escape
