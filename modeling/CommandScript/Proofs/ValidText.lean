import CommandScript.Proofs.Decoding
import CommandScript.Proofs.Grouping
import CommandScript.Program.Format

/-!
Valid UTF-8 from the source to the parts and back to the text. A byte of ASCII always stands between
characters, and whatever is cut off, replaced or put in on the way is made of such bytes. So a part
of a valid source is valid, and the text of a program is valid exactly when all of its parts are.
-/

namespace CommandScript

namespace Utf8

variable {state : State} {b : UInt8} {bytes front tail : Bytes}

/-! ### Bytes of ASCII -/

/-- A byte of ASCII is read between characters. -/
theorem validFrom_ascii (hlong : state.IsLong) (hb : b < 0x80) (rest : Bytes) :
    validFrom state (b :: rest) = (decide (state = .ready) && isValid rest) := by
  have hstart : start b = ([some (Char.ofNat b.toNat)], .ready) := by
    rw [start, if_pos hb]
  rw [validFrom_cons]
  cases state with
  | ready =>
      rw [step, hstart]
      rfl
  | within bits low high more =>
      have hbreaks : (low ≤ b && b ≤ high) = false := by
        rw [Bool.eq_false_iff, ne_eq, toNat_bounds]
        have hlow := hlong.1
        have hcode := UInt8.lt_iff_toNat_lt.mp hb
        have hascii : (0x80 : UInt8).toNat = 0x80 := rfl
        omega
      rw [step, hbreaks]
      rfl

theorem isValid_ascii (hb : b < 0x80) (rest : Bytes) : isValid (b :: rest) = isValid rest := by
  rw [← validFrom_ready, validFrom_ascii State.isLong_ready hb]
  rfl

theorem isValid_append_ascii (hascii : ∀ b ∈ front, b < 0x80) (rest : Bytes) :
    isValid (front ++ rest) = isValid rest := by
  induction front with
  | nil => rfl
  | cons b front ih =>
      obtain ⟨hb, hfront⟩ := List.forall_mem_cons.mp hascii
      rw [List.cons_append, isValid_ascii hb, ih hfront]

/-- What goes on with ASCII, or not at all, takes no part in what stands in front of it. -/
theorem validFrom_append (hlong : state.IsLong) (htail : ∀ b ∈ tail.head?, b < 0x80)
    (front : Bytes) :
    validFrom state (front ++ tail) = (validFrom state front && isValid tail) := by
  induction front generalizing state with
  | nil =>
      cases tail with
      | nil => exact (Bool.and_true _).symm
      | cons b rest =>
          have hb : b < 0x80 := htail b rfl
          rw [List.nil_append, validFrom_ascii hlong hb, isValid_ascii hb]
          cases state <;> rfl
  | cons c front ih =>
      rw [List.cons_append, validFrom_cons, validFrom_cons, ih (isLong_step hlong c),
        Bool.and_assoc]

theorem isValid_append (htail : ∀ b ∈ tail.head?, b < 0x80) (front : Bytes) :
    isValid (front ++ tail) = (isValid front && isValid tail) :=
  validFrom_append State.isLong_ready htail front

/-- Where a run of bytes ends at ASCII, both sides of the cut are valid. -/
theorem isValid_span {p : UInt8 → Bool} (hp : ∀ b, p b = false → b < 0x80)
    (h : isValid bytes = true) :
    isValid (bytes.takeWhile p) = true ∧ isValid (bytes.dropWhile p) = true := by
  have htail : ∀ b ∈ (bytes.dropWhile p).head?, b < 0x80 := by
    intro b hb
    apply hp b
    have hnot := List.head?_dropWhile_not p bytes
    rw [Option.mem_def.mp hb] at hnot
    simpa using hnot
  rwa [← List.takeWhile_append_dropWhile (p := p) (l := bytes), isValid_append htail,
    Bool.and_eq_true] at h

end Utf8

/-! ### Escapes -/

namespace Escape

open Utf8

theorem table_ascii {letter b : UInt8} (h : meaning? letter = some b) :
    letter < 0x80 ∧ b < 0x80 := by
  have htable : ∀ pair ∈ table, pair.1 < 0x80 ∧ pair.2 < 0x80 :=
    List.all_iff_forall_prop.mp (by decide)
  exact htable _ (mem_table_of_meaning? h)

/-- Reading escapes keeps validity, wherever the bytes are met. -/
theorem validFrom_unescape {state : State} (hlong : state.IsLong) (raw : Bytes) :
    validFrom state (unescape raw) = validFrom state raw := by
  fun_induction unescape raw generalizing state with
  | case1 => rfl
  | case2 b => rfl
  | case3 b letter rest hb byte hbyte ih =>
      obtain rfl : b = Byte.backslash := by simpa using hb
      obtain ⟨hletter, hascii⟩ := table_ascii hbyte
      rw [validFrom_ascii hlong hascii, validFrom_ascii hlong (by decide), isValid_ascii hletter,
        ← validFrom_ready, ih State.isLong_ready]
      rfl
  | case4 b letter rest hb hnone ih =>
      rw [validFrom_cons, validFrom_cons state, ih (isLong_step hlong b)]
  | case5 b letter rest hb ih =>
      rw [validFrom_cons, validFrom_cons state, ih (isLong_step hlong b)]

theorem isValid_unescape (raw : Bytes) : isValid (unescape raw) = isValid raw :=
  validFrom_unescape State.isLong_ready raw

/-- Writing escapes keeps validity, wherever the bytes are met. -/
theorem validFrom_escape {state : State} (hlong : state.IsLong) (value : Bytes) :
    validFrom state (escape value) = validFrom state value := by
  induction value generalizing state with
  | nil => rfl
  | cons b rest ih =>
      rw [escape_cons]
      cases hletter : letter? b with
      | none =>
          rw [escapeByte_of_none hletter, List.singleton_append, validFrom_cons,
            validFrom_cons state, ih (isLong_step hlong b)]
      | some letter =>
          obtain ⟨hascii, hb⟩ := table_ascii (letter?_eq_some_iff.mp hletter)
          rw [escapeByte_of_some hletter, List.cons_append, List.singleton_append,
            validFrom_ascii hlong hb, validFrom_ascii hlong (by decide), isValid_ascii hascii,
            ← validFrom_ready, ih State.isLong_ready]
          rfl

theorem isValid_quoted (value : Bytes) : isValid (quoted value) = isValid value := by
  have hquote : quoteFor value < 0x80 := by
    obtain ⟨hquote | hquote, -, -⟩ := quote_bytes (isQuote_quoteFor value) <;>
      rw [hquote] <;> decide
  have hend : ∀ b ∈ [quoteFor value].head?, b < 0x80 := by
    simpa using hquote
  rw [quoted, List.cons_append, isValid_ascii hquote, isValid_append hend, isValid_ascii hquote,
    ← validFrom_ready (escape value), validFrom_escape State.isLong_ready]
  exact Bool.and_true _

end Escape

/-! ### From a source to its parts -/

theorem Byte.lt_of_isAlphanumeric {b : UInt8} (h : Byte.isAlphanumeric b = true) : b < 0x80 := by
  simp only [isAlphanumeric, Bool.or_eq_true, Bool.and_eq_true, decide_eq_true_eq,
    UInt8.le_iff_toNat_le] at h
  rw [UInt8.lt_iff_toNat_lt]
  have hnine : (0x39 : UInt8).toNat = 0x39 := rfl
  have hupper : (0x5a : UInt8).toNat = 0x5a := rfl
  have hlower : (0x7a : UInt8).toNat = 0x7a := rfl
  have hascii : (0x80 : UInt8).toNat = 0x80 := rfl
  omega

theorem Byte.lt_of_not_isWord {b : UInt8} (h : Byte.isWord b = false) : b < 0x80 := by
  by_contra hge
  have habove : (0x80 ≤ b : Bool) = true := decide_eq_true (UInt8.not_lt.mp hge)
  simp [isWord, habove] at h

namespace Cursor

open Utf8

/-- Lexing cuts a valid source at ASCII only: the token is valid, and so is what lies behind it. -/
theorem isValid_of_step {c : Cursor} (h : isValid c.rest = true) :
    (∀ after ∈ c.step.after?, isValid after.rest = true) ∧
      ∀ token after, c.step = .token token after → isValid token.text = true := by
  have hmeets := meets_step c
  generalize c.step = step at hmeets
  cases hmeets with
  | finished => simp [Step.after?]
  | @directive rest _ hrest _ hafter =>
      have hname : ∀ b ∈ rest.takeWhile Byte.isAlphanumeric, b < 0x80 :=
        fun b hb => Byte.lt_of_isAlphanumeric (List.mem_takeWhile_imp hb)
      rw [hrest, isValid_ascii (by decide),
        ← List.takeWhile_append_dropWhile (p := Byte.isAlphanumeric) (l := rest),
        isValid_append_ascii hname] at h
      have htext : isValid (rest.takeWhile Byte.isAlphanumeric) = true := by
        rw [← List.append_nil (rest.takeWhile _), isValid_append_ascii hname]
        rfl
      simpa [Step.after?, hafter, Cursor.token, advance, htext] using h
  | newline hrest hafter =>
      rw [hrest, isValid_ascii (by decide)] at h
      have htext : isValid [Byte.lineFeed] = true := rfl
      simpa [Step.after?, hafter, Cursor.token, advance, htext] using h
  | @comment rest _ hrest hafter =>
      rw [hrest, isValid_ascii (by decide)] at h
      have hline : ∀ b, (b != Byte.lineFeed) = false → b < 0x80 := by
        intro b hb
        obtain rfl : b = Byte.lineFeed := by simpa using hb
        decide
      simpa [Step.after?, hafter, advance] using (isValid_span hline h).2
  | @space b _ _ hrest hspace hafter =>
      have hb : b < 0x80 := by
        apply Byte.lt_of_not_isWord
        by_contra hword
        rw [(Byte.ne_of_isWord (by simpa using hword)).2.2] at hspace
        cases hspace
      rw [hrest, isValid_ascii hb] at h
      simpa [Step.after?, hafter, advance] using h
  | @string quote body behind _ hrest hquote _ hafter =>
      have hb : quote < 0x80 := by
        obtain ⟨rfl | rfl, -, -⟩ := quote_bytes hquote <;> decide
      have hend : ∀ b ∈ (quote :: behind).head?, b < 0x80 := by
        simpa using hb
      rw [hrest, isValid_ascii hb, isValid_append hend, isValid_ascii hb, Bool.and_eq_true] at h
      simpa [Step.after?, hafter, Cursor.token, advance, Escape.isValid_unescape] using h.symm
  | unclosed => simp [Step.after?]
  | @word b rest _ hrest hword _ _ hafter =>
      rw [hrest] at h
      have hspan := isValid_span (fun _ => Byte.lt_of_not_isWord) h
      rw [List.takeWhile_cons_of_pos hword, List.dropWhile_cons_of_pos hword] at hspan
      simpa [Step.after?, hafter, Cursor.token, advance] using hspan.symm
  | unexpected => simp [Step.after?]

end Cursor

/-- Every token of a valid source has a valid text. -/
theorem Lexing.isValid_text {source : Bytes} (h : Utf8.isValid source = true) :
    ∀ t ∈ (ofSource source).tokens, Utf8.isValid t.text = true :=
  (Cursor.lex_induction (I := fun c => Utf8.isValid c.rest = true)
    (P := fun t => Utf8.isValid t.text = true) (E := fun _ => True)
    (fun _ after hc hafter => (Cursor.isValid_of_step hc).1 after hafter)
    (fun _ after token hc hstep => (Cursor.isValid_of_step hc).2 token after hstep)
    (fun _ _ _ _ _ => trivial) h).1

namespace Program

/-- Every part of the program is valid UTF-8. -/
def IsText (p : Program) : Prop :=
  ∀ line ∈ p.lines, ∀ part ∈ line.parts, Utf8.isValid part.text = true

theorem isText_of_ofSource {settings : ParseSettings} {source : Bytes} {p : Program}
    (hsource : Utf8.isValid source = true) (h : ofSource settings source = .ok p) : p.IsText := by
  obtain ⟨-, -, g, g', hadd, hend, rfl⟩ := Grouping.of_ofSource h
  obtain ⟨-, hparts⟩ := Grouping.collects_of_endLine hadd hend
  intro line hline part hpart
  have hmem : part ∈ g'.program.lines.flatMap Line.parts :=
    List.mem_flatMap.mpr ⟨line, hline, hpart⟩
  rw [hparts] at hmem
  obtain ⟨t, ht, rfl⟩ := List.mem_map.mp hmem
  exact Lexing.isValid_text hsource t (List.mem_filter.mp ht).1

end Program

/-! ### From the parts to their text -/

open Utf8

theorem Part.isValid_format (part : Part) : isValid part.format = isValid part.text := by
  rw [Part.format]
  split
  · rfl
  · exact Escape.isValid_quoted part.text

namespace Line

/-- The rest of a line behind a part starts with a space or is its line feed. -/
theorem head?_format_args (args : List Part) (rest : Bytes) :
    ∀ b ∈ (args.flatMap (fun arg => Byte.space :: arg.format) ++ Byte.lineFeed :: rest).head?,
      b < 0x80 := by
  cases args <;> simp <;> decide

theorem isValid_format_args (args : List Part) (rest : Bytes) :
    isValid (args.flatMap (fun arg => Byte.space :: arg.format) ++ Byte.lineFeed :: rest) =
      (args.all (fun arg => isValid arg.text) && isValid rest) := by
  induction args with
  | nil => exact isValid_ascii (by decide) rest
  | cons arg args ih =>
      rw [List.flatMap_cons, List.append_assoc, List.cons_append, isValid_ascii (by decide),
        isValid_append (head?_format_args args rest), arg.isValid_format, ih, List.all_cons,
        Bool.and_assoc]

theorem isValid_format_append (line : Line) (rest : Bytes) :
    isValid (line.format ++ rest) =
      (line.parts.all (fun part => isValid part.text) && isValid rest) := by
  have hindent : ∀ b ∈ line.indent, b < 0x80 := by
    unfold indent
    split
    · intro b hb
      obtain rfl := List.mem_singleton.mp hb
      decide
    · simp
  rw [format, List.append_assoc, List.append_assoc, List.append_assoc,
    isValid_append_ascii hindent, List.singleton_append,
    isValid_append (head?_format_args line.args rest), line.name.isValid_format,
    isValid_format_args, parts, List.all_cons, Bool.and_assoc]

end Line

theorem Program.isValid_format_iff (p : Program) : isValid p.format = true ↔ p.IsText := by
  have hlines (lines : List Line) : isValid (lines.flatMap Line.format) =
      lines.all fun line => line.parts.all fun part => isValid part.text := by
    induction lines with
    | nil => rfl
    | cons line lines ih =>
        rw [List.flatMap_cons, line.isValid_format_append, ih, List.all_cons]
  rw [Program.format, hlines, List.all_eq_true]
  simp only [List.all_eq_true, IsText]

/-- UTF-8 goes through. Every name and argument that is read from a valid source is the form of a
text. The text of a program, wherever it comes from, is valid exactly when all of its parts are, and
then it is shown as it is, byte for byte. -/
theorem utf8_preserved :
    (∀ settings source p, isValid source = true → Program.parseWith settings source = .ok p →
      ∀ line ∈ p.lines, ∀ part ∈ line.parts,
        ∃ text, part.text? = some text ∧ part.text = Bytes.ofString text) ∧
    ∀ p : Program,
      (isValid p.format = true ↔
        ∀ line ∈ p.lines, ∀ part ∈ line.parts, isValid part.text = true) ∧
      (isValid p.format = true → Bytes.ofString p.formatText = p.format) := by
  refine ⟨?_, fun p => ⟨p.isValid_format_iff, lossy_of_isValid⟩⟩
  intro settings source p hsource h line hline part hpart
  have hvalid := Program.isText_of_ofSource hsource (Program.parseWith_eq_ok_iff.mp h) line hline
    part hpart
  obtain ⟨text, htext⟩ := isValid_iff_exists.mp hvalid
  exact ⟨text, decode?_eq_some_iff.mpr htext, htext⟩

/-- A backslash that takes along the first byte of a longer character, with an escape behind it. -/
theorem utf8_preserved_backslash :
    let source := Bytes.ofString "say '\\é\\t'\n"
    ∃ p, isValid source = true ∧ Program.parseWith {} source = .ok p ∧ p.size = 1 ∧
      (∀ line ∈ p.lines, ∀ part ∈ line.parts,
        ∃ text, part.text? = some text ∧ part.text = Bytes.ofString text) ∧
      isValid p.format = true ∧ Bytes.ofString p.formatText = p.format := by
  intro source
  have hsource : isValid source = true := isValid_ofString _
  have h : Program.parseWith {} source = .ok ⟨[
      ⟨⟨unknownFile, 1⟩, ⟨[0x73, 0x61, 0x79], false, true⟩,
        [⟨[0x5c, 0xc3, 0xa9, 0x09], true, false⟩], by simp⟩]⟩ := by
    decide +kernel
  have hparts := utf8_preserved.1 _ _ _ hsource h
  obtain ⟨hiff, hshown⟩ := utf8_preserved.2 _
  have hvalid := hiff.mpr fun line hline part hpart => by
    obtain ⟨text, -, hbytes⟩ := hparts line hline part hpart
    rw [hbytes]
    exact isValid_ofString text
  exact ⟨_, hsource, h, rfl, hparts, hvalid, hshown hvalid⟩

end CommandScript
