import CommandScript.Program.Format
import CommandScript.Proofs.Grouping

/-!
Formatting and parsing again. `Writable` says which parts have a written form that is read back as
the same part; whatever was parsed consists of such parts. A formatted line is lexed into one token
for each part and a line feed, so line by line a program comes back with its parts, one command to a
line.
-/

namespace CommandScript

open LogicalLine

/-- A bare word is not empty, consists of bytes of words and does not open a string. -/
theorem isBareWord_iff {word : Bytes} :
    isBareWord word = true ↔
      word ≠ [] ∧ (∀ b ∈ word, Byte.isWord b = true) ∧
        ∀ b ∈ word.head?, Byte.isQuote b = false := by
  cases word with
  | nil => simp [isBareWord]
  | cons first others =>
      simp only [isBareWord, Bool.and_eq_true, Bool.not_eq_true', List.all_eq_true, ne_eq,
        reduceCtorEq, not_false_eq_true, true_and, List.head?_cons, Option.mem_def,
        Option.some.injEq, forall_eq']
      exact and_comm

theorem lineFeed_notMem_of_isBareWord {word : Bytes} (h : isBareWord word = true) :
    Byte.lineFeed ∉ word := by
  obtain ⟨-, hword, -⟩ := isBareWord_iff.mp h
  exact fun hmem => (Byte.ne_of_isWord (hword _ hmem)).1 rfl

namespace Part

/-- The part has a written form that is read back as the same part: a word, or a value of some
string. -/
def Writable (part : Part) : Prop :=
  if part.quoted then
    Escape.HasNoEscape part.text ∧
      ∃ quote, Byte.isQuote quote = true ∧ Escape.Fits quote false part.text
  else isBareWord part.text = true

theorem writable_quoted {part : Part} (hquoted : part.quoted = true) :
    part.Writable ↔ Escape.HasNoEscape part.text ∧
      ∃ quote, Byte.isQuote quote = true ∧ Escape.Fits quote false part.text := by
  simp [Writable, hquoted]

theorem writable_bare {part : Part} (hquoted : part.quoted = false) :
    part.Writable ↔ isBareWord part.text = true := by
  simp [Writable, hquoted]

theorem format_quoted {part : Part} (hquoted : part.quoted = true) :
    part.format = Escape.quoteFor part.text ::
      (Escape.escape part.text ++ [Escape.quoteFor part.text]) := by
  simp [format, hquoted, Escape.quoted]

theorem format_bare {part : Part} (hquoted : part.quoted = false) (h : part.Writable) :
    part.format = part.text := by
  simp [format, hquoted, (writable_bare hquoted).mp h]

end Part

/-- Whatever lexing takes for a part can be written. -/
theorem writable_of_mem_lexing {source : Bytes} {t : Token}
    (hmem : t ∈ (Lexing.ofSource source).tokens) (ht : t.isPart = true) : t.part.Writable := by
  have hall := Cursor.lex_induction (I := fun _ => True) (E := fun _ => True)
    (P := fun t => t.isPart = true → t.part.Writable) (fun _ _ _ _ => trivial) ?_
    (fun _ _ _ _ _ => trivial) (c := Cursor.ofSource source) trivial
  · exact hall.1 t hmem ht
  intro c after t _ hstep ht
  have hmeets := Cursor.meets_step c
  rw [hstep] at hmeets
  cases hmeets with
  | directive => simp [Token.isPart, Cursor.token] at ht
  | newline => simp [Token.isPart, Cursor.token] at ht
  | @string quote body _ _ _ hquote hbody _ =>
      refine (Part.writable_quoted rfl).mpr ⟨Escape.hasNoEscape_unescape body, quote, hquote, ?_⟩
      exact Escape.fits_unescape hquote hbody (by simp)
  | @word b rest _ _ hword hquote _ _ =>
      refine (Part.writable_bare rfl).mpr ?_
      simp [Token.part, Cursor.token, isBareWord, hquote, hword]

/-! ### Lexing what was formatted -/

/-- The token of a word at an offset of a line. -/
def Token.ofWord (word : Bytes) (line : UInt32) (start : Nat) : Token where
  kind := .word
  text := word
  line := line
  start := start
  stop := start + word.length
  isShared := true
  endLine := line

/-- The token says what the part says, on this line. -/
def Token.Says (line : Nat) (t : Token) (part : Part) : Prop :=
  t.isPart = true ∧ t.part.detach = part.detach ∧ t.line = lineNumber line

namespace Cursor

/-- The cursor behind a part of a line. -/
structure IsBehind (after c : Cursor) (rest : Bytes) : Prop where
  rest_eq : after.rest = rest
  line_eq : after.line = c.line
  inLine : after.atLineStart = false

theorem isBehind_advance {c : Cursor} {taken rest : Bytes} (h : Byte.lineFeed ∉ taken) :
    (c.advance taken rest).IsBehind c rest :=
  ⟨rfl, by simp [advance, List.count_eq_zero_of_not_mem h], rfl⟩

/-- A bare word is read as one word where it ends, if it does not look like a directive. -/
theorem reads_bareWord {c : Cursor} {word rest : Bytes} (h : isBareWord word = true)
    (hrest : c.rest = word ++ rest) (hends : EndsWord rest)
    (hstart : c.atLineStart = true → word.head? ≠ some Byte.questionMark) :
    Reads c [Token.ofWord word (lineNumber c.line) c.offset] (c.advance word rest) ∧
      (c.advance word rest).IsBehind c rest := by
  have hbehind : (c.advance word rest).IsBehind c rest :=
    isBehind_advance (lineFeed_notMem_of_isBareWord h)
  obtain ⟨hne, hword, hquote⟩ := isBareWord_iff.mp h
  obtain ⟨b, others, rfl⟩ := List.exists_cons_of_ne_nil hne
  obtain ⟨hb, hothers⟩ := List.forall_mem_cons.mp hword
  obtain ⟨after, hstep, rfl⟩ := step_of_word hrest hb (hquote b rfl) hothers hends
    (fun hatStart hquestion => hstart hatStart (congrArg some hquestion))
  have htoken : c.token (c.advance (b :: others) rest) .word (b :: others) true =
      Token.ofWord (b :: others) (lineNumber c.line) c.offset := by
    rw [token, hbehind.line_eq]
    rfl
  rw [htoken] at hstep
  exact ⟨reads_token hstep, hbehind⟩

/-- The written form of a part is read as this part, if no word goes on behind it and it does not
look like a directive. -/
theorem reads_part {c : Cursor} {part : Part} {rest : Bytes} (h : part.Writable)
    (hrest : c.rest = part.format ++ rest) (hends : EndsWord rest)
    (hstart : c.atLineStart = true → part.quoted = false →
      part.text.head? ≠ some Byte.questionMark) :
    ∃ t after, Reads c [t] after ∧ t.Says c.line part ∧ after.IsBehind c rest := by
  cases hquoted : part.quoted with
  | true =>
      obtain ⟨hescape, quote, hquote, hfits⟩ := (Part.writable_quoted hquoted).mp h
      have hbody := (hfits.quoteFor hquote).stringBody (Escape.isQuote_quoteFor part.text)
      rw [Part.format_quoted hquoted] at hrest
      obtain ⟨after, hstep, hafter⟩ := step_of_string
        (show c.rest = _ :: (Escape.escape part.text ++ _ :: rest) by simpa using hrest)
        (Escape.isQuote_quoteFor part.text) hbody
      refine ⟨_, after, reads_token hstep, ⟨rfl, ?_, rfl⟩, ?_⟩
      · simp [Part.detach, Token.part, Cursor.token, hquoted, Escape.unescape_escape hescape]
      · rw [hafter]
        refine isBehind_advance ?_
        have hline := (quote_bytes (Escape.isQuote_quoteFor part.text)).2.1
        simp [hline.symm, Escape.lineFeed_notMem_escape]
  | false =>
      rw [Part.format_bare hquoted h] at hrest
      obtain ⟨hread, hbehind⟩ := reads_bareWord ((Part.writable_bare hquoted).mp h) hrest hends
        (fun hatStart => hstart hatStart hquoted)
      refine ⟨_, _, hread, ⟨rfl, ?_, rfl⟩, hbehind⟩
      simp [Part.detach, Token.part, Token.ofWord, hquoted]

theorem reads_space {c : Cursor} {rest : Bytes} (hrest : c.rest = Byte.space :: rest) :
    ∃ after, Reads c [] after ∧ after.IsBehind c rest :=
  ⟨_, reads_blank (step_of_space hrest), isBehind_advance (by decide)⟩

/-- A space or the line feed comes behind a part, and no word goes on with them. -/
theorem endsWord_args (args : List Part) (rest : Bytes) :
    EndsWord (args.flatMap (fun arg => Byte.space :: arg.format) ++ Byte.lineFeed :: rest) := by
  intro b hb
  cases args with
  | nil =>
      obtain rfl : Byte.lineFeed = b := Option.some.inj hb
      rfl
  | cons =>
      obtain rfl : Byte.space = b := Option.some.inj hb
      rfl

/-- The arguments of a line are read one by one. -/
theorem reads_args {c : Cursor} {args : List Part} {rest : Bytes}
    (hargs : ∀ arg ∈ args, arg.Writable) (hstart : c.atLineStart = false)
    (hrest : c.rest = args.flatMap (fun arg => Byte.space :: arg.format) ++ Byte.lineFeed :: rest) :
    ∃ tokens after, Reads c tokens after ∧ List.Forall₂ (Token.Says c.line) tokens args ∧
      after.IsBehind c (Byte.lineFeed :: rest) := by
  induction args generalizing c with
  | nil => exact ⟨[], c, rfl, .nil, hrest, rfl, hstart⟩
  | cons arg args ih =>
      rw [List.flatMap_cons, List.append_assoc, List.cons_append] at hrest
      obtain ⟨behindSpace, hblank, hspace⟩ := reads_space hrest
      obtain ⟨t, behindArg, hread, hsays, hbehind⟩ := reads_part
        (hargs arg (by simp)) hspace.rest_eq (endsWord_args args rest) (by simp [hspace.inLine])
      obtain ⟨tokens, after, hreads, hall, hafter⟩ := ih
        (fun arg harg => hargs arg (by simp [harg])) hbehind.inLine hbehind.rest_eq
      rw [hspace.line_eq] at hsays
      rw [hbehind.line_eq, hspace.line_eq] at hall
      refine ⟨t :: tokens, after, (hblank.trans hread).trans hreads, .cons hsays hall, ?_⟩
      exact ⟨hafter.rest_eq, by rw [hafter.line_eq, hbehind.line_eq, hspace.line_eq],
        hafter.inLine⟩

/-- The cursor at the start of the next line. -/
structure IsBelow (after c : Cursor) (rest : Bytes) : Prop where
  rest_eq : after.rest = rest
  line_eq : after.line = c.line + 1
  atStart : after.atLineStart = true

theorem reads_newline {c : Cursor} {rest : Bytes} (hrest : c.rest = Byte.lineFeed :: rest) :
    ∃ t after, Reads c [t] after ∧ t.kind = .newline ∧ after.IsBelow c rest := by
  obtain ⟨after, hstep, hafter⟩ := step_of_newline hrest
  refine ⟨_, after, reads_token hstep, rfl, ?_⟩
  rw [hafter]
  exact ⟨rfl, rfl, rfl⟩

/-- A space stands in front of a name just where it keeps the name from being a directive. -/
theorem reads_indent {c : Cursor} {line : Line} {rest : Bytes}
    (hrest : c.rest = line.indent ++ rest) :
    ∃ after, Reads c [] after ∧ after.rest = rest ∧ after.line = c.line ∧
      (after.atLineStart = true → line.name.quoted = false →
        line.name.text.head? ≠ some Byte.questionMark) := by
  unfold Line.indent at hrest
  split at hrest
  · obtain ⟨after, hread, hafter⟩ := reads_space hrest
    exact ⟨after, hread, hafter.rest_eq, hafter.line_eq, by simp [hafter.inLine]⟩
  · rename_i hindent
    refine ⟨c, rfl, hrest, rfl, ?_⟩
    intro _ hbare hquestion
    simp [hbare, hquestion] at hindent

/-- A formatted line is read as its parts and a line feed. -/
theorem reads_line {c : Cursor} {line : Line} {rest : Bytes}
    (hparts : ∀ part ∈ line.parts, part.Writable) (hrest : c.rest = line.format ++ rest) :
    ∃ tokens newline after, Reads c (tokens ++ [newline]) after ∧
      List.Forall₂ (Token.Says c.line) tokens line.parts ∧ newline.kind = .newline ∧
      after.IsBelow c rest := by
  obtain ⟨atName, hindent, hname, hline, hdirective⟩ := reads_indent
    (show c.rest = line.indent ++ _ by simpa [Line.format] using hrest)
  obtain ⟨t, behindName, hread, hsays, hbehind⟩ := reads_part
    (hparts line.name (by simp [Line.parts])) hname (endsWord_args line.args rest) hdirective
  obtain ⟨tokens, behindArgs, hreads, hall, hargs⟩ := reads_args
    (fun arg (harg : arg ∈ line.args) => hparts arg (by simp [Line.parts, harg])) hbehind.inLine
    hbehind.rest_eq
  obtain ⟨newline, after, hnewline, hkind, hafter⟩ := reads_newline hargs.rest_eq
  rw [hline] at hsays
  rw [hbehind.line_eq, hline] at hall
  refine ⟨t :: tokens, newline, after, ?_, .cons hsays hall, hkind, ?_⟩
  · exact ((hindent.trans hread).trans hreads).trans hnewline
  · exact ⟨hafter.rest_eq, by rw [hafter.line_eq, hargs.line_eq, hbehind.line_eq, hline],
      hafter.atStart⟩

end Cursor

/-! ### Grouping what was formatted -/

/-- The line as it comes back from its written form on a line of a file. -/
def Line.placed (file : String) (n : Nat) (line : Line) : Line :=
  { line.detach with pos := ⟨file, lineNumber n⟩ }

namespace Grouping

variable {settings : ParseSettings} {g : Grouping} {tokens : List Token}

/-- Parts go to the line that is open. -/
theorem addTokens_of_parts (hne : g.parts ≠ []) (htokens : ∀ t ∈ tokens, t.isPart = true)
    (hroom : g.parts.length + tokens.length ≤ settings.partsPerLine) :
    g.addTokens settings tokens = .ok { g with parts := g.parts ++ tokens.map Token.part } := by
  induction tokens generalizing g with
  | nil => simp [addTokens]
  | cons t tokens ih =>
      rw [List.length_cons] at hroom
      rw [addTokens, addToken_of_isPart (htokens t (by simp)), if_pos (by omega),
        begunBy_of_ne hne]
      dsimp only
      rw [ih (by simp) (fun other hother => htokens other (by simp [hother]))
        (by simp only [List.length_append, List.length_singleton]; omega)]
      simp

theorem parts_of_says {n : Nat} {parts : List Part}
    (htokens : List.Forall₂ (Token.Says n) tokens parts) :
    (∀ t ∈ tokens, t.isPart = true) ∧
      (tokens.map Token.part).map Part.detach = parts.map Part.detach := by
  induction htokens with
  | nil => simp
  | cons hsays _ ih =>
      obtain ⟨hpart, hdetach, -⟩ := hsays
      exact ⟨List.forall_mem_cons.mpr ⟨hpart, ih.1⟩, by simp only [List.map_cons, hdetach, ih.2]⟩

/-- The tokens of a line and a line feed add this line, at the line its tokens stand on. -/
theorem addTokens_of_line {line : Line} {newline : Token} {n : Nat}
    (hmode : g.mode = .single) (hparts : g.parts = [])
    (htokens : List.Forall₂ (Token.Says n) tokens line.parts) (hnewline : newline.kind = .newline)
    (hroom : line.parts.length ≤ settings.partsPerLine) :
    ∃ g', g.addTokens settings (tokens ++ [newline]) = .ok g' ∧ g'.mode = .single ∧
      g'.parts = [] ∧
      g'.program.detach.lines = g.program.detach.lines ++ [line.placed settings.fileName n] := by
  have hlength := htokens.length_eq
  rw [Line.parts] at htokens
  cases htokens with
  | @cons name _ args _ hname hargs =>
      obtain ⟨hpart, hsays, hline⟩ := hname
      obtain ⟨hargsPart, hargsSay⟩ := parts_of_says hargs
      have hnamed : name.part.text ≠ [] := by
        have htext : name.part.detach.text = line.name.detach.text := congrArg Part.text hsays
        change name.part.text = line.name.text at htext
        rw [htext]
        exact line.name_ne
      rw [List.length_cons] at hlength
      have hopen : g.addTokens settings (name :: args) =
          .ok { g.begunBy name with parts := name.part :: args.map Token.part } := by
        have hfirst : ([] : List Part).length < settings.partsPerLine := by
          rw [List.length_nil]
          omega
        rw [addTokens, addToken_of_isPart hpart, hparts, if_pos hfirst]
        dsimp only
        rw [addTokens_of_parts (by simp) hargsPart (by simp; omega)]
        simp
      rw [addTokens_append, hopen]
      dsimp only
      rw [addTokens_singleton, addToken_of_endedBy (Or.inr ⟨hnewline, by simpa using hmode⟩),
        endLine_named rfl hnamed]
      refine ⟨_, rfl, rfl, rfl, ?_⟩
      simp [Program.detach, Line.placed, Line.detach, begunBy_of_nil hparts, hline, hsays,
        ← hargsSay]

/-- Lexing what was formatted succeeds, and grouping its tokens adds the lines one below the
other. -/
theorem addTokens_of_format {lines : List Line} {c : Cursor} (hmode : g.mode = .single)
    (hparts : g.parts = [])
    (hlines : ∀ line ∈ lines, line.parts.length ≤ settings.partsPerLine ∧
      ∀ part ∈ line.parts, part.Writable)
    (hrest : c.rest = lines.flatMap Line.format) :
    c.lex.error = none ∧ ∃ g', g.addTokens settings c.lex.tokens = .ok g' ∧
      g'.mode = .single ∧ g'.parts = [] ∧
      g'.program.detach.lines = g.program.detach.lines ++
        lines.mapIdx fun i line => line.placed settings.fileName (c.line + i) := by
  induction lines generalizing c g with
  | nil =>
      rw [Cursor.lex_of_finished (Cursor.step_of_nil hrest)]
      exact ⟨rfl, g, rfl, hmode, hparts, by simp⟩
  | cons line lines ih =>
      obtain ⟨⟨hroom, hwritable⟩, hlines⟩ := List.forall_mem_cons.mp hlines
      obtain ⟨tokens, newline, after, hreads, hsays, hnewline, hafter⟩ :=
        Cursor.reads_line hwritable (by rw [hrest, List.flatMap_cons])
      obtain ⟨next, hadd, hmode, hparts, hnext⟩ :=
        addTokens_of_line hmode hparts hsays hnewline hroom
      obtain ⟨herror, g', hadd', hmode', hparts', hg'⟩ := ih hmode hparts hlines hafter.rest_eq
      rw [Cursor.Reads] at hreads
      rw [hreads]
      refine ⟨herror, g', ?_, hmode', hparts', ?_⟩
      · dsimp only
        rw [addTokens_append, hadd]
        exact hadd'
      · have hshift (i : Nat) : c.line + 1 + i = c.line + (i + 1) := by omega
        rw [hg', hnext, List.mapIdx_cons, hafter.line_eq, List.append_assoc]
        simp only [hshift, Nat.add_zero, List.singleton_append]

end Grouping

/-! ### Whole programs -/

namespace Program

variable {settings : ParseSettings} {source : Bytes} {p : Program}

/-- A program can be written and read under these settings. -/
def Writable (settings : ParseSettings) (p : Program) : Prop :=
  ∀ line ∈ p.lines, line.parts.length ≤ settings.partsPerLine ∧ ∀ part ∈ line.parts, part.Writable

/-- Whatever was read can be written. -/
theorem writable_of_ofSource (h : ofSource settings source = .ok p) : p.Writable settings := by
  obtain ⟨-, -, g, g', hadd, hend, rfl⟩ := Grouping.of_ofSource h
  obtain ⟨hcollects, hparts⟩ := Grouping.collects_of_endLine hadd hend
  intro line hline
  refine ⟨hcollects.lines_le line hline, ?_⟩
  intro part hpart
  have hmem : part ∈ g'.program.lines.flatMap Line.parts :=
    List.mem_flatMap.mpr ⟨line, hline, hpart⟩
  rw [hparts] at hmem
  obtain ⟨t, ht, rfl⟩ := List.mem_map.mp hmem
  obtain ⟨ht, hisPart⟩ := List.mem_filter.mp ht
  exact writable_of_mem_lexing ht hisPart

/-- A program that can be written is read from its own text, one command to a line. -/
theorem ofSource_format (hlimit : 0 < settings.partsPerLine) (h : p.Writable settings) :
    ∃ q, ofSource settings p.format = .ok q ∧
      q.detach.lines = p.lines.mapIdx fun i line => line.placed settings.fileName (i + 1) := by
  obtain ⟨hnone, g, hadd, hmode, hparts, hlines⟩ := Grouping.addTokens_of_format
    (c := Cursor.ofSource p.format) (g := Grouping.start) rfl rfl h rfl
  refine ⟨g.program, ?_, ?_⟩
  · unfold ofSource
    rw [if_neg (by omega)]
    simp [Lexing.ofSource, hnone, hadd, Grouping.finish, hmode, Grouping.endLine_nil hparts,
      Except.map]
  · rw [hlines]
    simp [Grouping.start, empty, detach, Cursor.ofSource, Nat.add_comm]

/-- The names and arguments of each command, apart from the source. -/
def contents (p : Program) : List (List Part) :=
  p.lines.map fun line => line.parts.map Part.detach

/-- Both programs have the same names, arguments and quotes, command by command. -/
def SameContents (p q : Program) : Prop :=
  p.contents = q.contents

theorem contents_detach (p : Program) : p.detach.lines.map Line.parts = p.contents := by
  simp [contents, detach, Line.parts, Line.detach]

/-- A program that can be written comes back with the same contents. -/
theorem exists_sameContents (hlimit : 0 < settings.partsPerLine) (h : p.Writable settings) :
    ∃ q, ofSource settings p.format = .ok q ∧ q.SameContents p := by
  obtain ⟨q, hq, hlines⟩ := ofSource_format hlimit h
  refine ⟨q, hq, ?_⟩
  have hplaced (i : Nat) (line : Line) :
      (line.placed settings.fileName (i + 1)).parts = line.parts.map Part.detach := by
    simp [Line.placed, Line.parts, Line.detach]
  unfold SameContents
  rw [← contents_detach q, hlines]
  apply List.ext_getElem?
  intro i
  simp [contents, Function.comp_def, hplaced]

end Program

/-- Formatting keeps every program that was parsed: its text is read under the same limit as just as
many commands, each with the same name, the same arguments in the same order and the same quotes,
and each on the line of its own number. -/
theorem parse_format {source : Bytes} {limit : Nat} {p : Program}
    (h : Program.parse source limit = .ok p) :
    ∃ q, Program.parse p.format limit = .ok q ∧ q.size = p.size ∧
      ∀ id command, q.get? id = some command → ∃ original, p.get? id = some original ∧
        command.name.detach = original.name.detach ∧
        command.args.map Part.detach = original.args.map Part.detach ∧
        command.pos = ⟨unknownFile, lineNumber (id + 1)⟩ := by
  have hsource := Program.parseWith_eq_ok_iff.mp h
  obtain ⟨q, hq, hlines⟩ := Program.ofSource_format (Grouping.of_ofSource hsource).1
    (Program.writable_of_ofSource hsource)
  refine ⟨q, Program.parseWith_eq_ok_iff.mpr hq, ?_, ?_⟩
  · simpa [Program.detach, Program.size] using congrArg List.length hlines
  intro id command hcommand
  obtain ⟨line, hline, rfl⟩ := Option.map_eq_some_iff.mp hcommand
  have hplaced := congrArg (fun lines => lines[id]?) hlines
  simp only [Program.detach, List.getElem?_map, hline, Option.map_some,
    List.getElem?_mapIdx] at hplaced
  obtain ⟨original, horiginal, hsame⟩ := Option.map_eq_some_iff.mp hplaced.symm
  refine ⟨⟨original, id⟩, by simp [Program.get?, horiginal], ?_⟩
  exact ⟨(congrArg Line.name hsame).symm, (congrArg Line.args hsame).symm,
    (congrArg Line.pos hsame).symm⟩

/-- A name with a question mark, both quotes in one string, a run of backslashes before a line feed,
and bytes that are no text. -/
theorem parse_format_mixed :
    ∃ p q,
      Program.parse (Bytes.ofString "'?a' '\"\\'' \"\\\\\\\n\"\n" ++
        [0x27, 0xff, 0x00, 0x27]) 3 = .ok p ∧
      Program.parse p.format 3 = .ok q ∧ p.size = 2 ∧ q.size = p.size ∧
      ∀ id command, q.get? id = some command → ∃ original, p.get? id = some original ∧
        command.name.detach = original.name.detach ∧
        command.args.map Part.detach = original.args.map Part.detach ∧
        command.pos = ⟨unknownFile, lineNumber (id + 1)⟩ := by
  have h : Program.parse (Bytes.ofString "'?a' '\"\\'' \"\\\\\\\n\"\n" ++
      [0x27, 0xff, 0x00, 0x27]) 3 = .ok ⟨[
          ⟨⟨unknownFile, 1⟩, ⟨[0x3f, 0x61], true, true⟩,
            [⟨[0x22, 0x5c, 0x27], true, false⟩, ⟨[0x5c, 0x5c, 0x5c, 0x0a], true, false⟩], by simp⟩,
          ⟨⟨unknownFile, 3⟩, ⟨[0xff, 0x00], true, true⟩, [], by simp⟩]⟩ := by
    decide +kernel
  obtain ⟨q, hq, hsize, hall⟩ := parse_format h
  exact ⟨_, q, h, hq, rfl, hsize, hall⟩

end CommandScript
