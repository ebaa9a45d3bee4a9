import CommandScript.Proofs.Grouping
import CommandScript.Proofs.LexAppend

/-!
Parsing two sources end to end. Behind a source that is a program and ends with its last line,
grouping is outside of any block and has no open line, so it goes on as it would start. `Continues`
says how its state compares with the one that has seen the second source alone. What comes out is
the program of the first source followed by that of the second, or the fault of the second at its
place further down.
-/

namespace CommandScript

open LogicalLine

def Mode.below (lines : Nat) : Mode → Mode
  | .single => .single
  | .block openedAt => .block (lineBelow lines openedAt)

def Position.below (lines : Nat) (pos : Position) : Position :=
  { pos with line := lineBelow lines pos.line }

def Line.below (lines : Nat) (line : Line) : Line :=
  { line with pos := line.pos.below lines }

def Command.below (ids lines : Nat) (command : Command) : Command :=
  ⟨command.toLine.below lines, command.id + ids⟩

def Fault.below (lines : Nat) : Fault → Fault
  | .noParts => .noParts
  | .unclosedString line => .unclosedString (lineBelow lines line)
  | .unexpectedByte byte line => .unexpectedByte byte (lineBelow lines line)
  | .unknownDirective name line => .unknownDirective name (lineBelow lines line)
  | .tooManyParts limit line => .tooManyParts limit (lineBelow lines line)
  | .emptyName line => .emptyName (lineBelow lines line)
  | .unclosedBlock line => .unclosedBlock (lineBelow lines line)

def Diagnostic.below (lines : Nat) (d : Diagnostic) : Diagnostic :=
  { d with pos := d.pos.below lines }

/-- The report of a fault further down is the same but for its line. -/
theorem Fault.diagnostic_below {fault : Fault} (settings : ParseSettings) (lines : Nat)
    (h : fault ≠ .noParts) :
    (fault.below lines).diagnostic settings = (fault.diagnostic settings).below lines := by
  cases fault with
  | noParts => exact absurd rfl h
  | _ => rfl

theorem Fault.ofLexError_below (error : LexError) (bytes lines : Nat) :
    Fault.ofLexError (error.below bytes lines) = (Fault.ofLexError error).below lines := by
  obtain ⟨kind, line, offset⟩ := error
  cases kind <;> rfl

namespace Grouping

variable {settings : ParseSettings} {earlier : List Line} {lines : Nat} {g g' : Grouping}

/-- The second state is the first one behind earlier lines of program and so many lines of
source. -/
structure Continues (earlier : List Line) (lines : Nat) (g g' : Grouping) : Prop where
  mode : g'.mode = g.mode.below lines
  parts : g'.parts = g.parts
  start : g.parts ≠ [] → g'.lineStart = lineBelow lines g.lineStart
  program : g'.program.lines = earlier ++ g.program.lines.map (Line.below lines)

/-- The second result is the first one in the same sense. -/
inductive ContinuesTo (earlier : List Line) (lines : Nat) :
    Except Fault Grouping → Except Fault Grouping → Prop
  | ok {g g' : Grouping} (h : Continues earlier lines g g') :
      ContinuesTo earlier lines (.ok g) (.ok g')
  | error (fault : Fault) : ContinuesTo earlier lines (.error fault) (.error (fault.below lines))

namespace Continues

theorem withMode (h : Continues earlier lines g g') (mode : Mode) :
    Continues earlier lines { g with mode := mode } { g' with mode := mode.below lines } :=
  ⟨rfl, h.parts, h.start, h.program⟩

theorem endLine (h : Continues earlier lines g g') (file : String) :
    ContinuesTo earlier lines (g.endLine file) (g'.endLine file) := by
  cases hparts : g.parts with
  | nil =>
      have hparts' : g'.parts = [] := h.parts.trans hparts
      rw [endLine_nil hparts, endLine_nil hparts']
      exact .ok h
  | cons name args =>
      have hparts' : g'.parts = name :: args := h.parts.trans hparts
      have hstart : g'.lineStart = lineBelow lines g.lineStart := h.start (by simp [hparts])
      by_cases hname : name.text = []
      · rw [endLine_unnamed hparts hname, endLine_unnamed hparts' hname, hstart]
        exact .error _
      · rw [endLine_named hparts hname, endLine_named hparts' hname]
        refine .ok ⟨h.mode, rfl, fun hne => absurd rfl hne, ?_⟩
        simp [h.program, hstart, Line.below, Position.below]

theorem begunBy {t : Token} (h : Continues earlier lines g g') (bytes : Nat) :
    (g'.begunBy (t.below bytes lines)).lineStart = lineBelow lines (g.begunBy t).lineStart := by
  by_cases hparts : g.parts = []
  · rw [begunBy_of_nil hparts, begunBy_of_nil (h.parts.trans hparts)]
    rfl
  · have hparts' : g'.parts ≠ [] := by
      rw [h.parts]
      exact hparts
    rw [begunBy_of_ne hparts, begunBy_of_ne hparts', h.start hparts]

theorem endedBy_iff {t : Token} (h : Continues earlier lines g g') (bytes : Nat) :
    g'.EndedBy (t.below bytes lines) ↔ g.EndedBy t := by
  have hmode : g'.mode = .single ↔ g.mode = .single := by
    rw [h.mode]
    cases g.mode <;> simp [Mode.below]
  exact or_congr Iff.rfl (and_congr Iff.rfl hmode)

theorem addToken (h : Continues earlier lines g g') (t : Token) (bytes : Nat) :
    ContinuesTo earlier lines (g.addToken settings t)
      (g'.addToken settings (t.below bytes lines)) := by
  have hline := h.begunBy (t := t) bytes
  rcases t.role_cases with hpart | hbegin | hend | hnewline | hunknown
  · have hpart' : (t.below bytes lines).isPart = true := hpart
    rw [addToken_of_isPart hpart, addToken_of_isPart hpart', h.parts, hline]
    split
    · refine .ok ⟨?_, rfl, fun _ => hline, ?_⟩
      · simp [h.mode]
      · simp [h.program]
    · exact .error _
  · have hbegin' : (t.below bytes lines).isBegin = true := hbegin
    rw [addToken_of_isBegin hbegin, addToken_of_isBegin hbegin']
    cases hmode : g.mode with
    | single =>
        have hmode' : g'.mode = .single := by rw [h.mode, hmode, Mode.below]
        simp only [openBlock, hmode, hmode']
        exact .ok ⟨rfl, h.parts, h.start, h.program⟩
    | block openedAt =>
        have hmode' : g'.mode = .block (lineBelow lines openedAt) := by
          rw [h.mode, hmode, Mode.below]
        simp only [openBlock, hmode, hmode']
        exact .ok h
  · have hended : g.EndedBy t := Or.inl hend
    rw [addToken_of_endedBy hended, addToken_of_endedBy ((h.endedBy_iff bytes).mpr hended)]
    exact (h.withMode .single).endLine settings.fileName
  · cases hmode : g.mode with
    | single =>
        have hended : g.EndedBy t := Or.inr ⟨hnewline, hmode⟩
        rw [addToken_of_endedBy hended, addToken_of_endedBy ((h.endedBy_iff bytes).mpr hended)]
        exact (h.withMode .single).endLine settings.fileName
    | block openedAt =>
        have hmode' : g'.mode = .block (lineBelow lines openedAt) := by
          rw [h.mode, hmode, Mode.below]
        have hnewline' : (t.below bytes lines).kind = .newline := hnewline
        rw [addToken_of_newline_block hnewline hmode, addToken_of_newline_block hnewline' hmode']
        exact .ok h
  · have hunknown' : (t.below bytes lines).IsUnknown := hunknown
    rw [addToken_of_unknown hunknown, addToken_of_unknown hunknown']
    exact .error _

theorem addTokens (h : Continues earlier lines g g') (tokens : List Token) (bytes : Nat) :
    ContinuesTo earlier lines (g.addTokens settings tokens)
      (g'.addTokens settings (tokens.map (Token.below bytes lines))) := by
  induction tokens generalizing g g' with
  | nil => exact .ok h
  | cons t tokens ih =>
      have hstep : ContinuesTo earlier lines (g.addToken settings t)
          (g'.addToken settings (t.below bytes lines)) := h.addToken t bytes
      rw [List.map_cons, Grouping.addTokens, Grouping.addTokens]
      generalize g.addToken settings t = next at hstep
      generalize g'.addToken settings (t.below bytes lines) = next' at hstep
      cases hstep with
      | ok hnext => exact ih hnext
      | error fault => exact .error fault

end Continues

end Grouping

namespace Program

variable {settings : ParseSettings} {first : Bytes} {p : Program}

/-- The lines of a program and then those of another one that stands so much further down. -/
def followedBy (p : Program) (lines : Nat) (q : Program) : Program :=
  ⟨p.lines ++ q.lines.map (Line.below lines)⟩

/-- The commands of the second program get the ids behind those of the first. -/
theorem commands_followedBy (p : Program) (lines : Nat) (q : Program) :
    (p.followedBy lines q).commands =
      p.commands ++ q.commands.map (Command.below p.size lines) := by
  have hsecond : (q.lines.map (Line.below lines)).zipIdx p.lines.length =
      q.lines.zipIdx.map fun entry => (entry.1.below lines, entry.2 + p.lines.length) := by
    apply List.ext_getElem?
    intro i
    simp [Function.comp_def, Nat.add_comm]
  simp only [commands, followedBy, List.zipIdx_append, List.map_append, Nat.zero_add]
  rw [hsecond, List.map_map, List.map_map]
  rfl

/-- Behind such a source, grouping goes on as it would start. -/
theorem exists_continues (hend : first = [] ∨ first.getLast? = some Byte.lineFeed)
    (hp : ofSource settings first = .ok p) (lines : Nat) :
    ∃ g, Grouping.start.addTokens settings (Lexing.ofSource first).tokens = .ok g ∧
      Grouping.Continues p.lines lines .start g := by
  obtain ⟨-, hnone, g, hadd, hmode, g', hlast, rfl⟩ := Grouping.exists_single_of_ofSource hp
  have hparts : g.parts = [] := by
    rcases Lexing.tokens_cases hend hnone with htokens | ⟨init, t, htokens, hkind⟩
    · rw [htokens] at hadd
      cases hadd
      rfl
    · obtain ⟨hpart, hbegin, -⟩ := Token.not_part_of_newline hkind
      rw [htokens, Grouping.addTokens_append] at hadd
      cases hinit : Grouping.start.addTokens settings init with
      | error fault => simp [hinit] at hadd
      | ok before =>
          simp only [hinit, Grouping.addTokens_singleton] at hadd
          cases Grouping.takes_of_addToken hadd with
          | part ht => simp [hpart] at ht
          | opened ht => simp [hbegin] at ht
          | merged _ hblock => simp [hmode] at hblock
          | ended _ hended => exact (Grouping.endLine_ok hended).1
  rw [Grouping.endLine_nil hparts] at hlast
  cases hlast
  refine ⟨g, hadd, hmode, hparts, fun hne => absurd rfl hne, ?_⟩
  simp [Grouping.start, empty]

theorem ofSource_append (hend : first = [] ∨ first.getLast? = some Byte.lineFeed)
    (hp : ofSource settings first = .ok p) (second : Bytes) :
    ofSource settings (first ++ second) =
      match ofSource settings second with
      | .ok q => .ok (p.followedBy (first.count Byte.lineFeed) q)
      | .error fault => .error (fault.below (first.count Byte.lineFeed)) := by
  obtain ⟨hlimit, hnone, -⟩ := Grouping.of_ofSource hp
  obtain ⟨g, hadd, hcontinues⟩ := exists_continues hend hp (first.count Byte.lineFeed)
  have hrest (tokens : List Token) : Grouping.ContinuesTo p.lines (first.count Byte.lineFeed)
      (Grouping.start.addTokens settings tokens)
      (g.addTokens settings (tokens.map (Token.below first.length (first.count Byte.lineFeed)))) :=
    hcontinues.addTokens tokens first.length
  have hsecond := hrest (Lexing.ofSource second).tokens
  unfold ofSource
  rw [if_neg (by omega), if_neg (by omega)]
  dsimp only
  rw [Lexing.ofSource_append second hend hnone, Grouping.addTokens_append, hadd]
  dsimp only
  generalize Grouping.start.addTokens settings (Lexing.ofSource second).tokens = result at hsecond
  generalize g.addTokens settings _ = result' at hsecond
  cases hsecond with
  | error fault => rfl
  | @ok alone behind h =>
      cases herror : (Lexing.ofSource second).error with
      | some error => simp [Lexing.below, herror, Fault.ofLexError_below]
      | none =>
          have hfinish : behind.finish settings = match alone.finish settings with
              | .ok q => .ok (p.followedBy (first.count Byte.lineFeed) q)
              | .error fault => .error (fault.below (first.count Byte.lineFeed)) := by
            unfold Grouping.finish
            rw [h.mode]
            cases alone.mode with
            | block openedAt => rfl
            | single =>
                have hended := h.endLine settings.fileName
                generalize alone.endLine settings.fileName = last at hended
                generalize behind.endLine settings.fileName = last' at hended
                cases hended with
                | error fault => rfl
                | ok hlast =>
                    simp only [Mode.below, Except.map, followedBy]
                    rw [← hlast.program]
          simpa [Lexing.below, herror] using hfinish

end Program

/-- With room for a part, no fault is that there is none. -/
theorem ne_noParts_of_ofSource {settings : ParseSettings} {source : Bytes} {fault : Fault}
    (hlimit : 0 < settings.partsPerLine)
    (h : Program.ofSource settings source = .error fault) : fault ≠ .noParts := by
  rintro rfl
  rcases (ofSource_eq_error_iff_first hlimit).mp h with
    ⟨before, t, after, -, -, hfault⟩ | ⟨-, hfault⟩
  · cases hfault
  · cases hfault

/-- Sources that end with a line are parsed one by one. Behind a source that is a program, another
source adds its commands, with the ids and lines that follow from their place, or else the whole
fails with the diagnostic of the second source at its line further down. -/
theorem parseWith_append {settings : ParseSettings} {first : Bytes} {p : Program}
    (hend : first = [] ∨ first.getLast? = some Byte.lineFeed)
    (hp : Program.parseWith settings first = .ok p) (second : Bytes) :
    (∀ q, Program.parseWith settings second = .ok q →
      ∃ r, Program.parseWith settings (first ++ second) = .ok r ∧
        r.commands = p.commands ++
          q.commands.map (Command.below p.size (first.count Byte.lineFeed))) ∧
    ∀ d, Program.parseWith settings second = .error d →
      Program.parseWith settings (first ++ second) =
        .error (d.below (first.count Byte.lineFeed)) := by
  have hsource := Program.parseWith_eq_ok_iff.mp hp
  have happend := Program.ofSource_append hend hsource second
  constructor
  · intro q hq
    rw [Program.parseWith_eq_ok_iff.mp hq] at happend
    exact ⟨_, Program.parseWith_eq_ok_iff.mpr happend, Program.commands_followedBy p _ q⟩
  · intro d hd
    unfold Program.parseWith at hd ⊢
    cases hfault : Program.ofSource settings second with
    | ok q =>
        rw [hfault] at hd
        cases hd
    | error fault =>
        rw [hfault] at hd happend
        cases hd
        have hparts := ne_noParts_of_ofSource (Grouping.of_ofSource hsource).1 hfault
        rw [happend, ← Fault.diagnostic_below settings _ hparts]
        rfl

/-- A string with an escaped line feed counts for two lines, and a block that is closed leaves the
next source outside of it: once with a program behind it and once with a fault. -/
theorem parseWith_append_block :
    ∃ p, Program.parseWith {} (Bytes.ofString "?begin a\n'b\\\n' # ?\n?end\n") = .ok p ∧
      (∃ r, Program.parseWith {} (Bytes.ofString "?begin a\n'b\\\n' # ?\n?end\n" ++
          Bytes.ofString "\n?end c") = .ok r ∧
        r.commands = p.commands ++
          [⟨⟨⟨unknownFile, 6⟩, ⟨[0x63], false, true⟩, [], by simp⟩, 1⟩]) ∧
      Program.parseWith {} (Bytes.ofString "?begin a\n'b\\\n' # ?\n?end\n" ++
          Bytes.ofString "c\n?begin") =
        .error ((Fault.unclosedBlock 6).diagnostic {}) := by
  have hfirst : Program.parseWith {} (Bytes.ofString "?begin a\n'b\\\n' # ?\n?end\n") =
      .ok ⟨[⟨⟨unknownFile, 1⟩, ⟨[0x61], false, true⟩,
        [⟨[0x62, 0x5c, 0x0a], true, false⟩], by simp⟩]⟩ := by
    decide +kernel
  have hsecond : Program.parseWith {} (Bytes.ofString "\n?end c") =
      .ok ⟨[⟨⟨unknownFile, 2⟩, ⟨[0x63], false, true⟩, [], by simp⟩]⟩ := by
    decide +kernel
  have hfault : Program.parseWith {} (Bytes.ofString "c\n?begin") =
      .error ((Fault.unclosedBlock 2).diagnostic {}) := by
    decide +kernel
  have hend : (Bytes.ofString "?begin a\n'b\\\n' # ?\n?end\n").getLast? = some Byte.lineFeed := by
    decide
  obtain ⟨r, hr, hcommands⟩ := (parseWith_append (Or.inr hend) hfirst _).1 _ hsecond
  have herror := (parseWith_append (Or.inr hend) hfirst _).2 _ hfault
  exact ⟨_, hfirst, ⟨r, hr, hcommands⟩, herror⟩

end CommandScript
