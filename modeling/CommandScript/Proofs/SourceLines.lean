import CommandScript.Proofs.Grouping
import CommandScript.Proofs.LossyText
import CommandScript.Proofs.ParseFailure
import CommandScript.Proofs.LexAppend
import CommandScript.Proofs.Warnings

/-!
Every line that is reported is a line of the source. Tokens and errors of lexing count the line
feeds in front of them, commands and faults take their lines from tokens, and what a run reports
takes its position from a command. A line index of the source, or of its lossy text, finds them all.
-/

namespace CommandScript

open LogicalLine

/-- The number is that of the line which holds the offset. -/
structure Bytes.LineAt (source : Bytes) (offset : Nat) (line : UInt32) : Prop where
  count : line.toNat = 1 + (source.take offset).count Byte.lineFeed
  index : line.toNat = ((LineIndex.ofBytes source).lineColumn offset).1 + 1

/-- The number is that of a line of the source, so it is not that of the unknown position. -/
structure Bytes.HasLine (source : Bytes) (line : UInt32) : Prop where
  pos : 1 ≤ line.toNat
  le : line.toNat ≤ (LineIndex.ofBytes source).lineCount
  range : ((LineIndex.ofBytes source).range? line.toNat).isSome = true

/-! ### Lines of offsets -/

/-- The line number that counting line feeds up to an offset gives. -/
def Bytes.lineNumberAt (source : Bytes) (offset : Nat) : UInt32 :=
  lineNumber ((source.take offset).count Byte.lineFeed + 1)

namespace Bytes

variable {source : Bytes} {line : UInt32} {offset : Nat}

theorem lineNumberAt_length {before rest : Bytes} (hsource : source = before ++ rest) :
    source.lineNumberAt before.length = lineNumber (before.count Byte.lineFeed + 1) := by
  rw [lineNumberAt, hsource, List.take_left]

/-- Line numbers suffice for a source with few line feeds. -/
theorem lineAt_lineNumberAt (hfew : source.count Byte.lineFeed < 2 ^ 32 - 1) (offset : Nat) :
    source.LineAt offset (source.lineNumberAt offset) := by
  have hle : (source.take offset).count Byte.lineFeed ≤ source.count Byte.lineFeed :=
    (List.take_sublist offset source).count_le _
  have hcount : (source.lineNumberAt offset).toNat =
      1 + (source.take offset).count Byte.lineFeed := by
    have hsize : UInt32.size = 2 ^ 32 := rfl
    rw [lineNumberAt, toNat_lineNumber]
    omega
  refine ⟨hcount, ?_⟩
  rw [hcount, LineIndex.lineColumn_ofBytes, Nat.add_comm]

theorem hasLine_iff : source.HasLine line ↔
    1 ≤ line.toNat ∧ line.toNat ≤ (LineIndex.ofBytes source).lineCount :=
  ⟨fun h => ⟨h.pos, h.le⟩,
    fun h => ⟨h.1, h.2, (LineIndex.isSome_range?_iff _ _).mpr h⟩⟩

theorem LineAt.hasLine (h : source.LineAt offset line) : source.HasLine line := by
  have hle : (source.take offset).count Byte.lineFeed ≤ source.count Byte.lineFeed :=
    (List.take_sublist offset source).count_le _
  rw [hasLine_iff, LineIndex.lineCount_ofBytes, h.count]
  omega

end Bytes

/-! ### Lines of tokens -/

theorem Cursor.At.lineNumber_eq {source : Bytes} {c : Cursor} (h : At source c) :
    lineNumber c.line = source.lineNumberAt c.offset := by
  obtain ⟨taken, hsource, hoffset, hline⟩ := h
  rw [hoffset, Bytes.lineNumberAt_length hsource, hline]

namespace Lexing

variable {source : Bytes}

/-- A token has the line of the offset where it starts, and lexing goes on at that of the offset
where it stops. -/
theorem lines_of_mem {t : Token} (ht : t ∈ (ofSource source).tokens) :
    t.line = source.lineNumberAt t.start ∧ t.endLine = source.lineNumberAt t.stop := by
  have hall := Cursor.lex_induction (I := Cursor.At source)
    (P := fun t => t.line = source.lineNumberAt t.start ∧
      t.endLine = source.lineNumberAt t.stop) (E := fun _ => True)
    (fun c after hc hafter => hc.step hafter) ?_ (fun _ _ _ _ _ => trivial)
    (Cursor.at_ofSource source)
  · exact hall.1 t ht
  · intro c after t hc hstep
    have hafter : Cursor.At source after := hc.step (by rw [hstep]; rfl)
    have hmeets := Cursor.meets_step c
    rw [hstep] at hmeets
    cases hmeets <;> exact ⟨hc.lineNumber_eq, hafter.lineNumber_eq⟩

theorem line_of_error {error : LexError} (herror : (ofSource source).error = some error) :
    error.line = source.lineNumberAt error.offset := by
  obtain ⟨before, b, after, hsource, -, hoffset, hline⟩ := exists_of_error herror
  rw [hoffset, Bytes.lineNumberAt_length hsource, hline]

end Lexing

/-! ### Lines of commands and faults -/

namespace Program

variable {settings : ParseSettings} {source : Bytes}

/-- A fault is reported at the line of some offset, if any parts are allowed at all. -/
theorem exists_lineNumberAt_of_error {fault : Fault} (hlimit : 0 < settings.partsPerLine)
    (h : ofSource settings source = .error fault) :
    ∃ offset, fault.line = source.lineNumberAt offset := by
  have htoken {t : Token} (ht : t ∈ (Lexing.ofSource source).tokens) :
      ∃ offset, t.line = source.lineNumberAt offset := ⟨t.start, (Lexing.lines_of_mem ht).1⟩
  rcases (ofSource_eq_error_iff_first hlimit).mp h with
    ⟨before, t, after, htokens, -, hfault⟩ | ⟨-, hfault⟩
  · have hbefore {first : Token} (hfirst : first ∈ before) :
        first ∈ (Lexing.ofSource source).tokens := htokens ▸ List.mem_append_left _ hfirst
    cases hfault with
    | unknownDirective => exact htoken (htokens ▸ List.mem_append_right _ List.mem_cons_self)
    | tooManyParts _ hopen _ hfirst => exact htoken (hbefore (hopen.mem_of_head? hfirst))
    | emptyName _ hopen hfirst => exact htoken (hbefore (hopen.mem_of_head? hfirst))
  · cases hfault with
    | unclosedString _ _ hsource => exact ⟨_, (Bytes.lineNumberAt_length hsource).symm⟩
    | unexpectedByte _ _ hsource => exact ⟨_, (Bytes.lineNumberAt_length hsource).symm⟩
    | unclosedBlock _ hopened => exact htoken hopened.mem
    | emptyName _ _ hopen hfirst => exact htoken (hopen.mem_of_head? hfirst)

/-- A command is at the line of its first part. -/
theorem exists_lineNumberAt_of_get? {p : Program} {id : CommandId} {command : Command}
    (h : ofSource settings source = .ok p) (hcommand : p.get? id = some command) :
    ∃ offset, command.pos.line = source.lineNumberAt offset := by
  obtain ⟨-, -, g, g', hadd, hend, rfl⟩ := Grouping.of_ofSource h
  have hcollects := (Grouping.collects_of_endLine hadd hend).1
  obtain ⟨line, hline, rfl⟩ := Option.map_eq_some_iff.mp hcommand
  obtain ⟨earlier, later, hlines⟩ := List.append_of_mem (List.mem_of_getElem? hline)
  obtain ⟨first, ⟨before, after, htokens, -⟩, hpos⟩ := hcollects.pos earlier line later hlines
  have hfirst : first ∈ (Lexing.ofSource source).tokens := by simp [htokens]
  refine ⟨first.start, ?_⟩
  rw [← (Lexing.lines_of_mem hfirst).1]
  exact congrArg Position.line hpos

end Program

/-! ### Positions that a run reports -/

namespace Event

variable {σ π : Type}

/-- The command of an event. Outside of the program there is none. -/
def command? : Event σ π → Option Command
  | .outside _ => none
  | .abort command | .switch command | .unknown command | .invoke command _ _ _ _ => some command

/-- A handler failed with an error of its own, which says itself where it belongs. -/
def IsHostFailure : Event σ π → Prop
  | .invoke _ _ _ (.fail cause) _ => cause.code ≠ .noError
  | _ => False

end Event

namespace Engine

variable {σ π : Type} {engine : Engine σ π} {p : Program} {id : CommandId} {context : σ}
  {steps : Nat}

theorem get?_of_command? (hhead : p.head? = some id) {before after : List (Event σ π)}
    {event : Event σ π} {command : Command}
    (hhistory : engine.historyFrom p steps id context = before ++ event :: after)
    (hcommand : event.command? = some command) : p.get? command.id = some command := by
  have hsound := (dispatchSafe_historyFrom hhead).sound before event after hhistory
  cases event with
  | outside => cases hcommand
  | abort => cases hcommand; exact hsound.1
  | switch => cases hcommand; exact hsound.1
  | unknown => cases hcommand; exact hsound.1
  | invoke => cases hcommand; exact hsound.1

/-- A warning of a run is about a command of its program. -/
theorem exists_command_of_warning {summary : Summary} {final : σ} {before : List (Event σ π)}
    {event : Event σ π} (hhead : p.head? = some id)
    (hhistory : engine.historyFrom p steps id context = before ++ [event])
    (hanswer : engine.answer p (.behind engine.language before)
      (Event.contextBehind context before) event = .ended (.ok summary) final)
    {d : Diagnostic} (hd : d ∈ summary.warnings) :
    ∃ command, p.get? command.id = some command ∧ d.pos = command.pos := by
  obtain ⟨commands, hwarns, hcommands⟩ := exists_warns_of_head? engine steps context hhead
  have hwarnings := hwarns.warnings
  rw [hhistory, RunLog.behind_concat, ← warnings_of_answer hanswer] at hwarnings
  obtain ⟨i, rfl⟩ := List.mem_iff_get.mp hd
  have hi : i < commands.length := hwarnings.length_eq ▸ i.isLt
  exact ⟨commands[i], (hcommands _ (List.getElem_mem hi)).1, (hwarnings.get i.isLt hi).pos_eq⟩

/-- An error of a run is about a command of its program, unless a handler reported it. -/
theorem exists_command_of_error {d : Diagnostic π} {before : List (Event σ π)} {event : Event σ π}
    (hhead : p.head? = some id)
    (hhistory : engine.historyFrom p steps id context = before ++ [event])
    (hreturns : event.Returns before (.error d)) :
    event.IsHostFailure ∨ ∃ command, p.get? command.id = some command ∧ d.pos = command.pos := by
  cases event with
  | outside outside =>
      obtain ⟨earlier, command, entry, start, finish, d, rfl, hd, hreports⟩ := hreturns
      cases hd
      rw [List.append_assoc, List.singleton_append] at hhistory
      exact Or.inr ⟨command, get?_of_command? hhead hhistory rfl, hreports.pos_eq⟩
  | abort command =>
      obtain ⟨warnings, hok⟩ := hreturns
      cases hok
  | switch command =>
      obtain ⟨d, hd, hreports⟩ := hreturns
      cases hd
      exact Or.inr ⟨command, get?_of_command? hhead hhistory rfl, hreports.pos_eq⟩
  | unknown command =>
      obtain ⟨d, hd, hreports⟩ := hreturns
      cases hd
      exact Or.inr ⟨command, get?_of_command? hhead hhistory rfl, hreports.pos_eq⟩
  | invoke command entry start flow finish =>
      cases flow with
      | proceed next => cases hreturns
      | halt =>
          obtain ⟨warnings, hok⟩ := hreturns
          cases hok
      | fail cause =>
          obtain ⟨d, hd, hcause⟩ := hreturns
          cases hd
          split at hcause
          · exact Or.inr ⟨command, get?_of_command? hhead hhistory rfl, hcause.pos_eq⟩
          · exact Or.inl ‹_›

end Engine

/-- The lines that come of a source under some settings: those of its tokens, commands and reports,
and those that runs of its program report. -/
structure SourceLines (settings : ParseSettings) (source : Bytes) : Prop where
  /-- A token is at the line where it starts, and lexing goes on at the line where it stops. -/
  tokens : ∀ t ∈ (Lexing.ofSource source).tokens,
    source.LineAt t.start t.line ∧ source.LineAt t.stop t.endLine
  lexError : ∀ error, (Lexing.ofSource source).error = some error →
    source.LineAt error.offset error.line
  commands : ∀ p id command, Program.parseWith settings source = .ok p →
    p.get? id = some command → source.HasLine command.pos.line
  fault : ∀ d, Program.parseWith settings source = .error d → source.HasLine d.pos.line
  warnings : ∀ {σ π : Type} (engine : Engine σ π) steps p context summary final,
    Program.parseWith settings source = .ok p →
    engine.run? steps p context = some (.ok summary, final) →
    ∀ d ∈ summary.warnings, source.HasLine d.pos.line
  /-- A handler's own error has the position that the handler gives it. -/
  error : ∀ {σ π : Type} (engine : Engine σ π) steps p context d final,
    Program.parseWith settings source = .ok p →
    engine.run? steps p context = some (.error d, final) →
    (∀ event ∈ (engine.history steps p context).getLast?, ¬ event.IsHostFailure) →
    source.HasLine d.pos.line
  /-- The lossy text has as many lines, so it has the same line numbers. -/
  lossyCount : (LineIndex.ofBytes source.lossy).lineCount = (LineIndex.ofBytes source).lineCount
  lossyHas : ∀ line, source.lossy.HasLine line ↔ source.HasLine line
  /-- A line of the lossy text is the lossy text of the line. -/
  lossyText : ∀ number, source.lossy.lineText? number = (source.lineText? number).map Bytes.lossy

/-- Lines are numbered alike everywhere, as long as there are numbers for all of them. -/
theorem sourceLines_of_count (settings : ParseSettings) (source : Bytes)
    (hfew : source.count Byte.lineFeed < 2 ^ 32 - 1) (hlimit : 1 ≤ settings.partsPerLine) :
    SourceLines settings source := by
  have hoffset {line : UInt32} (h : ∃ offset, line = source.lineNumberAt offset) :
      source.HasLine line := by
    obtain ⟨offset, rfl⟩ := h
    exact (Bytes.lineAt_lineNumberAt hfew offset).hasLine
  have hcommand {p : Program} {id : CommandId} {command : Command}
      (hparse : Program.parseWith settings source = .ok p) (h : p.get? id = some command) :
      source.HasLine command.pos.line :=
    hoffset (Program.exists_lineNumberAt_of_get? (Program.parseWith_eq_ok_iff.mp hparse) h)
  constructor
  case tokens =>
    intro t ht
    obtain ⟨hline, hend⟩ := Lexing.lines_of_mem ht
    rw [hline, hend]
    exact ⟨Bytes.lineAt_lineNumberAt hfew _, Bytes.lineAt_lineNumberAt hfew _⟩
  case lexError =>
    intro error herror
    rw [Lexing.line_of_error herror]
    exact Bytes.lineAt_lineNumberAt hfew _
  case commands => exact fun p id command => hcommand
  case fault =>
    intro d hd
    unfold Program.parseWith at hd
    cases hfault : Program.ofSource settings source with
    | ok p => simp [hfault, Except.mapError] at hd
    | error fault =>
        rw [hfault] at hd
        cases hd
        exact hoffset (Program.exists_lineNumberAt_of_error hlimit hfault)
  case warnings =>
    intro σ π engine steps p context summary final hparse hrun d hd
    rcases Engine.answer_of_run? hrun with ⟨hempty, -⟩ |
      ⟨id, before, event, hhead, -, hhistory, hanswer⟩
    · cases hempty
      cases hd
    · obtain ⟨command, hget, hpos⟩ := Engine.exists_command_of_warning hhead hhistory hanswer hd
      exact hpos ▸ hcommand hparse hget
  case error =>
    intro σ π engine steps p context d final hparse hrun hhost
    rcases Engine.answer_of_run? hrun with ⟨hempty, -⟩ |
      ⟨id, before, event, hhead, hsame, hhistory, hanswer⟩
    · cases hempty
    · have hreturns := Engine.returns_of_answer hhead hhistory hanswer
      rw [hsame, hhistory, List.getLast?_concat] at hhost
      obtain ⟨command, hget, hpos⟩ := (Engine.exists_command_of_error hhead hhistory
        hreturns).resolve_left (hhost event rfl)
      exact hpos ▸ hcommand hparse hget
  case lossyCount => exact Bytes.lineCount_lossy source
  case lossyHas =>
    intro line
    rw [Bytes.hasLine_iff, Bytes.hasLine_iff, Bytes.lineCount_lossy]
  case lossyText => exact Bytes.lineText?_lossy source

/-- A string with an escaped line feed, and in front of another line feed a byte that would begin a
longer sequence in UTF-8. -/
theorem sourceLines_of_escaped_lineFeed :
    let source : Bytes := [0x22, 0x61, 0x5c, 0x0a, 0x62, 0x22, 0x20, 0xe2, 0x0a, 0x78]
    let settings : ParseSettings := {}
    source.count Byte.lineFeed < 2 ^ 32 - 1 ∧ 1 ≤ settings.partsPerLine ∧
      SourceLines settings source ∧
      (Lexing.ofSource source).tokens.map (fun t => (t.line, t.endLine)) =
        [(1, 2), (2, 2), (2, 3), (3, 3)] ∧
      (∃ p, Program.parseWith settings source = .ok p ∧ p.lines.map (·.pos.line) = [1, 3]) ∧
      (LineIndex.ofBytes source.lossy).lineCount = 3 ∧
      source.lossy.lineText? 2 = some [0x62, 0x22, 0x20, 0xef, 0xbf, 0xbd] := by
  intro source settings
  have hfew : source.count Byte.lineFeed < 2 ^ 32 - 1 := by decide
  have hlimit : 1 ≤ settings.partsPerLine := by decide
  have hlines : SourceLines settings source := sourceLines_of_count settings source hfew hlimit
  have hparse : Program.parseWith settings source = .ok ⟨[
      ⟨⟨unknownFile, 1⟩, ⟨[0x61, 0x5c, 0x0a, 0x62], true, false⟩, [⟨[0xe2], false, true⟩], by simp⟩,
      ⟨⟨unknownFile, 3⟩, ⟨[0x78], false, true⟩, [], by simp⟩]⟩ := by
    decide +kernel
  refine ⟨hfew, hlimit, hlines, by decide +kernel, ⟨_, hparse, rfl⟩, ?_, ?_⟩
  · exact hlines.lossyCount
  · rw [hlines.lossyText]
    rfl

end CommandScript
