import CommandScript.Proofs.LogicalLine
import CommandScript.Proofs.ParseFailure

/-!
How the parts of a source become commands. `Collects` says what a state of grouping has kept of the
tokens: every part in order, and with each line the place of its first one. Two neighbouring parts
are told apart by the line ends between them: `length_of_addTokens` says when tokens without a part
add a line.
-/

namespace CommandScript

open LogicalLine

namespace Program

/-- The command that each part belongs to, in the order of the parts. -/
def owners (p : Program) : List CommandId :=
  p.commands.flatMap fun command => command.parts.map fun _ => command.id

theorem owners_eq (p : Program) :
    p.owners = p.lines.zipIdx.flatMap fun (line, id) => line.parts.map fun _ => id := by
  rw [owners, commands, List.flatMap_map]

theorem length_owners_of_zipIdx (lines : List Line) (start : Nat) :
    ((lines.zipIdx start).flatMap fun (line, id) => line.parts.map fun _ => id).length =
      (lines.flatMap Line.parts).length := by
  induction lines generalizing start with
  | nil => rfl
  | cons line lines ih =>
      rw [List.zipIdx_cons, List.flatMap_cons, List.flatMap_cons, List.length_append,
        List.length_append, ih, List.length_map]

/-- The parts of a line belong to the command at its place. -/
theorem owners_getElem? {p : Program} {earlier later : List Line} {line : Line} {n : Nat}
    (hlines : p.lines = earlier ++ line :: later) (hn : n < line.parts.length) :
    p.owners[(earlier.flatMap Line.parts).length + n]? = some earlier.length := by
  rw [owners_eq, hlines, List.zipIdx_append, List.flatMap_append,
    ← length_owners_of_zipIdx earlier 0, List.getElem?_append_right (Nat.le_add_right ..),
    Nat.add_sub_cancel_left, List.zipIdx_cons, List.flatMap_cons,
    List.getElem?_append_left (by simpa using hn)]
  simp [hn]

end Program

/-- The token is a part, and as many parts as the number says stand before it. -/
def IsPartAt (tokens : List Token) (n : Nat) (t : Token) : Prop :=
  ∃ before after, tokens = before ++ t :: after ∧ t.isPart = true ∧ (partTokens before).length = n

theorem IsPartAt.append {tokens : List Token} {n : Nat} {t : Token} (h : IsPartAt tokens n t)
    (others : List Token) : IsPartAt (tokens ++ others) n t := by
  obtain ⟨before, after, rfl, hpart, hlength⟩ := h
  exact ⟨before, after ++ others, by simp, hpart, hlength⟩

namespace Grouping

variable {settings : ParseSettings} {g g' : Grouping} {t : Token} {before tokens : List Token}

/-! ### What a state has kept -/

/-- The lines of a state and its open line hold the parts of the tokens in order, each line at the
place of its first part and none longer than allowed. -/
structure Collects (settings : ParseSettings) (before : List Token) (g : Grouping) : Prop where
  parts : g.program.lines.flatMap Line.parts ++ g.parts = (partTokens before).map Token.part
  pos : ∀ earlier line later, g.program.lines = earlier ++ line :: later →
    ∃ first, IsPartAt before (earlier.flatMap Line.parts).length first ∧
      line.pos = ⟨settings.fileName, first.line⟩
  start : g.parts ≠ [] →
    ∃ first, IsPartAt before (g.program.lines.flatMap Line.parts).length first ∧
      g.lineStart = first.line
  length_le : g.parts.length ≤ settings.partsPerLine
  lines_le : ∀ line ∈ g.program.lines, line.parts.length ≤ settings.partsPerLine

theorem collects_start (settings : ParseSettings) : Collects settings [] start where
  parts := rfl
  pos := by
    intro earlier line later h
    simp [start, Program.empty] at h
  start := fun h => absurd rfl h
  length_le := Nat.zero_le _
  lines_le := by simp [start, Program.empty]

namespace Collects

/-- The mode has no part in what is kept. -/
theorem withMode (h : Collects settings before g) (mode : Mode) :
    Collects settings before { g with mode := mode } :=
  ⟨h.parts, h.pos, h.start, h.length_le, h.lines_le⟩

theorem concat_skipped (h : Collects settings before g) (ht : t.isPart = false) :
    Collects settings (before ++ [t]) g := by
  refine ⟨?_, ?_, ?_, h.length_le, h.lines_le⟩
  · simp [partTokens_singleton_of_not ht, h.parts]
  · intro earlier line later hlines
    obtain ⟨first, hfirst, hpos⟩ := h.pos earlier line later hlines
    exact ⟨first, hfirst.append [t], hpos⟩
  · intro hne
    obtain ⟨first, hfirst, hstart⟩ := h.start hne
    exact ⟨first, hfirst.append [t], hstart⟩

theorem concat_part (h : Collects settings before g) (ht : t.isPart = true)
    (hroom : g.parts.length < settings.partsPerLine) :
    Collects settings (before ++ [t]) { g.begunBy t with parts := g.parts ++ [t.part] } := by
  refine ⟨?_, ?_, ?_, ?_, ?_⟩
  · simp [partTokens_singleton ht, ← h.parts]
  · intro earlier line later hlines
    obtain ⟨first, hfirst, hpos⟩ := h.pos earlier line later (by simpa using hlines)
    exact ⟨first, hfirst.append [t], hpos⟩
  · intro _
    rw [begunBy_program]
    by_cases hparts : g.parts = []
    · refine ⟨t, ⟨before, [], rfl, ht, ?_⟩, begunBy_of_nil hparts⟩
      have hlength := congrArg List.length h.parts
      simpa [hparts, eq_comm] using hlength
    · obtain ⟨first, hfirst, hstart⟩ := h.start hparts
      exact ⟨first, hfirst.append [t], by rw [begunBy_of_ne hparts]; exact hstart⟩
  · simp only [List.length_append, List.length_singleton]
    omega
  · simpa using h.lines_le

theorem endLine (h : Collects settings before g) (hg' : g.endLine settings.fileName = .ok g') :
    Collects settings before g' := by
  obtain ⟨-, rfl⟩ | ⟨name, args, hname, hparts, rfl⟩ := endLine_cases hg'
  · exact h
  have hne : g.parts ≠ [] := by simp [hparts]
  refine ⟨?_, ?_, fun hnil => absurd rfl hnil, Nat.zero_le _, ?_⟩
  · rw [← h.parts, hparts]
    simp [Line.parts]
  · intro earlier line later hlines
    rcases List.eq_nil_or_concat later with rfl | ⟨later, last, rfl⟩
    · obtain ⟨rfl, hline⟩ := List.append_inj' hlines rfl
      obtain rfl := List.singleton_inj.mp hline
      obtain ⟨first, hfirst, hstart⟩ := h.start hne
      exact ⟨first, hfirst, by rw [hstart]⟩
    · rw [List.concat_eq_append, ← List.cons_append, ← List.append_assoc] at hlines
      exact h.pos earlier line later (List.append_inj' hlines rfl).1
  · intro line hline
    rcases List.mem_append.mp hline with hline | hline
    · exact h.lines_le line hline
    · obtain rfl := List.mem_singleton.mp hline
      simpa [Line.parts, hparts] using h.length_le

/-- Taking a token in keeps what a state has kept, and adds the token if it is a part. -/
theorem concat (h : Collects settings before g) (hadd : g.addToken settings t = .ok g') :
    Collects settings (before ++ [t]) g' := by
  cases takes_of_addToken hadd with
  | part ht hroom => exact h.concat_part ht hroom
  | opened ht =>
      have hskip := h.concat_skipped (Token.not_part_of_isBegin ht).1
      unfold openBlock
      split
      · exact hskip.withMode _
      · exact hskip
  | merged ht _ => exact h.concat_skipped (Token.not_part_of_newline ht).1
  | ended ht hend => exact ((h.concat_skipped ht.not_isPart).withMode _).endLine hend

theorem addTokens (h : Collects settings before g) (hadd : g.addTokens settings tokens = .ok g') :
    Collects settings (before ++ tokens) g' :=
  addTokens_induction (fun _ _ _ _ h hadd => h.concat hadd) before h hadd

end Collects

/-! ### What becomes of a state -/

/-- The lines that come of a state begin with its own. If its open line has parts, the next line
begins with these. -/
def LeadsTo (g : Grouping) (lines : List Line) : Prop :=
  ∃ later, lines = g.program.lines ++ later ∧
    (g.parts ≠ [] → ∃ line rest, later = line :: rest ∧ g.parts <+: line.parts)

theorem leadsTo_of_endLine {file : String} {lines : List Line} (hg' : g.endLine file = .ok g')
    (h : LeadsTo g' lines) : LeadsTo g lines := by
  obtain ⟨-, rfl⟩ | ⟨name, args, hname, hparts, rfl⟩ := endLine_cases hg'
  · exact h
  obtain ⟨later, hlines, -⟩ := h
  refine ⟨_ :: later, by rw [hlines, List.append_assoc, List.singleton_append], ?_⟩
  intro _
  exact ⟨_, later, rfl, by rw [hparts]; exact List.prefix_rfl⟩

theorem leadsTo_of_addToken {lines : List Line} (hadd : g.addToken settings t = .ok g')
    (h : LeadsTo g' lines) : LeadsTo g lines := by
  cases takes_of_addToken hadd with
  | part ht hroom =>
      obtain ⟨later, hlines, hnext⟩ := h
      refine ⟨later, by simpa using hlines, ?_⟩
      intro _
      obtain ⟨line, rest, hlater, hpre⟩ := hnext (by simp)
      exact ⟨line, rest, hlater, (List.prefix_append ..).trans hpre⟩
  | opened ht =>
      unfold openBlock at h
      split at h <;> exact h
  | merged => exact h
  | ended ht hend => exact leadsTo_of_endLine (g := { g with mode := .single }) hend h

theorem leadsTo_of_addTokens {lines : List Line} (hadd : g.addTokens settings tokens = .ok g')
    (h : LeadsTo g' lines) : LeadsTo g lines := by
  have hall := addTokens_induction (I := fun _ g' => LeadsTo g' lines → LeadsTo g lines)
    (fun _ _ _ _ hback hadd h => hback (leadsTo_of_addToken hadd h)) [] id hadd
  exact hall h

/-! ### Between two parts -/

/-- One of the tokens ends the line that is open behind the tokens before. -/
def EndsWithin (before tokens : List Token) : Prop :=
  ∃ init last rest, tokens = init ++ last :: rest ∧ endsLine (before ++ init) last = true

theorem not_endsWithin_nil : ¬ EndsWithin before [] := by
  rintro ⟨init, last, rest, heq, -⟩
  simp at heq

theorem endsWithin_cons :
    EndsWithin before (t :: tokens) ↔
      endsLine before t = true ∨ EndsWithin (before ++ [t]) tokens := by
  constructor
  · rintro ⟨init, last, rest, heq, hends⟩
    cases init with
    | nil =>
        obtain ⟨rfl, rfl⟩ := List.cons.inj heq
        exact Or.inl (by simpa using hends)
    | cons first init =>
        obtain ⟨rfl, rfl⟩ := List.cons.inj heq
        exact Or.inr ⟨init, last, rest, rfl, by simpa using hends⟩
  · rintro (hends | ⟨init, last, rest, rfl, hends⟩)
    · exact ⟨[], t, tokens, rfl, by simpa using hends⟩
    · exact ⟨t :: init, last, rest, rfl, by simpa using hends⟩

/-- The lines after the open line was ended, where there was one. -/
theorem length_of_endLine {file : String} (hg' : g.endLine file = .ok g') :
    g'.program.lines.length = g.program.lines.length + if g.parts = [] then 0 else 1 := by
  obtain ⟨hparts, rfl⟩ | ⟨name, args, hname, hparts, rfl⟩ := endLine_cases hg'
  · simp [hparts]
  · simp [hparts]

/-- A token that is no part ends the open line or leaves it alone. -/
theorem addToken_of_not_isPart (h : Tracks settings.partsPerLine before g)
    (ht : t.isPart = false) (hadd : g.addToken settings t = .ok g') :
    (endsLine before t = true ∧ g'.parts = [] ∧
      g'.program.lines.length = g.program.lines.length + if g.parts = [] then 0 else 1) ∨
    (endsLine before t = false ∧ g'.parts = g.parts ∧ g'.program = g.program) := by
  cases takes_of_addToken hadd with
  | part hpart =>
      rw [hpart] at ht
      cases ht
  | opened hbegin =>
      obtain ⟨-, hend, hkind⟩ := Token.not_part_of_isBegin hbegin
      refine Or.inr ⟨by simp [endsLine, hend, hkind], ?_⟩
      unfold openBlock
      split <;> exact ⟨rfl, rfl⟩
  | merged hnewline hmode =>
      refine Or.inr ⟨?_, rfl, rfl⟩
      by_contra hends
      obtain hend | ⟨-, hsingle⟩ := h.endedBy_iff.mpr (by simpa using hends)
      · simp [(Token.not_part_of_newline hnewline).2.2] at hend
      · rw [hmode] at hsingle
        cases hsingle
  | ended hended hend =>
      exact Or.inl ⟨h.endedBy_iff.mp hended, (endLine_ok hend).1,
        length_of_endLine (g := { g with mode := .single }) hend⟩

/-- Tokens without parts add a line exactly when one of them ends an open line that has parts. -/
theorem length_of_addTokens (h : Tracks settings.partsPerLine before g)
    (htokens : partTokens tokens = []) (hadd : g.addTokens settings tokens = .ok g') :
    (g.parts = [] → g'.program.lines.length = g.program.lines.length) ∧
    (g.parts ≠ [] → EndsWithin before tokens →
      g'.program.lines.length = g.program.lines.length + 1) ∧
    (¬ EndsWithin before tokens → g'.program.lines.length = g.program.lines.length) := by
  induction tokens generalizing before g with
  | nil =>
      cases hadd
      exact ⟨fun _ => rfl, fun _ hends => absurd hends not_endsWithin_nil, fun _ => rfl⟩
  | cons t tokens ih =>
      obtain ⟨ht, hrest⟩ : t.isPart = false ∧ partTokens tokens = [] := by
        simpa [partTokens] using htokens
      rw [addTokens] at hadd
      cases hstep : g.addToken settings t with
      | error fault =>
          rw [hstep] at hadd
          cases hadd
      | ok next =>
          rw [hstep] at hadd
          obtain ⟨hnil, hne, hnot⟩ := ih (h.concat hstep) hrest hadd
          rw [endsWithin_cons]
          obtain ⟨hends, hparts, hlength⟩ | ⟨hends, hparts, hprogram⟩ :=
            addToken_of_not_isPart h ht hstep
          · have hnil := hnil hparts
            refine ⟨?_, ?_, fun hnone => absurd (Or.inl hends) hnone⟩
            · intro hg
              rw [hnil, hlength, if_pos hg, Nat.add_zero]
            · intro hg _
              rw [hnil, hlength, if_neg hg]
          · rw [hprogram, hparts] at hnil hne
            rw [hprogram] at hnot
            simp only [hends, Bool.false_eq_true, false_or]
            exact ⟨hnil, hne, hnot⟩

/-! ### Whole sources -/

/-- A source that is a program was lexed and grouped to the end, outside of any block. -/
theorem exists_single_of_ofSource {source : Bytes} {p : Program}
    (h : Program.ofSource settings source = .ok p) :
    0 < settings.partsPerLine ∧ (Lexing.ofSource source).error = none ∧ ∃ g,
      start.addTokens settings (Lexing.ofSource source).tokens = .ok g ∧ g.mode = .single ∧
      ∃ g', g.endLine settings.fileName = .ok g' ∧ g'.program = p := by
  unfold Program.ofSource at h
  split at h
  · cases h
  rename_i hlimit
  dsimp only at h
  split at h
  · cases h
  · cases h
  · rename_i g hadd hnone
    refine ⟨Nat.pos_of_ne_zero hlimit, hnone, g, hadd, ?_⟩
    unfold finish at h
    split at h
    · cases h
    · rename_i hmode
      refine ⟨hmode, ?_⟩
      cases hend : g.endLine settings.fileName with
      | error fault =>
          rw [hend] at h
          cases h
      | ok g' =>
          rw [hend] at h
          exact ⟨g', rfl, Except.ok.inj h⟩

theorem of_ofSource {source : Bytes} {p : Program}
    (h : Program.ofSource settings source = .ok p) :
    0 < settings.partsPerLine ∧ (Lexing.ofSource source).error = none ∧ ∃ g g',
      start.addTokens settings (Lexing.ofSource source).tokens = .ok g ∧
      g.endLine settings.fileName = .ok g' ∧ g'.program = p := by
  obtain ⟨hlimit, hnone, g, hadd, -, g', hend, hp⟩ := exists_single_of_ofSource h
  exact ⟨hlimit, hnone, g, g', hadd, hend, hp⟩

/-- With the last line ended, all parts of the tokens are in the program. -/
theorem collects_of_endLine (hadd : start.addTokens settings tokens = .ok g)
    (hend : g.endLine settings.fileName = .ok g') :
    Collects settings tokens g' ∧
      g'.program.lines.flatMap Line.parts = (partTokens tokens).map Token.part := by
  have hcollects := ((collects_start settings).addTokens hadd).endLine hend
  rw [List.nil_append] at hcollects
  exact ⟨hcollects, by simpa [(endLine_ok hend).1] using hcollects.parts⟩

/-- A part goes to the line that comes behind those already complete. -/
theorem exists_line_of_part {lines : List Line} {after : List Token} {final : Grouping}
    (ht : t.isPart = true) (hadd : g.addTokens settings (t :: after) = .ok final)
    (hfinal : LeadsTo final lines) :
    ∃ line later, lines = g.program.lines ++ line :: later ∧
      g.parts ++ [t.part] <+: line.parts := by
  rw [addTokens] at hadd
  cases hstep : g.addToken settings t with
  | error fault =>
      rw [hstep] at hadd
      cases hadd
  | ok next =>
      rw [hstep] at hadd
      obtain ⟨later, hlines, hline⟩ : LeadsTo next lines := leadsTo_of_addTokens hadd hfinal
      rw [addToken_of_isPart ht] at hstep
      split at hstep
      · cases hstep
        obtain ⟨line, rest, rfl, hbegins⟩ := hline (by simp)
        exact ⟨line, rest, by simpa using hlines, hbegins⟩
      · cases hstep

/-- A part belongs to the command that comes behind those already complete. -/
theorem owner_of_part {p : Program} {after : List Token} {final : Grouping}
    (h : Collects settings before g) (ht : t.isPart = true)
    (hadd : g.addTokens settings (t :: after) = .ok final) (hfinal : LeadsTo final p.lines) :
    p.owners[(partTokens before).length]? = some g.program.lines.length := by
  have hlength : (partTokens before).length =
      (g.program.lines.flatMap Line.parts).length + g.parts.length := by
    simpa using (congrArg List.length h.parts).symm
  obtain ⟨line, later, hlines, hbegins⟩ := exists_line_of_part ht hadd hfinal
  have hlt : g.parts.length + 1 ≤ line.parts.length := by simpa using hbegins.length_le
  rw [hlength]
  exact Program.owners_getElem? hlines hlt

end Grouping

/-- How the commands of a program come out of tokens. They hold all parts in order. Two neighbouring
parts belong to different commands when a token between them ends the line. A command stands where
its first part does, has a name, and is no longer than allowed. -/
structure GroupedInto (settings : ParseSettings) (tokens : List Token) (p : Program) : Prop where
  parts : p.lines.flatMap Line.parts = (partTokens tokens).map Token.part
  apart : ∀ before t between other after, tokens = before ++ t :: (between ++ other :: after) →
    t.isPart = true → partTokens between = [] → other.isPart = true →
    ∃ i j, p.owners[(partTokens before).length]? = some i ∧
      p.owners[(partTokens before).length + 1]? = some j ∧
      (i ≠ j ↔ ∃ init last rest, between = init ++ last :: rest ∧
        endsLine (before ++ t :: init) last = true)
  pos : ∀ earlier line later, p.lines = earlier ++ line :: later →
    ∃ first, IsPartAt tokens (earlier.flatMap Line.parts).length first ∧
      line.pos = ⟨settings.fileName, first.line⟩
  named : ∀ line ∈ p.lines, line.name.text ≠ []
  length_le : ∀ line ∈ p.lines, line.parts.length ≤ settings.partsPerLine

/-- Neighbouring parts belong to one command or to two commands next to each other. -/
theorem Grouping.owners_of_neighbours {settings : ParseSettings} {before between after : List Token}
    {t other : Token} {p : Program} {final : Grouping}
    (hadd : start.addTokens settings (before ++ t :: (between ++ other :: after)) = .ok final)
    (hfinal : LeadsTo final p.lines) (ht : t.isPart = true) (hbetween : partTokens between = [])
    (hother : other.isPart = true) :
    ∃ i j, p.owners[(partTokens before).length]? = some i ∧
      p.owners[(partTokens before).length + 1]? = some j ∧
      (i ≠ j ↔ EndsWithin (before ++ [t]) between) := by
  -- The states in front of the first part, behind it, and in front of the second part.
  rw [addTokens_append] at hadd
  cases hbefore : start.addTokens settings before with
  | error fault => simp [hbefore] at hadd
  | ok g =>
  simp only [hbefore] at hadd
  have hcollects := (collects_start settings).addTokens hbefore
  have htracks := (tracks_start settings.partsPerLine).addTokens hbefore
  rw [List.nil_append] at hcollects htracks
  have hfirst := owner_of_part hcollects ht hadd hfinal
  rw [addTokens] at hadd
  cases hstep : g.addToken settings t with
  | error fault => simp [hstep] at hadd
  | ok next =>
  simp only [hstep] at hadd
  rw [addTokens_append] at hadd
  cases hgap : next.addTokens settings between with
  | error fault => simp [hgap] at hadd
  | ok g' =>
  simp only [hgap] at hadd
  have hsecond := owner_of_part (((hcollects.concat hstep).addTokens hgap)) hother hadd hfinal
  rw [partTokens_append, partTokens_append, partTokens_singleton ht, hbetween, List.append_nil,
    List.length_append, List.length_singleton] at hsecond
  refine ⟨_, _, hfirst, hsecond, ?_⟩
  obtain ⟨-, hends, hnot⟩ := length_of_addTokens (htracks.concat hstep) hbetween hgap
  have hnext : next.parts ≠ [] ∧ next.program = g.program := by
    rw [addToken_of_isPart ht] at hstep
    split at hstep
    · cases hstep
      simp
    · cases hstep
  rw [hnext.2] at hends hnot
  by_cases hwithin : EndsWithin (before ++ [t]) between
  · simp [hwithin, hends hnext.1 hwithin]
  · simp [hwithin, hnot hwithin]

theorem Program.parseWith_eq_ok_iff {settings : ParseSettings} {source : Bytes} {p : Program} :
    Program.parseWith settings source = .ok p ↔ Program.ofSource settings source = .ok p := by
  unfold Program.parseWith
  cases Program.ofSource settings source <;> simp [Except.mapError]

theorem Program.parseWith_error_iff {settings : ParseSettings} {source : Bytes} {d : Diagnostic} :
    Program.parseWith settings source = .error d ↔
      ∃ fault, Program.ofSource settings source = .error fault ∧ d = fault.diagnostic settings := by
  unfold Program.parseWith
  cases Program.ofSource settings source <;> simp [Except.mapError, eq_comm]

/-- A source that is a program was lexed without an error, and the commands come out of its tokens
as the line ends among them say. -/
theorem groupedInto_of_parseWith {settings : ParseSettings} {source : Bytes} {p : Program}
    (h : Program.parseWith settings source = .ok p) :
    ∃ tokens, (Lexing.ofSource source).result = .ok tokens ∧ GroupedInto settings tokens p := by
  obtain ⟨-, hnone, g, g', hadd, hend, rfl⟩ :=
    Grouping.of_ofSource (Program.parseWith_eq_ok_iff.mp h)
  obtain ⟨hcollects, hparts⟩ := Grouping.collects_of_endLine hadd hend
  have hended : g'.parts = [] := (Grouping.endLine_ok hend).1
  have hfinal : Grouping.LeadsTo g g'.program.lines :=
    Grouping.leadsTo_of_endLine hend ⟨[], by simp, fun hne => absurd hended hne⟩
  refine ⟨(Lexing.ofSource source).tokens, by simp [Lexing.result, hnone], hparts, ?_, ?_, ?_, ?_⟩
  · intro before t between other after htokens ht hbetween hother
    rw [htokens] at hadd
    obtain ⟨i, j, hi, hj, hne⟩ := Grouping.owners_of_neighbours hadd hfinal ht hbetween hother
    refine ⟨i, j, hi, hj, hne.trans ?_⟩
    simp [Grouping.EndsWithin]
  · exact hcollects.pos
  · exact fun line _ => line.name_ne
  · exact hcollects.lines_le

/-- A block with a second `?begin` in it is one command. What follows its `?end` on the same line is
the next, and an `?end` without a block ends nothing more. -/
theorem groupedInto_nested_block :
    ∃ p tokens,
      Program.parseWith {}
        (Bytes.ofString "?begin a\n?begin\n'b c' # d\n?end e\nf\n?end\n") = .ok p ∧
      p.owners = [0, 0, 1, 2] ∧
      (Lexing.ofSource
        (Bytes.ofString "?begin a\n?begin\n'b c' # d\n?end e\nf\n?end\n")).result = .ok tokens ∧
      GroupedInto {} tokens p := by
  have h : Program.parseWith {}
      (Bytes.ofString "?begin a\n?begin\n'b c' # d\n?end e\nf\n?end\n") = .ok ⟨
        [⟨⟨unknownFile, 1⟩, ⟨[0x61], false, true⟩, [⟨[0x62, 0x20, 0x63], true, true⟩], by simp⟩,
          ⟨⟨unknownFile, 4⟩, ⟨[0x65], false, true⟩, [], by simp⟩,
          ⟨⟨unknownFile, 5⟩, ⟨[0x66], false, true⟩, [], by simp⟩]⟩ := by
    decide +kernel
  obtain ⟨tokens, hresult, hgrouped⟩ := groupedInto_of_parseWith h
  exact ⟨_, tokens, h, rfl, hresult, hgrouped⟩

end CommandScript
