import CommandScript.Proofs.Grouping

/-!
The limit of parts per line only accepts or refuses. Under a smaller limit grouping does what it
does under a larger one until it gets to a part that the open line has no room for. That line is the
first command that is too long in the program of the larger limit, so the refusal is at its
position.
-/

namespace CommandScript

open LogicalLine

/-- The same settings with another limit of parts per line. -/
def ParseSettings.withLimit (settings : ParseSettings) (limit : Nat) : ParseSettings :=
  { settings with partsPerLine := limit }

/-- No two parts have the same place among the parts. -/
theorem IsPartAt.unique {tokens : List Token} {n : Nat} {t other : Token} (h : IsPartAt tokens n t)
    (hother : IsPartAt tokens n other) : t = other := by
  have hget {t : Token} (h : IsPartAt tokens n t) : (partTokens tokens)[n]? = some t := by
    obtain ⟨before, after, rfl, hpart, rfl⟩ := h
    rw [partTokens_append, List.getElem?_append_right (Nat.le_refl _), Nat.sub_self]
    simp [partTokens, hpart]
  exact Option.some.inj ((hget h).symm.trans (hget hother))

namespace Grouping

variable {settings : ParseSettings} {limit larger : Nat} {g full : Grouping} {t : Token}
  {tokens : List Token}

/-! ### Two limits -/

/-- Grouping gets to a part while the open line is full, with the state `full` in front of it. -/
def FillsUp (settings : ParseSettings) (g : Grouping) (tokens : List Token) (full : Grouping) :
    Prop :=
  ∃ before t after, tokens = before ++ t :: after ∧ t.isPart = true ∧
    g.addTokens settings before = .ok full ∧ settings.partsPerLine ≤ full.parts.length

theorem addTokens_of_fillsUp (hlimit : 0 < settings.partsPerLine)
    (h : FillsUp settings g tokens full) :
    g.addTokens settings tokens =
      .error (.tooManyParts settings.partsPerLine full.lineStart) := by
  obtain ⟨before, t, after, rfl, hpart, hbefore, hfull⟩ := h
  have hne : full.parts ≠ [] := by
    intro hnil
    rw [hnil, List.length_nil] at hfull
    omega
  rw [addTokens_append, hbefore]
  dsimp only
  rw [addTokens, addToken_of_isPart hpart, if_neg (by omega), begunBy_of_ne hne]

/-- A token that is no part does not ask for the limit. -/
theorem addToken_withLimit_of_not_isPart (ht : t.isPart = false) :
    g.addToken (settings.withLimit limit) t = g.addToken settings t := by
  cases hkind : t.kind with
  | word => simp [Token.isPart, hkind] at ht
  | string => simp [Token.isPart, hkind] at ht
  | newline => simp only [addToken, hkind]; rfl
  | directive => simp only [addToken, hkind]; rfl

/-- Under the smaller of two limits grouping fills a line up, or it does the same under both. -/
theorem fillsUp_or_addTokens_eq (hle : limit ≤ larger) (g : Grouping) (tokens : List Token) :
    (∃ full, FillsUp (settings.withLimit limit) g tokens full) ∨
      g.addTokens (settings.withLimit limit) tokens =
        g.addTokens (settings.withLimit larger) tokens := by
  induction tokens generalizing g with
  | nil => exact Or.inr rfl
  | cons t tokens ih =>
      have hstep : (t.isPart = true ∧ limit ≤ g.parts.length) ∨
          g.addToken (settings.withLimit limit) t = g.addToken (settings.withLimit larger) t := by
        cases hpart : t.isPart with
        | false =>
            rw [addToken_withLimit_of_not_isPart hpart, addToken_withLimit_of_not_isPart hpart]
            exact Or.inr rfl
        | true =>
            by_cases hroom : g.parts.length < limit
            · have hroom' : g.parts.length < larger := Nat.lt_of_lt_of_le hroom hle
              right
              rw [addToken_of_isPart hpart, addToken_of_isPart hpart]
              exact (if_pos hroom).trans (if_pos hroom').symm
            · exact Or.inl ⟨rfl, Nat.le_of_not_lt hroom⟩
      rcases hstep with ⟨hpart, hfull⟩ | hsame
      · exact Or.inl ⟨g, [], t, tokens, rfl, hpart, rfl, hfull⟩
      rw [addTokens, addTokens, ← hsame]
      cases hnext : g.addToken (settings.withLimit limit) t with
      | error fault => exact Or.inr rfl
      | ok next =>
          rcases ih next with ⟨full, before, last, after, rfl, hpart, hbefore, hfull⟩ | hrest
          · refine Or.inl ⟨full, t :: before, last, after, rfl, hpart, ?_, hfull⟩
            rw [addTokens, hnext]
            exact hbefore
          · exact Or.inr hrest

/-! ### The line that is too long -/

/-- A part that the larger limit has room for still leaves the line open, so some command goes on
from there: the first one with too many parts. It stands where the full line does. -/
theorem exists_line_of_fillsUp {source : Bytes} {p : Program} (hlimit : 0 < limit)
    (hle : limit ≤ larger)
    (hfull : FillsUp (settings.withLimit limit) start (Lexing.ofSource source).tokens full)
    (hp : Program.ofSource (settings.withLimit larger) source = .ok p) :
    ∃ earlier line later, p.lines = earlier ++ line :: later ∧
      (∀ other ∈ earlier, other.parts.length ≤ limit) ∧ limit < line.parts.length ∧
      line.pos = ⟨settings.fileName, full.lineStart⟩ := by
  obtain ⟨-, -, g, g', hadd, hend, rfl⟩ := of_ofSource hp
  obtain ⟨before, t, after, htokens, hpart, hbefore, hlength⟩ := hfull
  have hlength : limit ≤ full.parts.length := hlength
  rw [htokens] at hadd
  -- Up to the part that does not fit, both limits lead to the same state.
  have hsame : start.addTokens (settings.withLimit larger) before = .ok full := by
    rcases fillsUp_or_addTokens_eq hle start before with ⟨other, hother⟩ | hsame
    · rw [addTokens_of_fillsUp hlimit hother] at hbefore
      cases hbefore
    · rw [← hsame, hbefore]
  have hcollects := (collects_start (settings.withLimit limit)).addTokens hbefore
  rw [List.nil_append] at hcollects
  obtain ⟨hfinal, -⟩ := collects_of_endLine hadd hend
  rw [addTokens_append, hsame] at hadd
  have hleads : LeadsTo g g'.program.lines :=
    leadsTo_of_endLine hend ⟨[], by simp, fun hne => absurd (endLine_ok hend).1 hne⟩
  obtain ⟨line, later, hlines, hbegins⟩ := exists_line_of_part hpart hadd hleads
  refine ⟨full.program.lines, line, later, hlines, hcollects.lines_le, ?_, ?_⟩
  · have hmore : full.parts.length + 1 ≤ line.parts.length := by simpa using hbegins.length_le
    omega
  · have hne : full.parts ≠ [] := List.ne_nil_of_length_pos (by omega)
    obtain ⟨first, hfirst, hstart⟩ := hcollects.start hne
    obtain ⟨other, hother, hpos⟩ := hfinal.pos _ line later hlines
    rw [hpos, hstart, (hfirst.append (t :: after)).unique hother]
    rfl

/-- A limit that all part tokens keep to is never reached. -/
theorem not_fillsUp (h : (partTokens tokens).length ≤ settings.partsPerLine) :
    ¬ FillsUp settings start tokens full := by
  rintro ⟨before, t, after, rfl, hpart, hbefore, hfull⟩
  have hcollects := (collects_start settings).addTokens hbefore
  have hlength := congrArg List.length hcollects.parts
  simp only [List.nil_append, List.length_append, List.length_map] at hlength
  rw [← List.singleton_append, partTokens_append, partTokens_append, partTokens_singleton hpart,
    List.length_append, List.length_append, List.length_singleton] at h
  omega

end Grouping

namespace Program

variable {settings : ParseSettings} {limit larger : Nat} {source : Bytes} {p : Program}

/-- Under the smaller of two limits a line fills up, or the source is read as under the larger. -/
theorem fillsUp_or_ofSource_eq (hlimit : 0 < limit) (hle : limit ≤ larger) (source : Bytes) :
    (∃ full, Grouping.FillsUp (settings.withLimit limit) Grouping.start
        (Lexing.ofSource source).tokens full ∧
      ofSource (settings.withLimit limit) source = .error (.tooManyParts limit full.lineStart)) ∨
      ofSource (settings.withLimit limit) source = ofSource (settings.withLimit larger) source := by
  have hne : (settings.withLimit limit).partsPerLine ≠ 0 := Nat.ne_of_gt hlimit
  have hne' : (settings.withLimit larger).partsPerLine ≠ 0 :=
    Nat.ne_of_gt (Nat.lt_of_lt_of_le hlimit hle)
  unfold ofSource
  rw [if_neg hne, if_neg hne']
  rcases Grouping.fillsUp_or_addTokens_eq hle Grouping.start (Lexing.ofSource source).tokens with
    ⟨full, hfull⟩ | hsame
  · refine Or.inl ⟨full, hfull, ?_⟩
    dsimp only
    rw [Grouping.addTokens_of_fillsUp hlimit hfull]
    rfl
  · right
    dsimp only
    rw [hsame]
    rfl

theorem length_le_of_ofSource (h : ofSource settings source = .ok p) :
    ∀ line ∈ p.lines, line.parts.length ≤ settings.partsPerLine := by
  obtain ⟨-, -, g, g', hadd, hend, rfl⟩ := Grouping.of_ofSource h
  exact (Grouping.collects_of_endLine hadd hend).1.lines_le

/-- What a source is under a limit, given what it is under a larger one. -/
theorem ofSource_of_le (hlimit : 0 < limit) (hle : limit ≤ larger)
    (hp : ofSource (settings.withLimit larger) source = .ok p) :
    ofSource (settings.withLimit limit) source =
      match p.lines.find? fun line => limit < line.parts.length with
      | none => .ok p
      | some line => .error (.tooManyParts limit line.pos.line) := by
  rcases fillsUp_or_ofSource_eq hlimit hle source with ⟨full, hfull, herror⟩ | hsame
  · obtain ⟨earlier, line, later, hlines, hearlier, hlong, hpos⟩ :=
      Grouping.exists_line_of_fillsUp hlimit hle hfull hp
    have hfind : p.lines.find? (fun line => limit < line.parts.length) = some line := by
      rw [List.find?_eq_some_iff_append]
      exact ⟨by simpa using hlong, earlier, later, hlines, by simpa using hearlier⟩
    rw [hfind, herror]
    dsimp only
    rw [hpos]
  · have hfind : p.lines.find? (fun line => limit < line.parts.length) = none := by
      rw [List.find?_eq_none]
      intro line hline
      have hshort : line.parts.length ≤ limit := length_le_of_ofSource (hsame.trans hp) line hline
      simpa using hshort
    rw [hfind, hsame, hp]

theorem file_of_ofSource (h : ofSource settings source = .ok p) :
    ∀ line ∈ p.lines, line.pos.file = settings.fileName := by
  obtain ⟨-, -, g, g', hadd, hend, rfl⟩ := Grouping.of_ofSource h
  intro line hline
  obtain ⟨earlier, later, hlines⟩ := List.append_of_mem hline
  have hcollects := (Grouping.collects_of_endLine hadd hend).1
  obtain ⟨first, -, hpos⟩ := hcollects.pos earlier line later hlines
  rw [hpos]

/-- No line fills up under a limit that all part tokens keep to, so no other limit gives more. -/
theorem ofSource_of_enough (hlimit : 0 < limit)
    (henough : (partTokens (Lexing.ofSource source).tokens).length ≤ limit) (hle : limit ≤ larger) :
    ofSource (settings.withLimit larger) source = ofSource (settings.withLimit limit) source := by
  rcases fillsUp_or_ofSource_eq hlimit hle source with ⟨full, hfull, -⟩ | hsame
  · exact absurd hfull (Grouping.not_fillsUp henough)
  · exact hsame.symm

/-- A larger limit accepts the same program. -/
theorem ofSource_mono (hle : limit ≤ larger)
    (hp : ofSource (settings.withLimit limit) source = .ok p) :
    ofSource (settings.withLimit larger) source = .ok p := by
  have hlimit : 0 < limit := (Grouping.of_ofSource hp).1
  rcases fillsUp_or_ofSource_eq hlimit hle source with ⟨full, -, herror⟩ | hsame
  · rw [hp] at herror
    cases herror
  · rw [← hsame, hp]

end Program

/-- The limit of parts per line only accepts or refuses. Let a source be parsed with room for all of
its parts on one line. If that gives a program, any other limit gives this very program where no
command of it is too long, and else refuses the source at the position of the first command that is.
If it gives a diagnostic, any other limit gives that one, or has too many parts to report. So what a
limit accepts every larger one does, as the same program. -/
theorem parseWith_withLimit {settings : ParseSettings} {source : Bytes}
    (hpositive : 0 < settings.partsPerLine)
    (henough : (partTokens (Lexing.ofSource source).tokens).length ≤ settings.partsPerLine) :
    (∀ limit, 0 < limit → match Program.parseWith settings source with
      | .ok p =>
        match p.lines.find? fun line => limit < line.parts.length with
        | none => Program.parseWith (settings.withLimit limit) source = .ok p
        | some line => ∃ d, Program.parseWith (settings.withLimit limit) source = .error d ∧
            d.code = .tooManyParts ∧ d.severity = .error ∧ d.pos = line.pos
      | .error d => ∃ other, Program.parseWith (settings.withLimit limit) source = .error other ∧
          (other = d ∨ other.code = .tooManyParts)) ∧
    (∀ limit larger p, limit ≤ larger →
      Program.parseWith (settings.withLimit limit) source = .ok p →
        Program.parseWith (settings.withLimit larger) source = .ok p) ∧
    ∀ limit other p q, Program.parseWith (settings.withLimit limit) source = .ok p →
      Program.parseWith (settings.withLimit other) source = .ok q → p = q := by
  have hmono (limit larger : Nat) (p : Program) (hle : limit ≤ larger)
      (hp : Program.parseWith (settings.withLimit limit) source = .ok p) :
      Program.parseWith (settings.withLimit larger) source = .ok p :=
    Program.parseWith_eq_ok_iff.mpr
      (Program.ofSource_mono hle (Program.parseWith_eq_ok_iff.mp hp))
  refine ⟨?_, hmono, ?_⟩
  · intro limit hlimit
    -- The larger of both limits gives what the sufficient one does.
    have hle : limit ≤ max limit settings.partsPerLine := Nat.le_max_left ..
    have hlarger : Program.ofSource (settings.withLimit (max limit settings.partsPerLine)) source =
        Program.ofSource settings source :=
      Program.ofSource_of_enough hpositive henough (Nat.le_max_right ..)
    cases hparse : Program.parseWith settings source with
    | ok p =>
        have hp := hlarger.trans (Program.parseWith_eq_ok_iff.mp hparse)
        have hsource := Program.ofSource_of_le hlimit hle hp
        dsimp only
        cases hfind : p.lines.find? fun line => limit < line.parts.length with
        | none =>
            rw [hfind] at hsource
            exact Program.parseWith_eq_ok_iff.mpr hsource
        | some line =>
            rw [hfind] at hsource
            refine ⟨_, Program.parseWith_error_iff.mpr ⟨_, hsource, rfl⟩, rfl, rfl, ?_⟩
            have hfile := Program.file_of_ofSource hp line (List.mem_of_find?_eq_some hfind)
            exact congrArg (Position.mk · line.pos.line) hfile.symm
    | error d =>
        obtain ⟨fault, hfault, rfl⟩ := Program.parseWith_error_iff.mp hparse
        rcases Program.fillsUp_or_ofSource_eq hlimit hle source with ⟨full, -, herror⟩ | hsame
        · exact ⟨_, Program.parseWith_error_iff.mpr ⟨_, herror, rfl⟩, Or.inr rfl⟩
        · have herror := hsame.trans (hlarger.trans hfault)
          exact ⟨_, Program.parseWith_error_iff.mpr ⟨_, herror, rfl⟩, Or.inl rfl⟩
  · intro limit other p q hp hq
    rcases Nat.le_total limit other with hle | hle
    · exact Except.ok.inj ((hmono limit other p hle hp).symm.trans hq)
    · exact Except.ok.inj (hp.symm.trans (hmono other limit q hle hq))

/-- The name counts too, and a block is one line: its command is the first that is too long. -/
theorem parseWith_withLimit_block :
    ∃ p d,
      Program.parseWith { partsPerLine := 6 }
        (Bytes.ofString "a b\n?begin c\nd e\n?end f") = .ok p ∧
      (partTokens
        (Lexing.ofSource (Bytes.ofString "a b\n?begin c\nd e\n?end f")).tokens).length = 6 ∧
      Program.parse (Bytes.ofString "a b\n?begin c\nd e\n?end f") 3 = .ok p ∧
      Program.parse (Bytes.ofString "a b\n?begin c\nd e\n?end f") 2 = .error d ∧
      d.code = .tooManyParts ∧ d.pos = ⟨unknownFile, 2⟩ := by
  have hp : Program.parseWith { partsPerLine := 6 }
      (Bytes.ofString "a b\n?begin c\nd e\n?end f") = .ok ⟨[
      ⟨⟨unknownFile, 1⟩, ⟨[0x61], false, true⟩, [⟨[0x62], false, true⟩], by simp⟩,
      ⟨⟨unknownFile, 2⟩, ⟨[0x63], false, true⟩,
        [⟨[0x64], false, true⟩, ⟨[0x65], false, true⟩], by simp⟩,
      ⟨⟨unknownFile, 4⟩, ⟨[0x66], false, true⟩, [], by simp⟩]⟩ := by
    decide +kernel
  have hcount : (partTokens (Lexing.ofSource
      (Bytes.ofString "a b\n?begin c\nd e\n?end f")).tokens).length = 6 := by
    decide +kernel
  have hpositive : 0 < ({ partsPerLine := 6 } : ParseSettings).partsPerLine := by decide
  obtain ⟨hlimits, -⟩ := parseWith_withLimit hpositive (Nat.le_of_eq hcount)
  have hthree := hlimits 3 (by decide)
  have htwo := hlimits 2 (by decide)
  rw [hp] at hthree htwo
  obtain ⟨d, hd, hcode, -, hpos⟩ := htwo
  exact ⟨_, d, hp, hcount, hthree, hd, hcode, hpos⟩

end CommandScript
