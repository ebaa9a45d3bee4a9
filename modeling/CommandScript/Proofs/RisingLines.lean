import CommandScript.Proofs.Grouping
import CommandScript.Proofs.LexAppend
import Mathlib.Algebra.Group.Nat.Defs

/-!
Commands stand on lines of their own, further and further down. A line that is open has begun no
later than the line of the cursor, and it is closed only at a line feed or at a directive, which
stands at the start of a later line. `Rises` says this of a cursor and a state of grouping together,
with lines counted past the largest line number, and every step of lexing keeps it.
-/

namespace CommandScript

/-! ### Line numbers -/

theorem lineNumber_le_lineNumber {m n : Nat} (h : m ≤ n) : lineNumber m ≤ lineNumber n := by
  rw [UInt32.le_iff_toNat_le, toNat_lineNumber, toNat_lineNumber]
  omega

/-- Line numbers tell lines apart as long as there is a number for each. -/
theorem lineNumber_lt_lineNumber {m n : Nat} (h : m < n) (hn : n < UInt32.size) :
    lineNumber m < lineNumber n := by
  rw [UInt32.lt_iff_toNat_lt, toNat_lineNumber, toNat_lineNumber]
  omega

namespace Cursor

variable {c after : Cursor} {source : Bytes}

theorem At.line_le (h : At source c) : c.line ≤ source.count Byte.lineFeed + 1 := by
  obtain ⟨taken, rfl, -, hline⟩ := h
  rw [hline, List.count_append]
  omega

/-- A blank stays on its line, and no line begins behind it. -/
theorem line_of_blank (h : c.step = .blank after) :
    c.line ≤ after.line ∧ after.atLineStart = false := by
  refine ⟨?_, atLineStart_of_blank h⟩
  have hmeets := meets_step c
  rw [h] at hmeets
  cases hmeets with
  | comment _ hafter => rw [hafter]; exact Nat.le_add_right ..
  | space _ _ hafter => rw [hafter]; exact Nat.le_add_right ..

/-- A token is on the line of the cursor, and that is not left backwards. A newline leaves it, a
directive stands at its start, and behind anything else no line begins. -/
theorem line_of_token {t : Token} (h : c.step = .token t after) :
    t.line = lineNumber c.line ∧ c.line ≤ after.line ∧
      (t.kind = .newline → c.line < after.line) ∧ (t.kind = .directive → c.atLineStart = true) ∧
      (t.kind ≠ .newline → after.atLineStart = false) := by
  have hmeets := meets_step c
  rw [h] at hmeets
  cases hmeets with
  | directive _ hstart hafter =>
      rw [hafter]
      exact ⟨rfl, Nat.le_add_right .., nofun, fun _ => hstart, fun _ => rfl⟩
  | newline _ hafter =>
      rw [hafter]
      exact ⟨rfl, Nat.le_succ _, fun _ => Nat.lt_succ_self _, nofun, fun hne => absurd rfl hne⟩
  | string _ _ _ hafter =>
      rw [hafter]
      exact ⟨rfl, Nat.le_add_right .., nofun, nofun, fun _ => rfl⟩
  | word _ _ _ _ hafter =>
      rw [hafter]
      exact ⟨rfl, Nat.le_add_right .., nofun, nofun, fun _ => rfl⟩

end Cursor

/-! ### Lines of a state -/

namespace Grouping

variable {settings : ParseSettings} {g g' : Grouping} {t : Token} {c after : Cursor}
  {starts : List Nat}

/-- The line numbers of the commands, and that of the open line behind them. -/
def lineNumbers (g : Grouping) : List UInt32 :=
  g.program.lines.map (·.pos.line) ++ if g.parts.isEmpty then [] else [g.lineStart]

theorem lineNumbers_of_nil (hparts : g.parts = []) :
    g.lineNumbers = g.program.lines.map (·.pos.line) := by
  simp [lineNumbers, hparts]

/-- The open line keeps its number when it becomes a command. -/
theorem lineNumbers_endLine {file : String} (h : g.endLine file = .ok g') :
    g'.lineNumbers = g.lineNumbers := by
  obtain ⟨-, rfl⟩ | ⟨name, args, hname, hparts, rfl⟩ := endLine_cases h
  · rfl
  · simp [lineNumbers, hparts]

/-- A token adds a line number only where it begins a line. -/
theorem lineNumbers_addToken (h : g.addToken settings t = .ok g') :
    g'.lineNumbers = g.lineNumbers ∨
      (t.isPart = true ∧ g.parts = [] ∧ g'.lineNumbers = g.lineNumbers ++ [t.line]) := by
  cases takes_of_addToken h with
  | part ht _ =>
      by_cases hparts : g.parts = []
      · exact Or.inr ⟨ht, hparts, by simp [lineNumbers, hparts, begunBy_of_nil]⟩
      · exact Or.inl (by simp [lineNumbers, hparts, begunBy_of_ne])
  | opened _ =>
      left
      unfold openBlock
      split <;> rfl
  | merged _ _ => exact Or.inl rfl
  | ended _ hend => exact Or.inl (lineNumbers_endLine (g := { g with mode := .single }) hend)

/-- The lines of a state rise up to the line of the cursor, where they are counted past the largest
line number. All of them lie behind it where a line begins or none is open. -/
structure Rises (c : Cursor) (g : Grouping) (starts : List Nat) : Prop where
  numbers : g.lineNumbers = starts.map lineNumber
  rising : starts.Pairwise (· < ·)
  le : ∀ start ∈ starts, start ≤ c.line
  lt : g.parts = [] ∨ c.atLineStart = true → ∀ start ∈ starts, start < c.line

theorem rises_ofSource (source : Bytes) : Rises (.ofSource source) start [] :=
  ⟨rfl, .nil, nofun, fun _ => nofun⟩

namespace Rises

theorem blank (h : Rises c g starts) (hstep : c.step = .blank after) : Rises after g starts := by
  obtain ⟨hline, hstart⟩ := Cursor.line_of_blank hstep
  refine ⟨h.numbers, h.rising, fun n hn => Nat.le_trans (h.le n hn) hline, ?_⟩
  rintro (hparts | hother) n hn
  · exact Nat.lt_of_lt_of_le (h.lt (Or.inl hparts) n hn) hline
  · rw [hstart] at hother
    cases hother

/-- A token that is no part closes a line only when the cursor has got beyond it. -/
theorem lt_of_not_isPart (h : Rises c g starts) (hstep : c.step = .token t after)
    (ht : t.isPart = false) : ∀ start ∈ starts, start < after.line := by
  obtain ⟨-, hle, hnewline, hdirective, -⟩ := Cursor.line_of_token hstep
  intro n hn
  cases hkind : t.kind with
  | newline => exact Nat.lt_of_le_of_lt (h.le n hn) (hnewline hkind)
  | directive => exact Nat.lt_of_lt_of_le (h.lt (Or.inr (hdirective hkind)) n hn) hle
  | word => simp [Token.isPart, hkind] at ht
  | string => simp [Token.isPart, hkind] at ht

theorem token (h : Rises c g starts) (hstep : c.step = .token t after)
    (hadd : g.addToken settings t = .ok g') : ∃ starts', Rises after g' starts' := by
  obtain ⟨hline, hle, -, -, hbehind⟩ := Cursor.line_of_token hstep
  cases ht : t.isPart with
  | false =>
      have hlt := h.lt_of_not_isPart hstep ht
      rcases lineNumbers_addToken hadd with hsame | ⟨hpart, -⟩
      · exact ⟨starts, hsame.trans h.numbers, h.rising, fun n hn => Nat.le_of_lt (hlt n hn),
          fun _ => hlt⟩
      · rw [ht] at hpart
        cases hpart
  | true =>
      -- The line of a part is open, and no line begins behind a part.
      have hopen : ¬ (g'.parts = [] ∨ after.atLineStart = true) := by
        rw [hbehind (Token.not_block_of_isPart ht).2.2]
        rw [addToken_of_isPart ht] at hadd
        split at hadd
        · cases hadd
          simp
        · cases hadd
      rcases lineNumbers_addToken hadd with hsame | ⟨-, hparts, hnumbers⟩
      · exact ⟨starts, hsame.trans h.numbers, h.rising,
          fun n hn => Nat.le_trans (h.le n hn) hle, fun hnot => absurd hnot hopen⟩
      · refine ⟨starts ++ [c.line], ?_, ?_, ?_, fun hnot => absurd hnot hopen⟩
        · rw [hnumbers, h.numbers, hline, List.map_append, List.map_singleton]
        · rw [List.pairwise_append]
          refine ⟨h.rising, List.pairwise_singleton .., ?_⟩
          simpa using h.lt (Or.inl hparts)
        · intro n hn
          rcases List.mem_append.mp hn with hn | hn
          · exact Nat.le_trans (h.le n hn) hle
          · exact List.mem_singleton.mp hn ▸ hle

end Rises

/-- Along a lexing the lines keep rising, up to the last line of the source. -/
theorem exists_rising_of_addTokens {source : Bytes} (hat : Cursor.At source c)
    (h : Rises c g starts) (hadd : g.addTokens settings c.lex.tokens = .ok g') :
    ∃ starts' : List Nat, g'.lineNumbers = starts'.map lineNumber ∧ starts'.Pairwise (· < ·) ∧
      ∀ start ∈ starts', start ≤ source.count Byte.lineFeed + 1 := by
  fun_induction Cursor.lex c generalizing g starts with
  | case1 c hstep =>
      cases hadd
      exact ⟨starts, h.numbers, h.rising, fun n hn => Nat.le_trans (h.le n hn) hat.line_le⟩
  | case2 c after hstep ih => exact ih (hat.step (by rw [hstep]; rfl)) (h.blank hstep) hadd
  | case3 c t after hstep rest =>
      rename_i ih
      rw [addTokens] at hadd
      cases hnext : g.addToken settings t with
      | error fault => simp [hnext] at hadd
      | ok next =>
          rw [hnext] at hadd
          obtain ⟨starts', hrises⟩ := h.token hstep hnext
          exact ih (hat.step (by rw [hstep]; rfl)) hrises hadd
  | case4 c error endLine hstep =>
      cases hadd
      exact ⟨starts, h.numbers, h.rising, fun n hn => Nat.le_trans (h.le n hn) hat.line_le⟩

end Grouping

/-! ### Lines of a program -/

theorem Program.map_line_commands (p : Program) :
    p.commands.map (·.pos.line) = p.lines.map (·.pos.line) := by
  have hlines : p.lines = p.lines.zipIdx.map Prod.fst := List.zipIdx_map_fst 0 p.lines |>.symm
  rw [Program.commands, List.map_map]
  nth_rewrite 2 [hlines]
  rw [List.map_map]
  rfl

/-- Every command of a source is on a later line than the commands before it. Beyond the largest
line number, commands may share that one, but none is above an earlier one. -/
theorem lines_rise_of_parseWith {settings : ParseSettings} {source : Bytes} {p : Program}
    (h : Program.parseWith settings source = .ok p) :
    (source.count Byte.lineFeed < 2 ^ 32 - 1 →
      p.commands.Pairwise fun earlier later => earlier.pos.line < later.pos.line) ∧
    p.commands.Pairwise fun earlier later => earlier.pos.line ≤ later.pos.line := by
  obtain ⟨-, -, g, g', hadd, hend, rfl⟩ :=
    Grouping.of_ofSource (Program.parseWith_eq_ok_iff.mp h)
  obtain ⟨starts, hnumbers, hrising, hbound⟩ := Grouping.exists_rising_of_addTokens
    (Cursor.at_ofSource source) (Grouping.rises_ofSource source) hadd
  have hlines : g'.program.commands.map (·.pos.line) = starts.map lineNumber := by
    rw [Program.map_line_commands, ← Grouping.lineNumbers_of_nil (Grouping.endLine_ok hend).1,
      Grouping.lineNumbers_endLine hend, hnumbers]
  constructor
  · intro hfew
    rw [← List.pairwise_map (f := fun command : Command => command.pos.line) (R := (· < ·)), hlines,
      List.pairwise_map]
    refine hrising.imp_of_mem ?_
    intro m n _ hn hlt
    apply lineNumber_lt_lineNumber hlt
    have hn := hbound n hn
    have hsize : UInt32.size = 2 ^ 32 := rfl
    omega
  · rw [← List.pairwise_map (f := fun command : Command => command.pos.line) (R := (· ≤ ·)), hlines,
      List.pairwise_map]
    exact hrising.imp fun hlt => lineNumber_le_lineNumber (Nat.le_of_lt hlt)

/-- One `?end` closes a line and begins another behind it, one closes nothing, and a string with an
escaped line feed takes two lines. -/
theorem lines_rise_of_parseWith_stray_end :
    ∃ p, Program.parseWith {} (Bytes.ofString "?begin a\n?end b\n?end\n'c\\\n' d\n?end e") = .ok p ∧
      p.commands.map (·.pos.line) = [1, 2, 4, 6] ∧
      p.commands.Pairwise (fun earlier later => earlier.pos.line < later.pos.line) ∧
      p.commands.Pairwise fun earlier later => earlier.pos.line ≤ later.pos.line := by
  have hparse : Program.parseWith {}
      (Bytes.ofString "?begin a\n?end b\n?end\n'c\\\n' d\n?end e") = .ok ⟨[
        ⟨⟨unknownFile, 1⟩, ⟨[0x61], false, true⟩, [], by simp⟩,
        ⟨⟨unknownFile, 2⟩, ⟨[0x62], false, true⟩, [], by simp⟩,
        ⟨⟨unknownFile, 4⟩, ⟨[0x63, 0x5c, 0x0a], true, false⟩, [⟨[0x64], false, true⟩], by simp⟩,
        ⟨⟨unknownFile, 6⟩, ⟨[0x65], false, true⟩, [], by simp⟩]⟩ := by
    decide +kernel
  have hfew : (Bytes.ofString "?begin a\n?end b\n?end\n'c\\\n' d\n?end e").count Byte.lineFeed <
      2 ^ 32 - 1 := by
    decide
  obtain ⟨hlt, hle⟩ := lines_rise_of_parseWith hparse
  exact ⟨_, hparse, rfl, hlt hfew, hle⟩

end CommandScript
