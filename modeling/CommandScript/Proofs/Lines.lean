import CommandScript.Text.LineIndex
import Mathlib.Data.List.TakeWhile

/-!
Lines of a byte text. The index of a text finds the lines that its line feeds cut it into, and the
line of an offset is the number of line feeds before it.
-/

namespace CommandScript

namespace Bytes

/-- The bytes from one offset up to another. -/
def slice (text : Bytes) (start stop : Nat) : Bytes :=
  (text.take stop).drop start

theorem getElem?_slice {text : Bytes} {start stop n : Nat} (h : start + n < stop) :
    (text.slice start stop)[n]? = text[start + n]? := by
  rw [slice, List.getElem?_drop, List.getElem?_take_of_lt h]

/-- A slice begins with the byte at its start. -/
theorem head?_slice {text : Bytes} {start stop : Nat} (h : start < stop) :
    (text.slice start stop).head? = text[start]? := by
  rw [List.head?_eq_getElem?, getElem?_slice h, Nat.add_zero]

theorem drop_eq_slice_append {text : Bytes} {start stop : Nat} (h : start ≤ stop) :
    text.drop start = text.slice start stop ++ text.drop stop := by
  have hstop : start + (stop - start) = stop := by omega
  rw [slice, List.drop_take, ← hstop, ← List.drop_drop, Nat.add_sub_cancel_left,
    List.take_append_drop]

theorem slice_append_right (before rest : Bytes) (start stop : Nat) :
    slice (before ++ rest) (before.length + start) (before.length + stop) =
      rest.slice start stop := by
  rw [slice, List.take_length_add_append, List.drop_append, Nat.add_sub_cancel_left,
    List.drop_of_length_le (Nat.le_add_right ..), List.nil_append]
  rfl

theorem slice_append_left (line rest : Bytes) : slice (line ++ rest) 0 line.length = line := by
  rw [slice, List.take_left, List.drop_zero]

/-- A text is its last line, or a line with more lines behind it. -/
@[elab_as_elim]
theorem line_induction {P : Bytes → Prop} (last : ∀ line : Bytes, Byte.lineFeed ∉ line → P line)
    (cons : ∀ line rest : Bytes, Byte.lineFeed ∉ line → P rest →
      P (line ++ Byte.lineFeed :: rest)) (text : Bytes) : P text := by
  by_cases hmem : Byte.lineFeed ∈ text
  · obtain ⟨line, rest, rfl, hline⟩ := List.eq_append_cons_of_mem hmem
    exact cons line rest hline (line_induction last cons rest)
  · exact last text hmem
termination_by text.length

end Bytes

namespace LineIndex

variable {text line rest : Bytes}

/-! ### Line starts -/

theorem startsAfter_eq_map (offset : Nat) (text : Bytes) :
    startsAfter offset text = (startsAfter 0 text).map (offset + ·) := by
  induction text generalizing offset with
  | nil => rfl
  | cons b text ih =>
      rw [startsAfter, startsAfter, ih (offset + 1), ih (0 + 1)]
      split <;> simp [Function.comp_def, Nat.add_assoc]

theorem length_startsAfter (offset : Nat) (text : Bytes) :
    (startsAfter offset text).length = text.count Byte.lineFeed := by
  induction text generalizing offset with
  | nil => rfl
  | cons b text ih =>
      rw [startsAfter, List.count_cons]
      split <;> simp [ih]

theorem lt_of_mem_startsAfter {offset start : Nat} (h : start ∈ startsAfter offset text) :
    offset < start := by
  induction text generalizing offset with
  | nil => cases h
  | cons b text ih =>
      rw [startsAfter] at h
      split at h
      · rcases List.mem_cons.mp h with rfl | h
        · exact Nat.lt_succ_self offset
        · exact Nat.lt_of_succ_lt (ih h)
      · exact Nat.lt_of_succ_lt (ih h)

theorem startsAfter_of_notMem (offset : Nat) (h : Byte.lineFeed ∉ line) :
    startsAfter offset line = [] := by
  rw [← List.length_eq_zero_iff, length_startsAfter, List.count_eq_zero]
  exact h

theorem startsAfter_append (offset : Nat) (before rest : Bytes) :
    startsAfter offset (before ++ rest) =
      startsAfter offset before ++ startsAfter (offset + before.length) rest := by
  induction before generalizing offset with
  | nil => rfl
  | cons b before ih =>
      rw [List.cons_append, startsAfter, startsAfter, ih, List.length_cons, Nat.add_assoc offset,
        Nat.add_comm 1]
      split <;> rfl

theorem starts_of_notMem (hline : Byte.lineFeed ∉ line) : (ofBytes line).starts = [0] :=
  congrArg (0 :: ·) (startsAfter_of_notMem 0 hline)

/-- The line starts behind the first line are those of the rest, further on. -/
theorem starts_cons (hline : Byte.lineFeed ∉ line) :
    (ofBytes (line ++ Byte.lineFeed :: rest)).starts =
      0 :: (ofBytes rest).starts.map (line.length + 1 + ·) := by
  rw [ofBytes, startsAfter_append, startsAfter_of_notMem 0 hline, startsAfter,
    if_pos (beq_self_eq_true _), startsAfter_eq_map]
  simp [ofBytes]

theorem lineCount_ofBytes (text : Bytes) :
    (ofBytes text).lineCount = text.count Byte.lineFeed + 1 :=
  congrArg (· + 1) (length_startsAfter 0 text)

/-! ### The line of an offset -/

/-- The first line starts up to any offset. -/
theorem takeWhile_le_cons (starts : List Nat) (offset : Nat) :
    (0 :: starts).takeWhile (· ≤ offset) = 0 :: starts.takeWhile (· ≤ offset) :=
  List.takeWhile_cons_of_pos (decide_eq_true (Nat.zero_le offset))

/-- As many lines start up to an offset as the line that holds it says. -/
theorem length_takeWhile_starts (text : Bytes) (offset : Nat) :
    ((ofBytes text).starts.takeWhile (· ≤ offset)).length = (ofBytes text).lineOf offset + 1 := by
  rw [lineOf, ofBytes, takeWhile_le_cons, List.length_cons, Nat.add_sub_cancel]

theorem lineOf_ofBytes (text : Bytes) (offset : Nat) :
    (ofBytes text).lineOf offset = (text.take offset).count Byte.lineFeed := by
  apply Nat.add_right_cancel (m := 1)
  rw [← length_takeWhile_starts]
  induction text using Bytes.line_induction generalizing offset with
  | last line hline =>
      have hnone : (line.take offset).count Byte.lineFeed = 0 :=
        List.count_eq_zero.mpr (mt List.mem_of_mem_take hline)
      rw [starts_of_notMem hline, hnone]
      simp
  | cons line rest hline ih =>
      rw [starts_cons hline, takeWhile_le_cons, List.takeWhile_map, List.length_cons,
        List.length_map]
      by_cases hle : offset ≤ line.length
      · have hnone : (line.take offset).count Byte.lineFeed = 0 :=
          List.count_eq_zero.mpr (mt List.mem_of_mem_take hline)
        have hnil : (ofBytes rest).starts.takeWhile
            ((fun start => decide (start ≤ offset)) ∘ (line.length + 1 + ·)) = [] := by
          refine List.takeWhile_eq_nil_iff.mpr ?_
          intro hlength
          simp only [Function.comp_apply, decide_eq_true_eq]
          omega
        rw [List.take_append_of_le_length hle, hnone, hnil]
        rfl
      · obtain ⟨more, rfl⟩ : ∃ more, offset = line.length + (more + 1) :=
          ⟨offset - line.length - 1, by omega⟩
        have hsame : (fun start => decide (start ≤ line.length + (more + 1))) ∘
            (line.length + 1 + ·) = fun start => decide (start ≤ more) := by
          funext start
          simp only [Function.comp_apply, decide_eq_decide]
          omega
        rw [hsame, ih, List.take_length_add_append, List.take_succ_cons, List.count_append,
          List.count_eq_zero.mpr hline, List.count_cons_self, Nat.zero_add]

theorem lineColumn_ofBytes (text : Bytes) (offset : Nat) :
    ((ofBytes text).lineColumn offset).1 = (text.take offset).count Byte.lineFeed :=
  lineOf_ofBytes text offset

/-! ### The range of a line -/

theorem isSome_range?_iff (index : LineIndex) (number : Nat) :
    (index.range? number).isSome = true ↔ 1 ≤ number ∧ number ≤ index.lineCount := by
  cases number with
  | zero => simp [range?]
  | succ line =>
      rw [range?, Option.isSome_map, start?, lineCount, isSome_getElem?]
      omega

theorem range?_of_notMem (hline : Byte.lineFeed ∉ line) (n : Nat) :
    (ofBytes line).range? (n + 1) = if n = 0 then some (0, line.length) else none := by
  rw [range?, start?, start?, starts_of_notMem hline]
  cases n <;> rfl

theorem range?_one (hline : Byte.lineFeed ∉ line) :
    (ofBytes (line ++ Byte.lineFeed :: rest)).range? 1 = some (0, line.length) := by
  rw [range?, start?, start?, starts_cons hline]
  rfl

/-- The lines behind the first one are those of the rest, further on. -/
theorem range?_succ (hline : Byte.lineFeed ∉ line) (n : Nat) :
    (ofBytes (line ++ Byte.lineFeed :: rest)).range? (n + 2) =
      ((ofBytes rest).range? (n + 1)).map fun range =>
        (line.length + 1 + range.1, line.length + 1 + range.2) := by
  have hsize : (ofBytes (line ++ Byte.lineFeed :: rest)).size =
      line.length + 1 + (ofBytes rest).size := by
    simp [ofBytes, Nat.add_assoc, Nat.add_comm 1]
  rw [range?, range?, start?, start?, start?, start?, hsize, starts_cons hline,
    List.getElem?_cons_succ, List.getElem?_cons_succ, List.getElem?_map, List.getElem?_map]
  cases (ofBytes rest).starts[n]? with
  | none => rfl
  | some start =>
      cases hnext : (ofBytes rest).starts[n + 1]? with
      | none => rfl
      | some next =>
          have hpos : 0 < next := lt_of_mem_startsAfter (List.mem_of_getElem? hnext)
          simp only [Option.map_some]
          congr 2
          omega

end LineIndex

/-- The bytes of the line with this number, counted from one. -/
def Bytes.lineText? (text : Bytes) (number : Nat) : Option Bytes :=
  ((LineIndex.ofBytes text).range? number).map fun range => text.slice range.1 range.2

/-- The lines of an index are the pieces between the line feeds. -/
theorem Bytes.lineText?_eq (text : Bytes) (n : Nat) :
    text.lineText? (n + 1) = (text.splitOn Byte.lineFeed)[n]? := by
  induction text using Bytes.line_induction generalizing n with
  | last line hline =>
      rw [lineText?, LineIndex.range?_of_notMem hline, List.splitOn_eq_singleton hline]
      cases n with
      | zero => simp [slice]
      | succ n => rfl
  | cons line rest hline ih =>
      rw [List.splitOn_append_cons_self_of_not_mem hline]
      cases n with
      | zero =>
          rw [lineText?, LineIndex.range?_one hline]
          exact congrArg some (slice_append_left line _)
      | succ n =>
          rw [List.getElem?_cons_succ, ← ih, lineText?, lineText?, LineIndex.range?_succ hline,
            Option.map_map]
          congr 1
          funext range
          have hshift := slice_append_right (line ++ [Byte.lineFeed]) rest range.1 range.2
          simpa using hshift

end CommandScript
