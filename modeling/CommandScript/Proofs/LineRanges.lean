import CommandScript.Proofs.LineLookup

/-!
The ranges of the lines of a text. They are numbered without a gap from one on, each lies in the
text and covers no line feed, and the text is their slices with a line feed between any two. This
holds of empty lines too, of the one behind a line feed at the end, and of the empty text, which has
one empty line.
-/

namespace CommandScript

namespace LineIndex

variable {text : Bytes} {number start stop line next : Nat}

/-! ### Line starts behind line feeds -/

theorem of_mem_startsAfter {offset : Nat} (h : start ∈ startsAfter offset text) :
    ∃ i, start = offset + i + 1 ∧ text[i]? = some Byte.lineFeed := by
  induction text generalizing offset with
  | nil => cases h
  | cons b text ih =>
      have hrest (hmem : start ∈ startsAfter (offset + 1) text) :
          ∃ i, start = offset + i + 1 ∧ (b :: text)[i]? = some Byte.lineFeed := by
        obtain ⟨i, hstart, hfeed⟩ := ih hmem
        exact ⟨i + 1, by omega, hfeed⟩
      rw [startsAfter] at h
      split at h
      · rename_i hb
        rcases List.mem_cons.mp h with rfl | hmem
        · exact ⟨0, rfl, congrArg some (eq_of_beq hb)⟩
        · exact hrest hmem
      · exact hrest h

/-- A start that follows another one has a line feed in front of it, so there is an offset to go
back to. -/
theorem lineFeed_before_start (h : (ofBytes text).start? (line + 1) = some next) :
    0 < next ∧ text[next - 1]? = some Byte.lineFeed := by
  have hmem : next ∈ startsAfter 0 text := List.mem_of_getElem? h
  obtain ⟨i, rfl, hfeed⟩ := of_mem_startsAfter hmem
  refine ⟨Nat.succ_pos _, ?_⟩
  rwa [Nat.add_sub_cancel, Nat.zero_add]

/-! ### What a range covers -/

/-- The range lies in the text and covers no line feed. -/
structure WithinLine (text : Bytes) (start stop : Nat) : Prop where
  le : start ≤ stop
  le_length : stop ≤ text.length
  lineFeed_notMem : Byte.lineFeed ∉ text.slice start stop

/-- The first line of a text that goes on behind it, and a text that is one line. -/
theorem WithinLine.whole {first : Bytes} (hfirst : Byte.lineFeed ∉ first) (rest : Bytes) :
    WithinLine (first ++ rest) 0 first.length where
  le := Nat.zero_le _
  le_length := by
    rw [List.length_append]
    exact Nat.le_add_right ..
  lineFeed_notMem := by
    rw [Bytes.slice_append_left]
    exact hfirst

/-- Behind other bytes a line is as far on as they are long. -/
theorem WithinLine.behind (h : WithinLine text start stop) (taken : Bytes) :
    WithinLine (taken ++ text) (taken.length + start) (taken.length + stop) where
  le := Nat.add_le_add_left h.le _
  le_length := by
    rw [List.length_append]
    exact Nat.add_le_add_left h.le_length _
  lineFeed_notMem := by
    rw [Bytes.slice_append_right]
    exact h.lineFeed_notMem

theorem withinLine_of_range? (h : (ofBytes text).range? number = some (start, stop)) :
    WithinLine text start stop := by
  cases number with
  | zero => cases h
  | succ n =>
      induction text using Bytes.line_induction generalizing n start stop with
      | last line hline =>
          rw [range?_of_notMem hline] at h
          obtain ⟨-, hrange⟩ := Option.ite_none_right_eq_some.mp h
          obtain ⟨rfl, rfl⟩ := Prod.mk.inj (Option.some.inj hrange)
          have hwhole := WithinLine.whole hline []
          rwa [List.append_nil] at hwhole
      | cons line rest hline ih =>
          cases n with
          | zero =>
              rw [range?_one hline] at h
              obtain ⟨rfl, rfl⟩ := Prod.mk.inj (Option.some.inj h)
              exact WithinLine.whole hline _
          | succ n =>
              rw [range?_succ hline] at h
              obtain ⟨⟨a, b⟩, hrange, heq⟩ := Option.map_eq_some_iff.mp h
              obtain ⟨rfl, rfl⟩ := Prod.mk.inj heq
              have hbehind := (ih n hrange).behind (line ++ [Byte.lineFeed])
              rw [List.append_cons]
              rwa [List.length_append] at hbehind

end LineIndex

/-! ### The lines in a row -/

theorem Bytes.isSome_lineText?_iff (text : Bytes) (number : Nat) :
    (text.lineText? number).isSome = true ↔
      1 ≤ number ∧ number ≤ (LineIndex.ofBytes text).lineCount := by
  rw [lineText?, Option.isSome_map]
  exact LineIndex.isSome_range?_iff _ number

/-- Every number up to the count is that of a line, and in their order the lines are what the line
feeds cut the text into. -/
theorem Bytes.map_lineText? (text : Bytes) :
    (List.range' 1 (LineIndex.ofBytes text).lineCount).map text.lineText? =
      (text.splitOn Byte.lineFeed).map some := by
  apply List.ext_getElem?
  intro n
  have hsome := text.isSome_lineText?_iff (n + 1)
  rw [List.getElem?_map, List.getElem?_map, ← lineText?_eq]
  by_cases hn : n < (LineIndex.ofBytes text).lineCount
  · obtain ⟨line, hline⟩ := Option.isSome_iff_exists.mp (hsome.mpr ⟨Nat.succ_pos n, hn⟩)
    rw [List.getElem?_range' hn, Option.map_some, Nat.one_mul, Nat.add_comm 1, hline]
    rfl
  · have hnone : text.lineText? (n + 1) = none := by
      apply Option.not_isSome_iff_eq_none.mp
      exact fun h => hn (hsome.mp h).2
    rw [List.getElem?_eq_none (by simpa using hn), hnone]
    rfl

namespace LineIndex

/-- A text has one line more than line feeds, and the numbers from one up to their count, and no
others, have a range. A range begins no later than it ends, ends in the text and covers no line
feed. The slices of all ranges in a row, with a line feed between any two, are the text. Where a
range is found from the start of the next line, there is a line feed in front of that start. -/
theorem ranges_partition (text : Bytes) :
    (ofBytes text).lineCount = 1 + text.count Byte.lineFeed ∧
    (∀ number, ((ofBytes text).range? number).isSome = true ↔
      1 ≤ number ∧ number ≤ (ofBytes text).lineCount) ∧
    (∀ number start stop, (ofBytes text).range? number = some (start, stop) →
      start ≤ stop ∧ stop ≤ text.length ∧ Byte.lineFeed ∉ text.slice start stop) ∧
    (∃ lines : List Bytes,
      (List.range' 1 (ofBytes text).lineCount).map text.lineText? = lines.map some ∧
        [Byte.lineFeed].intercalate lines = text) ∧
    ∀ line next, (ofBytes text).start? (line + 1) = some next →
      0 < next ∧ text[next - 1]? = some Byte.lineFeed := by
  refine ⟨?_, isSome_range?_iff _, ?_, ?_, fun _ _ => lineFeed_before_start⟩
  · rw [lineCount_ofBytes, Nat.add_comm]
  · intro number start stop hrange
    have hwithin := withinLine_of_range? hrange
    exact ⟨hwithin.le, hwithin.le_length, hwithin.lineFeed_notMem⟩
  · exact ⟨text.splitOn Byte.lineFeed, text.map_lineText?, List.intercalate_splitOn _⟩

/-- A line feed at the start and one at the end: the first line and the last are empty. -/
theorem ranges_partition_empty_lines :
    let text : Bytes := [Byte.lineFeed, 0x61, Byte.lineFeed]
    (ofBytes text).range? 3 = some (3, 3) ∧ 3 ≤ text.length ∧
      Byte.lineFeed ∉ text.slice 3 3 ∧
      (ofBytes text).start? 2 = some 3 ∧ text[3 - 1]? = some Byte.lineFeed := by
  intro text
  obtain ⟨-, -, hrange, -, hstart⟩ := ranges_partition text
  have hlast : (ofBytes text).range? 3 = some (3, 3) := rfl
  have hnext : (ofBytes text).start? 2 = some 3 := rfl
  obtain ⟨-, hlength, hnone⟩ := hrange 3 3 3 hlast
  exact ⟨hlast, hlength, hnone, hnext, (hstart 1 3 hnext).2⟩

end LineIndex

end CommandScript
