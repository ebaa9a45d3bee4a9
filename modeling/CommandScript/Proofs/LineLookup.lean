import CommandScript.Proofs.Lines
import Mathlib.Data.Prod.Lex
import Mathlib.Order.Monotone.Defs

/-!
Lines and columns of offsets. The line starts of a text increase, so for every offset exactly one
line begins no later and is followed by none that does. Both the lookup of an index and a search of
the table by halving find this line. Line and column therefore grow with the offset, and together
they give it back.
-/

namespace CommandScript.LineIndex

variable {text : Bytes} {index : LineIndex} {offset : Nat}

/-! ### Line starts in order -/

theorem pairwise_startsAfter (offset : Nat) (text : Bytes) :
    (startsAfter offset text).Pairwise (· < ·) := by
  induction text generalizing offset with
  | nil => exact List.Pairwise.nil
  | cons b text ih =>
      rw [startsAfter]
      split
      · apply List.pairwise_cons.mpr
        exact ⟨fun start hstart => lt_of_mem_startsAfter hstart, ih (offset + 1)⟩
      · exact ih (offset + 1)

/-- The first line starts at 0, and every other one behind the line before it. -/
structure Increasing (index : LineIndex) : Prop where
  start_zero : index.start? 0 = some 0
  pairwise : index.starts.Pairwise (· < ·)

theorem increasing_ofBytes (text : Bytes) : (ofBytes text).Increasing where
  start_zero := rfl
  pairwise := by
    apply List.pairwise_cons.mpr
    exact ⟨fun start hstart => lt_of_mem_startsAfter hstart, pairwise_startsAfter 0 text⟩

theorem Increasing.start_lt (h : index.Increasing) {i j a b : Nat} (hij : i < j)
    (hi : index.start? i = some a) (hj : index.start? j = some b) : a < b := by
  obtain ⟨hilt, rfl⟩ := List.getElem?_eq_some_iff.mp hi
  obtain ⟨hjlt, rfl⟩ := List.getElem?_eq_some_iff.mp hj
  exact List.pairwise_iff_getElem.mp h.pairwise i j hilt hjlt hij

theorem Increasing.start_le (h : index.Increasing) {i j a b : Nat} (hij : i ≤ j)
    (hi : index.start? i = some a) (hj : index.start? j = some b) : a ≤ b := by
  rcases Nat.lt_or_eq_of_le hij with hlt | rfl
  · exact Nat.le_of_lt (h.start_lt hlt hi hj)
  · exact Nat.le_of_eq (Option.some.inj (hi.symm.trans hj))

/-! ### The line that holds an offset -/

/-- The line begins no later than the offset, and the next one, if there is one, behind it. -/
structure Holds (index : LineIndex) (line offset : Nat) : Prop where
  exists_start : ∃ start, index.start? line = some start ∧ start ≤ offset
  lt_next : ∀ next, index.start? (line + 1) = some next → offset < next

theorem Holds.le (h : index.Increasing) {line other : Nat} (hline : index.Holds line offset)
    (hother : index.Holds other offset) : other ≤ line := by
  obtain ⟨start, hstart, hle⟩ := hother.exists_start
  apply Nat.le_of_not_lt
  intro hlt
  have hlength : other < index.starts.length := (List.getElem?_eq_some_iff.mp hstart).1
  have hnext : index.start? (line + 1) = some index.starts[line + 1] :=
    List.getElem?_eq_getElem (by omega)
  have hbehind := hline.lt_next _ hnext
  have hbefore := h.start_le hlt hnext hstart
  omega

theorem Holds.unique (h : index.Increasing) {line other : Nat} (hline : index.Holds line offset)
    (hother : index.Holds other offset) : line = other :=
  Nat.le_antisymm (hother.le h hline) (hline.le h hother)

/-- The starts up to an offset are those of the line that holds it and of the lines before. -/
theorem holds_lineOf (text : Bytes) (offset : Nat) :
    (ofBytes text).Holds ((ofBytes text).lineOf offset) offset := by
  have hlength := length_takeWhile_starts text offset
  have hstarts := List.takeWhile_append_dropWhile (p := (· ≤ offset)) (l := (ofBytes text).starts)
  constructor
  · have hlt : (ofBytes text).lineOf offset <
        ((ofBytes text).starts.takeWhile (· ≤ offset)).length := by omega
    refine ⟨((ofBytes text).starts.takeWhile (· ≤ offset))[(ofBytes text).lineOf offset], ?_, ?_⟩
    · rw [start?, ← List.getElem?_eq_getElem hlt, ← List.getElem?_append_left hlt, hstarts]
    · have hmem := List.mem_takeWhile_imp (List.getElem_mem hlt)
      exact of_decide_eq_true hmem
  · intro next hnext
    rw [start?, ← hstarts, List.getElem?_append_right (by omega), hlength, Nat.sub_self,
      ← List.head?_eq_getElem?] at hnext
    have hbehind := List.head?_dropWhile_not (· ≤ offset) (ofBytes text).starts
    rw [hnext] at hbehind
    simpa using hbehind

/-! ### Searching by halving -/

/-- Where a number belongs in an increasing table: at an entry that equals it, or in the gap in
front of a place. -/
inductive Slot where
  | entry (place : Nat)
  | gap (place : Nat)
deriving DecidableEq, Repr

/-- The line whose start is the entry, or the last one that starts before the gap. -/
def Slot.line : Slot → Nat
  | .entry place => place
  | .gap place => place - 1

/-- Looks for a number among the entries from `low` up to `high`, of which each step leaves half. -/
def bisect (table : List Nat) (number low high : Nat) (hhigh : high ≤ table.length) : Slot :=
  if hlow : low < high then
    let middle := low + (high - low) / 2
    have hmiddle : middle < high := by omega
    if table[middle] = number then .entry middle
    else if table[middle] < number then bisect table number (middle + 1) high hhigh
    else bisect table number low middle (by omega)
  else .gap low
termination_by high - low

/-- Searches the line starts for an offset. -/
def search (index : LineIndex) (offset : Nat) : Slot :=
  bisect index.starts offset 0 index.starts.length (Nat.le_refl _)

/-- The number is larger than every entry in front of `low` and smaller than all from `high` on. -/
structure Brackets (table : List Nat) (number low high : Nat) : Prop where
  le : low ≤ high
  below : ∀ i entry, table[i]? = some entry → i < low → entry < number
  above : ∀ i entry, table[i]? = some entry → high ≤ i → number < entry

/-- The number is the entry, or it belongs in the gap. -/
def Slot.Fits (table : List Nat) (number : Nat) : Slot → Prop
  | .entry place => table[place]? = some number
  | .gap place => place ≤ table.length ∧ Brackets table number place place

variable {table : List Nat} {number low high middle entry : Nat}

/-- An entry that is too small leaves the part behind it. -/
theorem Brackets.right (h : Brackets table number low high) (hordered : table.Pairwise (· < ·))
    (hentry : table[middle]? = some entry) (hlt : entry < number) (hmiddle : middle < high) :
    Brackets table number (middle + 1) high where
  le := hmiddle
  below := by
    intro i other hother hi
    obtain ⟨hlength, rfl⟩ := List.getElem?_eq_some_iff.mp hentry
    obtain ⟨hilength, rfl⟩ := List.getElem?_eq_some_iff.mp hother
    rcases Nat.lt_succ_iff_lt_or_eq.mp hi with hi | rfl
    · have hless := List.pairwise_iff_getElem.mp hordered i middle hilength hlength hi
      omega
    · exact hlt
  above := h.above

/-- An entry that is too large leaves the part in front of it. -/
theorem Brackets.left (h : Brackets table number low high) (hordered : table.Pairwise (· < ·))
    (hentry : table[middle]? = some entry) (hlt : number < entry) (hmiddle : low ≤ middle) :
    Brackets table number low middle where
  le := hmiddle
  below := h.below
  above := by
    intro i other hother hi
    obtain ⟨hlength, rfl⟩ := List.getElem?_eq_some_iff.mp hentry
    obtain ⟨hilength, rfl⟩ := List.getElem?_eq_some_iff.mp hother
    rcases Nat.lt_or_eq_of_le hi with hi | rfl
    · have hless := List.pairwise_iff_getElem.mp hordered middle i hlength hilength hi
      omega
    · exact hlt

theorem bisect_fits {hhigh : high ≤ table.length} (hordered : table.Pairwise (· < ·))
    (h : Brackets table number low high) :
    (bisect table number low high hhigh).Fits table number := by
  -- Both halves are bracketed again; when nothing is left between the bounds, they are the gap.
  fun_induction bisect table number low high hhigh with
  | case1 low high hhigh hlow middle hmiddle heq =>
      rw [← heq]
      exact List.getElem?_eq_getElem _
  | case2 low high hhigh hlow middle hmiddle hne hlt ih =>
      apply ih
      exact h.right hordered (List.getElem?_eq_getElem _) hlt hmiddle
  | case3 low high hhigh hlow middle hmiddle hne hnot ih =>
      apply ih
      exact h.left hordered (List.getElem?_eq_getElem _) (by omega) (Nat.le_add_right ..)
  | case4 low high hhigh hlow =>
      obtain rfl : low = high := Nat.le_antisymm h.le (Nat.le_of_not_lt hlow)
      exact ⟨hhigh, h⟩

/-- The line of a slot holds the offset that fits there. There is no gap in front of the first
line, so the line before a gap exists. -/
theorem Slot.Fits.holds (h : index.Increasing) {slot : Slot}
    (hslot : slot.Fits index.starts offset) : index.Holds slot.line offset := by
  cases slot with
  | entry place =>
      refine ⟨⟨offset, hslot, Nat.le_refl _⟩, ?_⟩
      intro next hnext
      exact h.start_lt (Nat.lt_succ_self place) hslot hnext
  | gap place =>
      obtain ⟨hlength, hbrackets⟩ := hslot
      cases place with
      | zero =>
          have hlt := hbrackets.above 0 0 h.start_zero (Nat.le_refl 0)
          exact absurd hlt (Nat.not_lt_zero _)
      | succ line =>
          have hstart : index.starts[line]? = some index.starts[line] :=
            List.getElem?_eq_getElem hlength
          have hlt := hbrackets.below line _ hstart (Nat.lt_succ_self line)
          refine ⟨⟨_, hstart, Nat.le_of_lt hlt⟩, ?_⟩
          intro next hnext
          exact hbrackets.above (line + 1) next hnext (Nat.le_refl _)

theorem holds_search (h : index.Increasing) (offset : Nat) :
    index.Holds (index.search offset).line offset := by
  apply Slot.Fits.holds h
  apply bisect_fits h.pairwise
  refine ⟨Nat.zero_le _, fun i _ _ hi => absurd hi (Nat.not_lt_zero i), ?_⟩
  intro i entry hentry hi
  have hlt := (List.getElem?_eq_some_iff.mp hentry).1
  omega

theorem lineOf_eq_search (text : Bytes) (offset : Nat) :
    (ofBytes text).lineOf offset = ((ofBytes text).search offset).line :=
  (holds_lineOf text offset).unique (increasing_ofBytes text)
    (holds_search (increasing_ofBytes text) offset)

/-! ### Lines and columns -/

theorem exists_lineColumn (text : Bytes) (offset : Nat) :
    ∃ line column start, (ofBytes text).lineColumn offset = (line, column) ∧
      line = (text.take offset).count Byte.lineFeed ∧
      (ofBytes text).start? line = some start ∧ start + column = offset := by
  obtain ⟨start, hstart, hle⟩ := (holds_lineOf text offset).exists_start
  refine ⟨(ofBytes text).lineOf offset, offset - start, start, ?_, lineOf_ofBytes text offset,
    hstart, Nat.add_sub_cancel' hle⟩
  rw [lineColumn, hstart]
  rfl

/-- A later offset is on a later line, or further right on the same one. -/
theorem strictMono_lineColumn (text : Bytes) :
    StrictMono fun offset => toLex ((ofBytes text).lineColumn offset) := by
  intro a b hab
  obtain ⟨line, column, start, ha, hline, hstart, hsum⟩ := exists_lineColumn text a
  obtain ⟨line', column', start', hb, hline', hstart', hsum'⟩ := exists_lineColumn text b
  have hle : line ≤ line' := by
    rw [hline, hline']
    exact (List.take_sublist_take_left (Nat.le_of_lt hab)).count_le Byte.lineFeed
  dsimp only
  rw [ha, hb, Prod.Lex.toLex_lt_toLex]
  rcases Nat.lt_or_eq_of_le hle with hlt | rfl
  · exact Or.inl hlt
  · -- On one line the columns are counted from the same start.
    obtain rfl : start = start' := Option.some.inj (hstart.symm.trans hstart')
    refine Or.inr ⟨rfl, ?_⟩
    dsimp only
    omega

theorem injective_lineColumn (text : Bytes) : (ofBytes text).lineColumn.Injective := by
  intro a b hab
  apply (strictMono_lineColumn text).injective
  exact congrArg toLex hab

/-! ### Offsets and the ranges of lines -/

theorem range?_of_start? {line start : Nat} (hstart : index.start? line = some start) :
    index.range? (line + 1) = some (start, match index.start? (line + 1) with
      | some next => next - 1
      | none => index.size) := by
  rw [range?, hstart]
  rfl

theorem exists_range?_of_le (hle : offset ≤ text.length) :
    ∃ start stop, (ofBytes text).range? ((ofBytes text).lineOf offset + 1) = some (start, stop) ∧
      start ≤ offset ∧ offset ≤ stop := by
  have hholds := holds_lineOf text offset
  obtain ⟨start, hstart, hbegun⟩ := hholds.exists_start
  refine ⟨start, _, range?_of_start? hstart, hbegun, ?_⟩
  split
  · rename_i next hnext
    exact Nat.le_sub_one_of_lt (hholds.lt_next next hnext)
  · exact hle

/-- The line behind a line feed starts right there. -/
theorem start?_of_lineFeed (hfeed : text[offset]? = some Byte.lineFeed) :
    (ofBytes text).start? ((ofBytes text).lineOf offset + 1) = some (offset + 1) := by
  have hline : (ofBytes text).lineOf (offset + 1) = (ofBytes text).lineOf offset + 1 := by
    rw [lineOf_ofBytes, lineOf_ofBytes, List.take_add_one, hfeed, List.count_append]
    rfl
  obtain ⟨start, hstart, hle⟩ := (holds_lineOf text (offset + 1)).exists_start
  rw [hline] at hstart
  -- The next line starts behind the line feed, but no later than right behind it.
  have hlt := (holds_lineOf text offset).lt_next start hstart
  obtain rfl : start = offset + 1 := by omega
  exact hstart

theorem exists_range?_of_lineFeed (hfeed : text[offset]? = some Byte.lineFeed) :
    ∃ start, (ofBytes text).range? ((ofBytes text).lineOf offset + 1) = some (start, offset) := by
  obtain ⟨start, hstart, -⟩ := (holds_lineOf text offset).exists_start
  refine ⟨start, ?_⟩
  rw [range?_of_start? hstart, start?_of_lineFeed hfeed]
  rfl

/-- Line and column of every offset, also of one past the end: the line counts the line feeds before
the offset, it has a start, and the column leads from there to the offset. So they grow with the
offset, line first, and no two offsets share them. An offset in the text or at its end is in the
range of its line or right behind it, and a line feed is right behind the range of the line that it
ends. A search of the line starts by halving gives the same line. -/
theorem lineColumn_exact (text : Bytes) :
    (∀ offset, ∃ line column start, (ofBytes text).lineColumn offset = (line, column) ∧
      line = (text.take offset).count Byte.lineFeed ∧
      (ofBytes text).start? line = some start ∧ start + column = offset) ∧
    (StrictMono fun offset => toLex ((ofBytes text).lineColumn offset)) ∧
    (ofBytes text).lineColumn.Injective ∧
    (∀ offset, offset ≤ text.length → ∃ start stop,
      (ofBytes text).range? (((ofBytes text).lineColumn offset).1 + 1) = some (start, stop) ∧
        start ≤ offset ∧ offset ≤ stop) ∧
    (∀ offset, text[offset]? = some Byte.lineFeed → ∃ start,
      (ofBytes text).range? (((ofBytes text).lineColumn offset).1 + 1) = some (start, offset)) ∧
    ∀ offset, ((ofBytes text).lineColumn offset).1 = ((ofBytes text).search offset).line :=
  ⟨exists_lineColumn text, strictMono_lineColumn text, injective_lineColumn text,
    fun _ => exists_range?_of_le, fun _ => exists_range?_of_lineFeed, lineOf_eq_search text⟩

/-- The second line is empty, and its line feed belongs to it. The third has no line feed, and the
end of the text and what is past it belong to it. -/
theorem lineColumn_exact_empty_line :
    let text : Bytes := [0x61, Byte.lineFeed, Byte.lineFeed, 0x62]
    text[2]? = some Byte.lineFeed ∧ (∃ start, (ofBytes text).range? 2 = some (start, 2)) ∧
      4 ≤ text.length ∧
      (∃ start stop, (ofBytes text).range? 3 = some (start, stop) ∧ start ≤ 4 ∧ 4 ≤ stop) ∧
      (ofBytes text).lineColumn 9 = (2, 6) := by
  intro text
  obtain ⟨-, -, -, hinside, hfeed, -⟩ := lineColumn_exact text
  exact ⟨rfl, hfeed 2 rfl, Nat.le_refl 4, hinside 4 (Nat.le_refl 4), rfl⟩

end CommandScript.LineIndex
