import CommandScript.Proofs.Lines
import CommandScript.Text.Utf8

/-!
The lossy reading of a text keeps its lines. A line feed breaks any sequence it stands in and comes
out of the scan as itself, and nothing else does, because a sequence of several bytes never spells
an ASCII character.
-/

namespace CommandScript

namespace Utf8

/-- A sequence goes on with continuation bytes only, and no ASCII character comes of it. The first
of three or more bytes may give no bits, as then the second one does. -/
def State.IsLong : State → Prop
  | .ready => True
  | .within bits low high more =>
    0x80 ≤ low.toNat ∧ high.toNat ≤ 0xbf ∧
      (2 ≤ bits ∨ 0 < more ∧ 2 ≤ bits * 64 + low.toNat % 64)

theorem State.isLong_ready : State.ready.IsLong :=
  trivial

variable {state : State} {b : UInt8} {line : Bytes}

theorem toNat_bounds {low b high : UInt8} :
    (low ≤ b && b ≤ high) = true ↔ low.toNat ≤ b.toNat ∧ b.toNat ≤ high.toNat := by
  simp [UInt8.le_iff_toNat_le]

theorem isLong_start (b : UInt8) : (start b).2.IsLong := by
  unfold start
  split
  · trivial
  split
  · rename_i hb
    have hlead : 0xc2 ≤ b.toNat := (toNat_bounds.mp hb).1
    exact ⟨by decide, by decide, by omega⟩
  split
  · exact ⟨by decide, by decide, by decide⟩
  split
  · exact ⟨by decide, by decide, by decide⟩
  split
  · rename_i hb
    have hlead : 0xe1 ≤ b.toNat := (toNat_bounds.mp hb).1
    exact ⟨by decide, by decide, by omega⟩
  split
  · exact ⟨by decide, by decide, by decide⟩
  split
  · rename_i hb
    have hlead : 0xf1 ≤ b.toNat := (toNat_bounds.mp hb).1
    exact ⟨by decide, by decide, by omega⟩
  split
  · exact ⟨by decide, by decide, by decide⟩
  · trivial

theorem isLong_step (h : state.IsLong) (b : UInt8) : (step state b).2.IsLong := by
  cases state with
  | ready => exact isLong_start b
  | within bits low high more =>
      rw [step]
      split
      · rename_i hb
        obtain ⟨hlow, hhigh, hbits⟩ := h
        obtain ⟨hle, hge⟩ := toNat_bounds.mp hb
        cases more with
        | zero => trivial
        | succ more => exact ⟨by decide, by decide, by omega⟩
      · exact isLong_start b

theorem scanFrom_cons (state : State) (b : UInt8) (rest : Bytes) :
    scanFrom state (b :: rest) = (step state b).1 ++ scanFrom (step state b).2 rest := by
  cases state <;> rfl

theorem eq_of_ofNat_eq_newline {n : Nat} (h : Char.ofNat n = '\n') : n = 10 := by
  by_cases hvalid : n.isValidChar
  · rw [Char.ofNat, dif_pos hvalid] at h
    exact congrArg Char.toNat h
  · rw [Char.ofNat, dif_neg hvalid] at h
    cases h

theorem newline_notMem_start (hb : b ≠ Byte.lineFeed) : some '\n' ∉ (start b).1 := by
  unfold start
  split
  · intro hmem
    have hnewline : Char.ofNat b.toNat = '\n' := by simpa [eq_comm] using hmem
    exact hb (UInt8.toNat_inj.mp (eq_of_ofNat_eq_newline hnewline))
  iterate 7
    split
    · exact List.not_mem_nil
  · simp

theorem newline_notMem_step (h : state.IsLong) (hb : b ≠ Byte.lineFeed) :
    some '\n' ∉ (step state b).1 := by
  cases state with
  | ready => exact newline_notMem_start hb
  | within bits low high more =>
      rw [step]
      split
      · rename_i hbounds
        obtain ⟨hlow, hhigh, hbits⟩ := h
        obtain ⟨hle, hge⟩ := toNat_bounds.mp hbounds
        cases more with
        | zero =>
            intro hmem
            have hnewline : Char.ofNat (bits * 64 + b.toNat % 64) = '\n' := by
              simpa [eq_comm] using hmem
            have hcode := eq_of_ofNat_eq_newline hnewline
            omega
        | succ more => exact List.not_mem_nil
      · simpa using newline_notMem_start hb

/-- A line feed ends whatever came before it and is read as itself. -/
theorem scanFrom_append (h : state.IsLong) (line rest : Bytes) :
    scanFrom state (line ++ Byte.lineFeed :: rest) =
      scanFrom state line ++ some '\n' :: scan rest := by
  induction line generalizing state with
  | nil =>
      cases state with
      | ready => rfl
      | within bits low high more =>
          have hbreaks : (low ≤ Byte.lineFeed && Byte.lineFeed ≤ high) = false := by
            rw [Bool.eq_false_iff, ne_eq, toNat_bounds]
            have hlow := h.1
            have hcode : Byte.lineFeed.toNat = 10 := rfl
            omega
          rw [List.nil_append, scanFrom_cons, step, hbreaks]
          rfl
  | cons b line ih =>
      rw [List.cons_append, scanFrom_cons, scanFrom_cons, ih (isLong_step h b), List.append_assoc]

theorem newline_notMem_scanFrom (h : state.IsLong) (hline : Byte.lineFeed ∉ line) :
    some '\n' ∉ scanFrom state line := by
  induction line generalizing state with
  | nil => cases state <;> simp [scanFrom]
  | cons b line ih =>
      have hb : b ≠ Byte.lineFeed := (List.ne_of_not_mem_cons hline).symm
      rw [scanFrom_cons, List.mem_append, not_or]
      exact ⟨newline_notMem_step h hb, ih (isLong_step h b) (List.not_mem_of_not_mem_cons hline)⟩

theorem lineFeed_ne_ofNat {n : Nat} (hlow : 0x80 ≤ n) (hhigh : n < 0x100) :
    Byte.lineFeed ≠ UInt8.ofNat n := by
  intro h
  have hcode : 10 = (UInt8.ofNat n).toNat := congrArg UInt8.toNat h
  rw [UInt8.toNat_ofNat_of_lt' hhigh] at hcode
  omega

/-- Only the newline has a line feed in its UTF-8 form. -/
theorem eq_of_lineFeed_mem {c : Char} (h : Byte.lineFeed ∈ String.utf8EncodeChar c) : c = '\n' := by
  unfold String.utf8EncodeChar at h
  dsimp only at h
  split at h
  · rename_i hascii
    have hcode := congrArg UInt8.toNat (List.mem_singleton.mp h)
    rw [UInt8.toNat_ofNat_of_lt' (Nat.lt_of_le_of_lt hascii (by decide))] at hcode
    exact Char.toNat_inj.mp hcode.symm
  -- Every byte of a longer form is above ASCII.
  split at h
  · simp only [List.mem_cons, List.not_mem_nil, or_false] at h
    rcases h with h | h
    all_goals exact absurd h (lineFeed_ne_ofNat (by omega) (by omega))
  split at h
  · simp only [List.mem_cons, List.not_mem_nil, or_false] at h
    rcases h with h | h | h
    all_goals exact absurd h (lineFeed_ne_ofNat (by omega) (by omega))
  · simp only [List.mem_cons, List.not_mem_nil, or_false] at h
    rcases h with h | h | h | h
    all_goals exact absurd h (lineFeed_ne_ofNat (by omega) (by omega))

end Utf8

theorem Bytes.ofString_ofList (chars : List Char) :
    ofString (String.ofList chars) = chars.flatMap String.utf8EncodeChar := by
  rw [ofString, String.toByteArray_ofList, List.utf8Encode, List.data_toByteArray]

/-- The UTF-8 form of the lossy reading. -/
def Bytes.lossy (text : Bytes) : Bytes :=
  ofString (Utf8.lossy text)

namespace Bytes

variable {line rest : Bytes}

theorem lossy_eq (text : Bytes) :
    text.lossy =
      (Utf8.scan text).flatMap fun item => String.utf8EncodeChar (item.getD '\uFFFD') := by
  rw [lossy, Utf8.lossy, ofString_ofList, List.flatMap_map]

theorem lossy_line (line rest : Bytes) :
    lossy (line ++ Byte.lineFeed :: rest) = line.lossy ++ Byte.lineFeed :: rest.lossy := by
  rw [lossy_eq, lossy_eq, lossy_eq, Utf8.scan, Utf8.scanFrom_append Utf8.State.isLong_ready,
    List.flatMap_append]
  rfl

theorem lineFeed_notMem_lossy (hline : Byte.lineFeed ∉ line) : Byte.lineFeed ∉ line.lossy := by
  rw [lossy_eq, List.mem_flatMap]
  rintro ⟨item, hitem, hmem⟩
  have hchar := Utf8.eq_of_lineFeed_mem hmem
  cases item with
  | none => cases hchar
  | some c =>
      obtain rfl : c = '\n' := hchar
      exact Utf8.newline_notMem_scanFrom Utf8.State.isLong_ready hline hitem

/-- The lines of the lossy text are the lossy texts of the lines. -/
theorem splitOn_lossy (text : Bytes) :
    text.lossy.splitOn Byte.lineFeed = (text.splitOn Byte.lineFeed).map lossy := by
  induction text using line_induction with
  | last line hline =>
      rw [List.splitOn_eq_singleton hline, List.splitOn_eq_singleton (lineFeed_notMem_lossy hline)]
      rfl
  | cons line rest hline ih =>
      rw [lossy_line, List.splitOn_append_cons_self_of_not_mem (lineFeed_notMem_lossy hline),
        List.splitOn_append_cons_self_of_not_mem hline, ih]
      rfl

theorem lineText?_lossy (text : Bytes) (number : Nat) :
    text.lossy.lineText? number = (text.lineText? number).map lossy := by
  cases number with
  | zero => rfl
  | succ n => rw [lineText?_eq, lineText?_eq, splitOn_lossy, List.getElem?_map]

theorem lineCount_lossy (text : Bytes) :
    (LineIndex.ofBytes text.lossy).lineCount = (LineIndex.ofBytes text).lineCount := by
  rw [LineIndex.lineCount_ofBytes, LineIndex.lineCount_ofBytes]
  induction text using line_induction with
  | last line hline =>
      rw [List.count_eq_zero.mpr hline, List.count_eq_zero.mpr (lineFeed_notMem_lossy hline)]
  | cons line rest hline ih =>
      rw [lossy_line, List.count_append, List.count_append, List.count_cons_self,
        List.count_cons_self, List.count_eq_zero.mpr hline,
        List.count_eq_zero.mpr (lineFeed_notMem_lossy hline)]
      omega

end Bytes

end CommandScript
