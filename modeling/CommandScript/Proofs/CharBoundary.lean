import CommandScript.Proofs.BoundedText
import CommandScript.Proofs.LossyText

/-!
Where bounded text is cut. In the UTF-8 form of a text the places between characters can be told
from one byte each, so the last of them within the capacity is found by going back from there. The
search always ends, at the latest before the first byte, and what it leaves of a text is the longest
beginning that fits.
-/

namespace CommandScript

theorem Bytes.ofString_append (a b : String) : ofString (a ++ b) = ofString a ++ ofString b := by
  simp [ofString]

theorem Bytes.length_ofString (text : String) : (ofString text).length = text.utf8ByteSize := by
  simp [ofString]

namespace Utf8

/-- True for a byte that begins a character. Any other one goes on with a character. -/
def beginsChar (b : UInt8) : Bool :=
  b < 0x80 || 0xc0 ≤ b

/-- True for the offsets between characters and for both ends of a text. -/
def isBoundary (bytes : Bytes) (offset : Nat) : Bool :=
  offset == 0 || match bytes[offset]? with
    | some b => beginsChar b
    | none => offset == bytes.length

/-- The first boundary on the way back from an offset. There is no offset to go on to below 0. -/
def boundaryBack? (bytes : Bytes) : Nat → Option Nat
  | 0 => if isBoundary bytes 0 then some 0 else none
  | offset + 1 =>
    if isBoundary bytes (offset + 1) then some (offset + 1) else boundaryBack? bytes offset

/-! ### The search -/

theorem isBoundary_zero (bytes : Bytes) : isBoundary bytes 0 = true := rfl

theorem exists_boundaryBack? (bytes : Bytes) (offset : Nat) :
    ∃ stop, boundaryBack? bytes offset = some stop := by
  induction offset with
  | zero => exact ⟨0, if_pos (isBoundary_zero bytes)⟩
  | succ offset ih =>
      unfold boundaryBack?
      split
      · exact ⟨offset + 1, rfl⟩
      · exact ih

/-- The search finds the last boundary that is not behind its offset. -/
theorem of_boundaryBack? {bytes : Bytes} {offset stop : Nat}
    (h : boundaryBack? bytes offset = some stop) :
    stop ≤ offset ∧ isBoundary bytes stop = true ∧
      ∀ n, n ≤ offset → isBoundary bytes n = true → n ≤ stop := by
  induction offset with
  | zero =>
      rw [boundaryBack?, if_pos (isBoundary_zero bytes)] at h
      obtain rfl := Option.some.inj h
      exact ⟨Nat.le_refl _, isBoundary_zero bytes, fun n hn _ => hn⟩
  | succ offset ih =>
      unfold boundaryBack? at h
      split at h
      · rename_i hboundary
        obtain rfl := Option.some.inj h
        exact ⟨Nat.le_refl _, hboundary, fun n hn _ => hn⟩
      · rename_i hboundary
        obtain ⟨hle, hstop, hlast⟩ := ih h
        refine ⟨Nat.le_succ_of_le hle, hstop, ?_⟩
        intro n hn hat
        rcases Nat.le_succ_iff.mp hn with hn | rfl
        · exact hlast n hn hat
        · exact absurd hat hboundary

/-! ### Boundaries of a text -/

theorem beginsChar_ofNat {n : Nat} (h : n < 0x100) :
    beginsChar (UInt8.ofNat n) = true ↔ n < 0x80 ∨ 0xc0 ≤ n := by
  simp [beginsChar, UInt8.lt_iff_toNat_lt, UInt8.le_iff_toNat_le, UInt8.toNat_ofNat_of_lt' h]

/-- The first byte of a character begins it, and no other does. -/
theorem exists_utf8EncodeChar (c : Char) :
    ∃ first rest, String.utf8EncodeChar c = first :: rest ∧ beginsChar first = true ∧
      ∀ b ∈ rest, beginsChar b = false := by
  have hmore {n : Nat} (hlow : 0x80 ≤ n) (hhigh : n < 0xc0) :
      beginsChar (UInt8.ofNat n) = false := by
    rw [Bool.eq_false_iff, ne_eq, beginsChar_ofNat (by omega)]
    omega
  unfold String.utf8EncodeChar
  dsimp only
  split
  · refine ⟨_, _, rfl, (beginsChar_ofNat (by omega)).mpr (by omega), by simp⟩
  split
  · refine ⟨_, _, rfl, (beginsChar_ofNat (by omega)).mpr (by omega), ?_⟩
    simp only [List.mem_cons, List.not_mem_nil, or_false, forall_eq]
    exact hmore (by omega) (by omega)
  split
  · refine ⟨_, _, rfl, (beginsChar_ofNat (by omega)).mpr (by omega), ?_⟩
    simp only [List.mem_cons, List.not_mem_nil, or_false, forall_eq_or_imp, forall_eq]
    exact ⟨hmore (by omega) (by omega), hmore (by omega) (by omega)⟩
  · refine ⟨_, _, rfl, (beginsChar_ofNat (by omega)).mpr (by omega), ?_⟩
    simp only [List.mem_cons, List.not_mem_nil, or_false, forall_eq_or_imp, forall_eq]
    exact ⟨hmore (by omega) (by omega), hmore (by omega) (by omega), hmore (by omega) (by omega)⟩

/-- Behind other bytes, a text that begins with a character has the same boundaries. -/
theorem isBoundary_append {bytes : Bytes} (taken : Bytes)
    (hhead : ∀ b ∈ bytes.head?, beginsChar b = true) (offset : Nat) :
    isBoundary (taken ++ bytes) (taken.length + offset) = isBoundary bytes offset := by
  have hbyte : (taken ++ bytes)[taken.length + offset]? = bytes[offset]? := by
    rw [List.getElem?_append_right (Nat.le_add_right ..), Nat.add_sub_cancel_left]
  unfold isBoundary
  rw [hbyte, List.length_append]
  cases offset with
  | zero =>
      cases bytes with
      | nil => simp
      | cons b rest => simpa using Or.inr (hhead b rfl)
  | succ offset =>
      cases bytes[offset + 1]? with
      | none =>
          rw [Bool.eq_iff_iff]
          simp only [Bool.or_eq_true, beq_iff_eq]
          omega
      | some b => simp

theorem not_isBoundary_of_lt {c : Char} {offset : Nat} (hpositive : offset ≠ 0)
    (hlt : offset < c.utf8Size) (bytes : Bytes) :
    isBoundary (String.utf8EncodeChar c ++ bytes) offset = false := by
  obtain ⟨first, rest, hchar, -, hrest⟩ := exists_utf8EncodeChar c
  obtain ⟨i, rfl⟩ := Nat.exists_eq_succ_of_ne_zero hpositive
  rw [← String.length_utf8EncodeChar, hchar] at hlt
  have hi : i < rest.length := Nat.lt_of_succ_lt_succ hlt
  have hbyte : (String.utf8EncodeChar c ++ bytes)[i + 1]? = some rest[i] := by
    rw [hchar, List.cons_append, List.getElem?_cons_succ, List.getElem?_append_left hi,
      List.getElem?_eq_getElem hi]
  simp [isBoundary, hbyte, hrest _ (List.getElem_mem hi)]

theorem beginsChar_head? (chars : List Char) :
    ∀ b ∈ (chars.flatMap String.utf8EncodeChar).head?, beginsChar b = true := by
  cases chars with
  | nil => simp
  | cons c chars =>
      obtain ⟨first, rest, hchar, hfirst, -⟩ := exists_utf8EncodeChar c
      simpa [hchar] using hfirst

/-- The boundaries of characters in a row are the places behind the first so many of them. -/
theorem isBoundary_flatMap_iff {chars : List Char} {offset : Nat} :
    isBoundary (chars.flatMap String.utf8EncodeChar) offset = true ↔
      ∃ before after, chars = before ++ after ∧ offset = String.utf8Len before := by
  induction chars generalizing offset with
  | nil => simp [isBoundary]
  | cons c chars ih =>
      rw [List.flatMap_cons]
      by_cases hzero : offset = 0
      · subst hzero
        exact ⟨fun _ => ⟨[], c :: chars, rfl, rfl⟩, fun _ => isBoundary_zero _⟩
      by_cases hlt : offset < c.utf8Size
      · -- Inside of the first character there is no boundary.
        rw [not_isBoundary_of_lt hzero hlt]
        constructor
        · intro h
          cases h
        · rintro ⟨before, after, hchars, rfl⟩
          cases before with
          | nil => exact absurd rfl hzero
          | cons d before =>
              obtain ⟨rfl, -⟩ := List.cons.inj hchars
              rw [String.utf8Len_cons] at hlt
              omega
      · obtain ⟨more, rfl⟩ := Nat.exists_eq_add_of_le (Nat.le_of_not_lt hlt)
        have hshift := isBoundary_append (String.utf8EncodeChar c) (beginsChar_head? chars) more
        rw [String.length_utf8EncodeChar] at hshift
        rw [hshift, ih]
        constructor
        · rintro ⟨before, after, rfl, rfl⟩
          exact ⟨c :: before, after, rfl, by rw [String.utf8Len_cons, Nat.add_comm]⟩
        · rintro ⟨before, after, hchars, hlength⟩
          cases before with
          | nil => exact absurd hlength hzero
          | cons d before =>
              obtain ⟨rfl, hrest⟩ := List.cons.inj hchars
              rw [String.utf8Len_cons] at hlength
              exact ⟨before, after, hrest, by omega⟩

/-- The boundaries of a text are the ends of its beginnings. -/
theorem isBoundary_ofString_iff {text : String} {offset : Nat} :
    isBoundary (Bytes.ofString text) offset = true ↔ String.Pos.Raw.IsValid text ⟨offset⟩ := by
  have hbytes : Bytes.ofString text = text.toList.flatMap String.utf8EncodeChar := by
    rw [← Bytes.ofString_ofList, String.ofList_toList]
  rw [hbytes, isBoundary_flatMap_iff, String.Pos.Raw.isValid_iff_exists_append]
  constructor
  · rintro ⟨before, after, hchars, rfl⟩
    refine ⟨String.ofList before, String.ofList after, ?_, ?_⟩
    · rw [← String.ofList_append, ← hchars, String.ofList_toList]
    · exact congrArg String.Pos.Raw.mk (String.utf8ByteSize_ofList before).symm
  · rintro ⟨before, after, rfl, hoffset⟩
    refine ⟨before.toList, after.toList, String.toList_append, ?_⟩
    rw [String.utf8Len_toList]
    exact congrArg String.Pos.Raw.byteIdx hoffset

end Utf8

/-! ### Cutting at a boundary -/

/-- The offset is the last boundary of the text that is within so many bytes. -/
structure IsLastBoundary (room : Nat) (text : String) (stop : Nat) : Prop where
  boundary : String.Pos.Raw.IsValid text ⟨stop⟩
  within : stop ≤ room
  last : ∀ n, n ≤ room → String.Pos.Raw.IsValid text ⟨n⟩ → n ≤ stop

theorem IsLastBoundary.unique {room : Nat} {text : String} {stop other : Nat}
    (h : IsLastBoundary room text stop) (hother : IsLastBoundary room text other) :
    stop = other :=
  Nat.le_antisymm (hother.last stop h.within h.boundary)
    (h.last other hother.within hother.boundary)

theorem isLastBoundary_of_boundaryBack? {room : Nat} {text : String} {stop : Nat}
    (h : Utf8.boundaryBack? (Bytes.ofString text) room = some stop) :
    IsLastBoundary room text stop := by
  obtain ⟨hle, hboundary, hlast⟩ := Utf8.of_boundaryBack? h
  refine ⟨Utf8.isBoundary_ofString_iff.mp hboundary, hle, ?_⟩
  intro n hn hvalid
  exact hlast n hn (Utf8.isBoundary_ofString_iff.mpr hvalid)

/-- What fits of a text ends at its last boundary within the room. -/
theorem IsClip.isLastBoundary {room : Nat} {text part : String} (h : IsClip room text part) :
    IsLastBoundary room text part.utf8ByteSize ∧
      Bytes.ofString part = (Bytes.ofString text).take part.utf8ByteSize := by
  obtain ⟨rest, hrest⟩ := h.begins
  have htext : text = part ++ String.ofList rest := by
    rw [← String.toList_inj, String.toList_append, String.toList_ofList, hrest]
  refine ⟨⟨?_, h.fits, ?_⟩, ?_⟩
  · exact String.Pos.Raw.isValid_iff_exists_append.mpr ⟨part, _, htext, rfl⟩
  · intro n hn hvalid
    obtain ⟨before, after, hsplit, hend⟩ := String.Pos.Raw.isValid_iff_exists_append.mp hvalid
    obtain rfl : n = before.utf8ByteSize := congrArg String.Pos.Raw.byteIdx hend
    have hbegins : before.toList <+: text.toList := by
      rw [hsplit, String.toList_append]
      exact List.prefix_append ..
    obtain ⟨more, hmore⟩ := h.longest before hbegins hn
    have hpart : part = before ++ String.ofList more := by
      rw [← String.toList_inj, String.toList_append, String.toList_ofList, hmore]
    rw [hpart, String.utf8ByteSize_append]
    omega
  · rw [htext, Bytes.ofString_append, ← Bytes.length_ofString, List.take_left]

/-- The search from the end of the room finds where a text is clipped. -/
theorem boundaryBack?_clip (room : Nat) (text : String) :
    ∃ stop, Utf8.boundaryBack? (Bytes.ofString text) room = some stop ∧
      IsLastBoundary room text stop ∧
      Bytes.ofString (clip room text) = (Bytes.ofString text).take stop := by
  obtain ⟨stop, hstop⟩ := Utf8.exists_boundaryBack? (Bytes.ofString text) room
  have hlast := isLastBoundary_of_boundaryBack? hstop
  obtain ⟨hclip, hbytes⟩ := (isClip_clip room text).isLastBoundary
  exact ⟨stop, hstop, hlast, hlast.unique hclip ▸ hbytes⟩

/-- A piece that does not fit is cut where the search from the end of the room stops. -/
theorem BoundedText.write_of_lt {t : BoundedText} {piece : String} (hfull : t.full = false)
    (hlong : t.room < piece.utf8ByteSize) :
    ∃ stop, Utf8.boundaryBack? (Bytes.ofString piece) t.room = some stop ∧
      Bytes.ofString (t.write piece).text =
        Bytes.ofString t.text ++ (Bytes.ofString piece).take stop ∧
      (t.write piece).full = true := by
  obtain ⟨stop, hstop, -, hbytes⟩ := boundaryBack?_clip t.room piece
  have hwrite : t.write piece = { t with text := t.text ++ clip t.room piece, full := true } := by
    rw [write, hfull, if_neg Bool.false_ne_true, if_neg (Nat.not_le_of_lt hlong)]
  refine ⟨stop, hstop, ?_, ?_⟩
  · rw [hwrite, Bytes.ofString_append, hbytes]
  · rw [hwrite]

namespace Diagnostic

variable {π : Type}

theorem message_report (d : Diagnostic π) (code : Code) (pos : Position) (pieces : List String) :
    (d.report code pos pieces).message = clip d.capacity (String.join pieces) :=
  BoundedText.ofPieces_eq_clip d.capacity pieces

/-- The message of a report is the text of all its pieces in a row up to the last boundary within
the capacity, which is where the way back from the capacity first meets one. So it does not matter
what the record held before and how the text is divided, and nothing is written behind a piece that
was cut. Each piece that does not fit is cut in this way, and the way back never ends without a
boundary. -/
theorem message_report_cut (d : Diagnostic π) (code : Code) (pos : Position)
    (pieces : List String) :
    (∃ stop, Utf8.boundaryBack? (Bytes.ofString (String.join pieces)) d.capacity = some stop ∧
      IsLastBoundary d.capacity (String.join pieces) stop ∧
      Bytes.ofString (d.report code pos pieces).message =
        (Bytes.ofString (String.join pieces)).take stop) ∧
    (∀ (other : Diagnostic π) (code' : Code) (pos' : Position) (pieces' : List String),
      other.capacity = d.capacity → String.join pieces' = String.join pieces →
        (other.report code' pos' pieces').message = (d.report code pos pieces).message) ∧
    (∀ before piece after, pieces = before ++ piece :: after →
      d.capacity < (String.join (before ++ [piece])).utf8ByteSize →
        (d.report code pos pieces).message = (d.report code pos (before ++ [piece])).message) ∧
    ∀ (t : BoundedText) (piece : String), t.full = false → t.room < piece.utf8ByteSize →
      ∃ stop, Utf8.boundaryBack? (Bytes.ofString piece) t.room = some stop ∧
        Bytes.ofString (t.write piece).text =
          Bytes.ofString t.text ++ (Bytes.ofString piece).take stop ∧
        (t.write piece).full = true := by
  refine ⟨?_, ?_, ?_, fun t piece => BoundedText.write_of_lt⟩
  · rw [message_report]
    exact boundaryBack?_clip d.capacity (String.join pieces)
  · intro other code' pos' pieces' hcapacity hjoin
    rw [message_report, message_report, hcapacity, hjoin]
  · rintro before piece after rfl hlong
    have hjoin : String.join (before ++ piece :: after) =
        String.join (before ++ [piece]) ++ String.join after := by
      rw [← String.join_append, List.append_assoc, List.singleton_append]
    rw [message_report, message_report, hjoin, clip_append_of_lt hlong]

/-- The capacity ends inside of the second character, and the third would have fitted. -/
example :
    ((withCapacity 2 : Diagnostic).report .general .unknown ["a", "é", "b"]).message = "a" := by
  decide

end Diagnostic

end CommandScript
