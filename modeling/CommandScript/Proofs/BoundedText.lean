import CommandScript.Diagnostic.Record
import Mathlib.Data.String.Basic

/-!
Bounded messages. Text that is written piece by piece is the longest beginning that fits of all
pieces in a row, wherever they end. So it never takes more bytes than its capacity, and neither does
the message of a record, whether the record reports something or takes over another one.
-/

namespace CommandScript

theorem utf8Len_clipChars_le (room : Nat) (chars : List Char) :
    String.utf8Len (clipChars room chars) ≤ room := by
  induction chars generalizing room with
  | nil => exact Nat.zero_le _
  | cons c rest ih =>
      unfold clipChars
      split
      · have hrest := ih (room - c.utf8Size)
        rw [String.utf8Len_cons]
        omega
      · exact Nat.zero_le _

theorem utf8ByteSize_clip_le (room : Nat) (text : String) :
    (clip room text).utf8ByteSize ≤ room := by
  rw [clip, String.utf8ByteSize_ofList]
  exact utf8Len_clipChars_le room text.toList

/-! ### The longest beginning that fits -/

/-- The part is the longest beginning of the text that takes at most so many bytes. Both are made of
whole characters. -/
structure IsClip (room : Nat) (text part : String) : Prop where
  begins : part.toList <+: text.toList
  fits : part.utf8ByteSize ≤ room
  longest : ∀ other : String, other.toList <+: text.toList → other.utf8ByteSize ≤ room →
    other.toList <+: part.toList

theorem clipChars_append_of_le {room : Nat} {xs : List Char} (h : String.utf8Len xs ≤ room)
    (ys : List Char) :
    clipChars room (xs ++ ys) = xs ++ clipChars (room - String.utf8Len xs) ys := by
  induction xs generalizing room with
  | nil => rfl
  | cons c xs ih =>
      rw [String.utf8Len_cons] at h ⊢
      rw [List.cons_append, clipChars, if_pos (by omega), ih (by omega), List.cons_append,
        Nat.sub_sub, Nat.add_comm]

theorem clipChars_append_of_lt {room : Nat} {xs : List Char} (h : room < String.utf8Len xs)
    (ys : List Char) : clipChars room (xs ++ ys) = clipChars room xs := by
  induction xs generalizing room with
  | nil => exact absurd h (Nat.not_lt_zero _)
  | cons c xs ih =>
      rw [String.utf8Len_cons] at h
      rw [List.cons_append, clipChars, clipChars]
      split
      · rw [ih (by omega)]
      · rfl

theorem clipChars_begins (room : Nat) (chars : List Char) : clipChars room chars <+: chars := by
  induction chars generalizing room with
  | nil => exact List.prefix_rfl
  | cons c chars ih =>
      rw [clipChars]
      split
      · exact (List.prefix_cons_inj c).mpr (ih _)
      · exact List.nil_prefix

theorem isClip_clip (room : Nat) (text : String) : IsClip room text (clip room text) where
  begins := by
    rw [clip, String.toList_ofList]
    exact clipChars_begins room text.toList
  fits := utf8ByteSize_clip_le room text
  longest := by
    rintro other ⟨rest, hrest⟩ hfits
    rw [clip, String.toList_ofList, ← hrest,
      clipChars_append_of_le (by rwa [String.utf8Len_toList])]
    exact List.prefix_append ..

/-- What fits into less room is the same for a text and for what fits into more. -/
theorem IsClip.of_le {room roomier : Nat} {text part whole : String} (h : IsClip room text part)
    (hle : room ≤ roomier) (hwhole : IsClip roomier text whole) : IsClip room whole part where
  begins := hwhole.longest part h.begins (Nat.le_trans h.fits hle)
  fits := h.fits
  longest := by
    intro other hbegins hfits
    exact h.longest other (hbegins.trans hwhole.begins) hfits

/-- What fits into some room of what fits into another is what fits into the smaller of them. -/
theorem IsClip.trans {room further : Nat} {text part piece : String} (h : IsClip room text part)
    (hpiece : IsClip further part piece) : IsClip (min room further) text piece where
  begins := hpiece.begins.trans h.begins
  fits := by
    obtain ⟨rest, hrest⟩ := hpiece.begins
    have hsize : part.utf8ByteSize = piece.utf8ByteSize + String.utf8Len rest := by
      rw [← String.utf8Len_toList, ← hrest, String.utf8Len_append, String.utf8Len_toList]
    have hpart := h.fits
    have hfits := hpiece.fits
    omega
  longest := by
    intro other hbegins hfits
    obtain ⟨hroom, hfurther⟩ := Nat.le_min.mp hfits
    apply hpiece.longest other _ hfurther
    exact h.longest other hbegins hroom

theorem IsClip.unique {room : Nat} {text part other : String} (h : IsClip room text part)
    (hother : IsClip room text other) : part = other := by
  have hpart := hother.longest part h.begins h.fits
  have hback := h.longest other hother.begins hother.fits
  apply String.toList_inj.mp
  exact hpart.eq_of_length_le hback.length_le

theorem clip_append_of_le {room : Nat} {text : String} (h : text.utf8ByteSize ≤ room)
    (more : String) : clip room (text ++ more) = text ++ clip (room - text.utf8ByteSize) more := by
  have hlen : String.utf8Len text.toList ≤ room := by rwa [String.utf8Len_toList]
  rw [clip, String.toList_append, clipChars_append_of_le hlen, String.utf8Len_toList,
    String.ofList_append, String.ofList_toList, clip]

theorem clip_append_of_lt {room : Nat} {text : String} (h : room < text.utf8ByteSize)
    (more : String) : clip room (text ++ more) = clip room text := by
  have hlen : room < String.utf8Len text.toList := by rwa [String.utf8Len_toList]
  rw [clip, String.toList_append, clipChars_append_of_lt hlen, clip]

theorem clip_of_le {room : Nat} {text : String} (h : text.utf8ByteSize ≤ room) :
    clip room text = text := by
  have hclip := clip_append_of_le h ""
  rwa [String.append_empty, show clip (room - text.utf8ByteSize) "" = "" from rfl,
    String.append_empty] at hclip

namespace BoundedText

variable {t : BoundedText}

@[simp] theorem capacity_write (t : BoundedText) (piece : String) :
    (t.write piece).capacity = t.capacity := by
  unfold write
  split
  · rfl
  · split <;> rfl

/-- The text is what fits of all that was written, and it is full when not all of that fits. -/
structure Holds (t : BoundedText) (written : String) : Prop where
  text_eq : t.text = clip t.capacity written
  full_iff : t.full = true ↔ t.capacity < written.utf8ByteSize

theorem Holds.write {written : String} (h : t.Holds written) (piece : String) :
    (t.write piece).Holds (written ++ piece) := by
  have hsize : (written ++ piece).utf8ByteSize = written.utf8ByteSize + piece.utf8ByteSize :=
    String.utf8ByteSize_append
  unfold BoundedText.write
  split
  · rename_i hfull
    have hlt := h.full_iff.mp hfull
    exact ⟨by rw [clip_append_of_lt hlt, h.text_eq], by simp only [hfull, true_iff]; omega⟩
  rename_i hfull
  have hle : written.utf8ByteSize ≤ t.capacity := Nat.le_of_not_lt (mt h.full_iff.mpr hfull)
  have htext : t.text = written := h.text_eq.trans (clip_of_le hle)
  rw [room, htext]
  split
  · rename_i hfits
    refine ⟨(clip_of_le ?_).symm, ?_⟩
    · show (written ++ piece).utf8ByteSize ≤ t.capacity
      omega
    · simp only [hfull, Bool.false_eq_true, false_iff]
      omega
  · rename_i hfits
    refine ⟨(clip_append_of_le hle piece).symm, ?_⟩
    simp only [true_iff]
    omega

theorem Holds.foldl_write {written : String} (h : t.Holds written) (pieces : List String) :
    (pieces.foldl BoundedText.write t).Holds (written ++ String.join pieces) := by
  induction pieces generalizing t written with
  | nil =>
      rw [String.join_nil, String.append_empty]
      exact h
  | cons piece pieces ih =>
      rw [String.join_cons, ← String.append_assoc]
      exact ih (h.write piece)

theorem capacity_foldl_write (t : BoundedText) (pieces : List String) :
    (pieces.foldl write t).capacity = t.capacity := by
  induction pieces generalizing t with
  | nil => rfl
  | cons piece pieces ih => rw [List.foldl_cons, ih, capacity_write]

/-- Only the pieces in a row count. -/
theorem ofPieces_eq_clip (capacity : Nat) (pieces : List String) :
    ofPieces capacity pieces = clip capacity (String.join pieces) := by
  have hempty : (empty capacity).Holds "" := ⟨rfl, by simp [empty]⟩
  have htext := (hempty.foldl_write pieces).text_eq
  rwa [capacity_foldl_write, String.empty_append] at htext

theorem isClip_ofPieces {room roomier : Nat} (hle : room ≤ roomier) (pieces : List String) :
    IsClip room (ofPieces roomier pieces) (ofPieces room pieces) := by
  rw [ofPieces_eq_clip, ofPieces_eq_clip]
  exact (isClip_clip room _).of_le hle (isClip_clip roomier _)

theorem utf8ByteSize_ofPieces_le (capacity : Nat) (pieces : List String) :
    (ofPieces capacity pieces).utf8ByteSize ≤ capacity := by
  rw [ofPieces_eq_clip]
  exact utf8ByteSize_clip_le capacity _

end BoundedText

namespace Diagnostic

variable {π : Type}

/-- The message takes no more bytes than that. -/
def Within (capacity : Nat) (d : Diagnostic π) : Prop :=
  d.message.utf8ByteSize ≤ capacity

theorem within_report (d : Diagnostic π) (code : Code) (pos : Position) (pieces : List String) :
    (d.report code pos pieces).Within d.capacity :=
  BoundedText.utf8ByteSize_ofPieces_le d.capacity pieces

theorem message_absorb (d other : Diagnostic π) :
    (d.absorb other).message = BoundedText.ofPieces d.capacity [other.message] := by
  unfold absorb
  dsimp only
  split <;> rfl

theorem within_absorb (d other : Diagnostic π) : (d.absorb other).Within d.capacity := by
  rw [Within, message_absorb]
  exact BoundedText.utf8ByteSize_ofPieces_le d.capacity _

/-- A record that takes over an error says the same, the message apart. -/
theorem absorb_fields (d : Diagnostic π) {other : Diagnostic π} (h : other.isError = true) :
    (d.absorb other).code = other.code ∧ (d.absorb other).severity = other.severity ∧
      (d.absorb other).pos = other.pos ∧ (d.absorb other).payload = other.payload := by
  have htaken : (d.reportWith other.code other.pos other.payload [other.message]).isError = true :=
    h
  rw [absorb, if_pos htaken]
  exact ⟨rfl, rfl, rfl, if_pos h⟩

end Diagnostic

end CommandScript
