import CommandScript.Proofs.Overwriting

/-!
Diagnostics that go from record to record. Each record in a row takes over the one before it, and
each clips the message to its own capacity. What the last one holds is what the one with the
smallest capacity would have taken over alone, wherever in the row that one stands. Code and
position always arrive, and so do the severity and the payload of an error.
-/

namespace CommandScript

/-- The smallest of some numbers does not depend on their order. -/
theorem min?_of_perm {xs ys : List Nat} (h : xs.Perm ys) : xs.min? = ys.min? := by
  cases hys : ys.min? with
  | none =>
      obtain rfl := List.min?_eq_none_iff.mp hys
      rw [h.eq_nil, List.min?_nil]
  | some smallest =>
      obtain ⟨hmem, hle⟩ := List.min?_eq_some_iff.mp hys
      apply List.min?_eq_some_iff.mpr
      exact ⟨h.mem_iff.mpr hmem, fun n hn => hle n (h.mem_iff.mp hn)⟩

namespace Diagnostic

variable {π : Type}

/-- The last of the records, once the first has taken over the diagnostic and each other one the
record before it. Without any record the diagnostic stays where it is. -/
def relay (d : Diagnostic π) (records : List (Diagnostic π)) : Diagnostic π :=
  records.foldl (fun taken record => record.absorb taken) d

/-- The record holds what so many bytes of message leave of the diagnostic. Only an error comes with
its severity and its payload. -/
structure Carries (room : Nat) (d record : Diagnostic π) : Prop where
  code : record.code = d.code
  pos : record.pos = d.pos
  message : IsClip room d.message record.message
  severity : record.severity = if d.code = .noError then .info else d.severity
  payload : record.payload = if d.code = .noError then none else d.payload

variable {d record : Diagnostic π} {room : Nat}

/-! ### One record -/

theorem capacity_absorb (d other : Diagnostic π) : (d.absorb other).capacity = d.capacity := by
  rw [absorb_eq]

/-- Whatever a record held before, it carries what it takes over. -/
theorem carries_absorb (d other : Diagnostic π) : Carries d.capacity other (d.absorb other) := by
  obtain ⟨hseverity, hpos, hpayload⟩ := absorb_of_code d other
  refine ⟨?_, hpos, ?_, hseverity, hpayload⟩
  · rw [absorb_eq]
  · have hjoin : String.join [other.message] = other.message := by
      rw [String.join_cons, String.join_nil, String.append_empty]
    rw [message_absorb, BoundedText.ofPieces_eq_clip, hjoin]
    exact isClip_clip d.capacity other.message

theorem Carries.trans {next : Diagnostic π} {further : Nat} (h : Carries room d record)
    (hnext : Carries further record next) : Carries (min room further) d next where
  code := hnext.code.trans h.code
  pos := hnext.pos.trans h.pos
  message := h.message.trans hnext.message
  severity := by
    rw [hnext.severity, h.severity, h.code]
    split <;> rfl
  payload := by
    rw [hnext.payload, h.payload, h.code]
    split <;> rfl

theorem Carries.eq_of_error (h : Carries room d record) (hcode : d.code ≠ .noError) :
    record.severity = d.severity ∧ record.payload = d.payload := by
  rw [h.severity, h.payload, if_neg hcode, if_neg hcode]
  exact ⟨rfl, rfl⟩

theorem Carries.eq_of_noError (h : Carries room d record) (hcode : d.code = .noError) :
    record.severity = .info ∧ record.payload = none := by
  rw [h.severity, h.payload, if_pos hcode, if_pos hcode]
  exact ⟨rfl, rfl⟩

/-- Two records that carry the same under the same room differ at most in their capacities. -/
theorem Carries.agrees {other : Diagnostic π} (h : Carries room d record)
    (hother : Carries room d other) : record.Agrees other ∧ record.payload = other.payload := by
  refine ⟨⟨?_, ?_, ?_, ?_⟩, ?_⟩
  · rw [h.code, hother.code]
  · rw [h.severity, hother.severity]
  · rw [h.pos, hother.pos]
  · exact h.message.unique hother.message
  · rw [h.payload, hother.payload]

/-! ### Records in a row -/

/-- Each further record lowers the room to its capacity, if that is smaller. -/
theorem Carries.relay (h : Carries room d record) (records : List (Diagnostic π)) :
    Carries ((records.map (·.capacity)).foldl min room) d (record.relay records) := by
  induction records generalizing room record with
  | nil => exact h
  | cons next records ih =>
      rw [List.map_cons, List.foldl_cons]
      exact ih (h.trans (carries_absorb next record))

theorem exists_carries_relay (d : Diagnostic π) {records : List (Diagnostic π)}
    (hsome : records ≠ []) :
    ∃ room, (records.map (·.capacity)).min? = some room ∧ Carries room d (d.relay records) := by
  cases records with
  | nil => exact absurd rfl hsome
  | cons first records =>
      refine ⟨(records.map (·.capacity)).foldl min first.capacity, ?_, ?_⟩
      · rw [List.map_cons, List.min?_cons']
      · exact (carries_absorb first d).relay records

theorem capacity_relay (d : Diagnostic π) {records : List (Diagnostic π)} (hsome : records ≠ []) :
    (d.relay records).capacity = (records.getLast hsome).capacity := by
  obtain ⟨earlier, last, hlast⟩ := (List.eq_nil_or_concat records).resolve_left hsome
  rw [List.concat_eq_append] at hlast
  subst hlast
  rw [relay, List.foldl_concat, capacity_absorb, List.getLast_concat]

/-- A diagnostic that goes through records in a row, whatever they held before, is clipped once: the
last record has its code, its position and the longest beginning of its message that the smallest
capacity has room for. An error keeps its severity and its payload; a diagnostic of no error arrives
as a note without a payload. Only the capacities count, and not their order. -/
theorem relay_clips_once (d : Diagnostic π) {records : List (Diagnostic π)} (hsome : records ≠ []) :
    (∃ room, (records.map (·.capacity)).min? = some room ∧
      IsClip room d.message (d.relay records).message) ∧
    (d.relay records).code = d.code ∧ (d.relay records).pos = d.pos ∧
    (d.code ≠ .noError →
      (d.relay records).severity = d.severity ∧ (d.relay records).payload = d.payload) ∧
    (d.code = .noError →
      (d.relay records).severity = .info ∧ (d.relay records).payload = none) ∧
    (d.relay records).capacity = (records.getLast hsome).capacity ∧
    ∀ others : List (Diagnostic π), (others.map (·.capacity)).Perm (records.map (·.capacity)) →
      (d.relay others).Agrees (d.relay records) ∧
        (d.relay others).payload = (d.relay records).payload := by
  obtain ⟨room, hroom, hcarries⟩ := exists_carries_relay d hsome
  refine ⟨⟨room, hroom, hcarries.message⟩, hcarries.code, hcarries.pos, hcarries.eq_of_error,
    hcarries.eq_of_noError, capacity_relay d hsome, ?_⟩
  intro others hperm
  have hothers : others ≠ [] := by
    rintro rfl
    exact hsome (List.map_eq_nil_iff.mp hperm.nil_eq.symm)
  obtain ⟨room', hroom', hcarries'⟩ := exists_carries_relay d hothers
  rw [min?_of_perm hperm, hroom] at hroom'
  obtain rfl := Option.some.inj hroom'
  exact hcarries'.agrees hcarries

/-- A message of one, two and three bytes a character goes through capacities 5, 2 and 4. The second
one ends inside of a character, and nothing of the record that came first is left. -/
theorem relay_clips_once_within_character :
    let d : Diagnostic String := ⟨.general, .warning, ⟨"a", 3⟩, "aé€", 9, some "five"⟩
    let records : List (Diagnostic String) :=
      [⟨.unknownCommand, .error, ⟨"b", 7⟩, "old", 5, some "seven"⟩, .withCapacity 2,
        .withCapacity 4]
    records ≠ [] ∧ d.code ≠ .noError ∧ IsClip 2 d.message (d.relay records).message ∧
      (d.relay records).severity = .warning ∧
      d.relay records = ⟨.general, .warning, ⟨"a", 3⟩, "a", 4, some "five"⟩ ∧
      (d.relay records.reverse).Agrees (d.relay records) := by
  intro d records
  have hsome : records ≠ [] := List.cons_ne_nil _ _
  have herror : d.code ≠ .noError := by decide
  obtain ⟨⟨room, hroom, hclip⟩, -, -, hkept, -, -, horder⟩ := relay_clips_once d hsome
  obtain rfl : 2 = room := Option.some.inj hroom
  have hperm : (records.reverse.map (·.capacity)).Perm (records.map (·.capacity)) :=
    (List.reverse_perm records).map _
  have hrecord : d.relay records = ⟨.general, .warning, ⟨"a", 3⟩, "a", 4, some "five"⟩ := by
    decide +kernel
  exact ⟨hsome, herror, hclip, (hkept herror).1, hrecord, (horder _ hperm).1⟩

end Diagnostic

end CommandScript
