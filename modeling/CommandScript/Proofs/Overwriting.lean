import CommandScript.Proofs.RecordHistory

/-!
A report forgets the past. Whether a record reports something, takes over another one or is cleared,
all that it keeps of what it held is its capacity. So two records of one capacity are equal after
the same of these, whatever they have been through, and equal they stay as long as the same is done
to both.
-/

namespace CommandScript

theorem Severity.ofCode_eq (code : Code) :
    Severity.ofCode code = if code = .noError then .info else .error := by
  by_cases hcode : code = .noError
  · rw [if_pos hcode, hcode]
    rfl
  · rw [if_neg hcode, Severity.ofCode, if_pos (Code.isError_iff.mpr hcode)]

namespace Diagnostic

variable {π : Type} {d d' : Diagnostic π}

theorem reportWith_congr (h : d.capacity = d'.capacity) (code : Code) (pos : Position)
    (payload : Option π) (pieces : List String) :
    d.reportWith code pos payload pieces = d'.reportWith code pos payload pieces := by
  rw [reportWith, reportWith, h]

/-- The severity of a record that is taken over is written last, so that of the report before it
does not show. -/
theorem absorb_congr (h : d.capacity = d'.capacity) (other : Diagnostic π) :
    d.absorb other = d'.absorb other := by
  rw [absorb_eq, absorb_eq, h]

theorem clear_congr (h : d.capacity = d'.capacity) : d.clear = d'.clear := by
  rw [clear, clear, h]

/-- What a record with an error brings along, and what is left of one without. -/
theorem absorb_of_code (d other : Diagnostic π) :
    (d.absorb other).severity = (if other.code = .noError then .info else other.severity) ∧
      (d.absorb other).pos = other.pos ∧
      (d.absorb other).payload = if other.code = .noError then none else other.payload := by
  rw [absorb_eq]
  by_cases hcode : other.code = .noError
  · simp [isError_eq_false_iff.mpr hcode, hcode]
  · have herror : other.isError = true := Code.isError_iff.mpr hcode
    simp [herror, hcode]

/-- Of two records of one capacity nothing shows of what they held before, once both report the
same, take over the same record or are cleared. The severity of a report comes from its code. A
record that is taken over brings its own position, and with an error its severity and payload. -/
theorem eq_of_overwritten (hcapacity : d.capacity = d'.capacity) :
    (∀ code pos pieces, d.report code pos pieces = d'.report code pos pieces) ∧
    (∀ code pos payload pieces,
      d.reportWith code pos payload pieces = d'.reportWith code pos payload pieces) ∧
    (∀ other, d.absorb other = d'.absorb other) ∧
    d.clear = d'.clear ∧
    (∀ code pos pieces,
      (d.report code pos pieces).severity = if code = .noError then .info else .error) ∧
    (∀ other, (d.absorb other).severity =
        (if other.code = .noError then .info else other.severity) ∧
      (d.absorb other).pos = other.pos ∧
      (d.absorb other).payload = if other.code = .noError then none else other.payload) :=
  ⟨fun code pos pieces => reportWith_congr hcapacity code pos none pieces,
    reportWith_congr hcapacity, absorb_congr hcapacity, clear_congr hcapacity,
    fun code _ _ => Severity.ofCode_eq code, absorb_of_code d⟩

/-- A warning with a payload and a record that reports nothing, both of capacity 4, take over an
error with a payload. -/
theorem eq_of_overwritten_absorb :
    let d : Diagnostic String := ⟨.deprecatedCommand, .warning, ⟨"a", 7⟩, "old", 4, some "one"⟩
    let d' : Diagnostic String := .withCapacity 4
    d.capacity = d'.capacity ∧ d ≠ d' ∧
      d.absorb ⟨.general, .warning, ⟨"b", 2⟩, "too long", 9, some "two"⟩ =
        d'.absorb ⟨.general, .warning, ⟨"b", 2⟩, "too long", 9, some "two"⟩ ∧
      d'.absorb ⟨.general, .warning, ⟨"b", 2⟩, "too long", 9, some "two"⟩ =
        ⟨.general, .warning, ⟨"b", 2⟩, "too ", 4, some "two"⟩ :=
  ⟨rfl, by decide, (eq_of_overwritten rfl).2.2.1 _, rfl⟩

/-! ### Histories that end alike -/

namespace History

/-- The same was done to both records all along, or since both were overwritten. Up to then their
histories may have nothing in common but the capacity. -/
inductive EndAlike : History π → History π → Prop
  | same (h : History π) : EndAlike h h
  | report {h h' : History π} (hcapacity : h.origin.capacity = h'.origin.capacity) (code : Code)
      (pos : Position) (pieces : List String) :
      EndAlike (.report h code pos pieces) (.report h' code pos pieces)
  | reportWith {h h' : History π} (hcapacity : h.origin.capacity = h'.origin.capacity) (code : Code)
      (pos : Position) (payload : Option π) (pieces : List String) :
      EndAlike (.reportWith h code pos payload pieces) (.reportWith h' code pos payload pieces)
  | absorb {h h' other other' : History π} (hcapacity : h.origin.capacity = h'.origin.capacity)
      (hother : EndAlike other other') : EndAlike (.absorb h other) (.absorb h' other')
  | clear {h h' : History π} (hcapacity : h.origin.capacity = h'.origin.capacity) :
      EndAlike (.clear h) (.clear h')
  | withPayload {h h' : History π} (halike : EndAlike h h') (payload : π) :
      EndAlike (.withPayload h payload) (.withPayload h' payload)
  | takePayload {h h' : History π} (halike : EndAlike h h') :
      EndAlike (.takePayload h) (.takePayload h')

variable {h h' : History π}

theorem capacity_record_congr (hcapacity : h.origin.capacity = h'.origin.capacity) :
    h.record.capacity = h'.record.capacity := by
  rw [capacity_record, capacity_record, hcapacity]

/-- What was done before the last overwriting does not show in a record, however the record was made
and whatever followed. -/
theorem EndAlike.record_eq (halike : EndAlike h h') : h.record = h'.record := by
  induction halike with
  | same h => rfl
  | report hcapacity code pos pieces =>
      exact reportWith_congr (capacity_record_congr hcapacity) code pos none pieces
  | reportWith hcapacity code pos payload pieces =>
      exact reportWith_congr (capacity_record_congr hcapacity) code pos payload pieces
  | absorb hcapacity _ ih =>
      rw [record, record, ih]
      exact absorb_congr (capacity_record_congr hcapacity) _
  | clear hcapacity => exact clear_congr (capacity_record_congr hcapacity)
  | withPayload _ payload ih => rw [record, record, ih]
  | takePayload _ ih => rw [record, record, ih]

end History

end Diagnostic

end CommandScript
