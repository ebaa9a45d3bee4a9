import CommandScript.Diagnostic.Json
import CommandScript.Proofs.BoundedText
import CommandScript.Proofs.Decoding
import CommandScript.Proofs.Outcome

/-!
What can become of a record. However a record was made and whatever was done to it since, its
capacity is the one it was made with, its message keeps within that capacity when it was given one,
and it carries a payload only if the last thing that was done to it put it there.
-/

namespace CommandScript

/-! ### Reading -/

namespace Json

theorem of_bind_eq_ok {ε α β : Type} {result : Except ε α} {f : α → Except ε β} {value : β}
    (h : result >>= f = .ok value) : ∃ a, result = .ok a ∧ f a = .ok value := by
  cases result with
  | error e => cases h
  | ok a => exact ⟨a, rfl, h⟩

theorem of_check {α β : Type} {reader : Reader α} {f : α → Except ReadError β}
    {input : List Lexeme} {p : Parsed β input} (h : reader.check f input = .ok p) :
    ∃ value, f value = .ok p.value := by
  obtain ⟨q, -, hq⟩ := of_bind_eq_ok h
  obtain ⟨value, hvalue, hp⟩ := of_bind_eq_ok hq
  cases hp
  exact ⟨q.value, hvalue⟩

theorem of_read {α : Type} {reader : Reader α} {text : String} {value : α}
    (h : read reader text = .ok value) :
    ∃ p : Parsed α (lexemes text.toList),
      reader (lexemes text.toList) = .ok p ∧ p.value = value := by
  obtain ⟨p, hread, hp⟩ := of_bind_eq_ok h
  split at hp
  · exact ⟨p, hread, Except.ok.inj hp⟩
  · cases hp

end Json

namespace Diagnostic

variable {π : Type}

/-- A record that was read is unbounded and carries nothing. -/
theorem of_ofJson {text : String} {d : Diagnostic π} (h : ofJson text = .ok d) :
    ∃ code severity pos message, d = make code severity pos message := by
  obtain ⟨p, hread, rfl⟩ := Json.of_read h
  obtain ⟨draft, hfinish⟩ := Json.of_check hread
  unfold Draft.finish at hfinish
  split at hfinish
  · exact ⟨_, _, _, _, (Except.ok.inj hfinish).symm⟩
  · cases hfinish

/-! ### Histories of records -/

/-- How a record comes about. The shorthands for the severities make records as well. -/
inductive Origin (π : Type) where
  | withCapacity (capacity : Nat)
  | default
  | make (code : Code) (severity : Severity) (pos : Position) (message : String)
  | read (text : String) (d : Diagnostic π) (h : ofJson text = .ok d)

namespace Origin

def build : Origin π → Diagnostic π
  | .withCapacity capacity => .withCapacity capacity
  | .default => .withCapacity unbounded
  | .make code severity pos message => .make code severity pos message
  | .read _ d _ => d

/-- The capacity that a record keeps from its origin. -/
def capacity : Origin π → Nat
  | .withCapacity capacity => capacity
  | _ => unbounded

theorem capacity_build (origin : Origin π) : origin.build.capacity = origin.capacity := by
  cases origin with
  | read text d h =>
      obtain ⟨code, severity, pos, message, rfl⟩ := of_ofJson h
      rfl
  | _ => rfl

theorem payload_build (origin : Origin π) : origin.build.payload = none := by
  cases origin with
  | read text d h =>
      obtain ⟨code, severity, pos, message, rfl⟩ := of_ofJson h
      rfl
  | _ => rfl

end Origin

/-- The origin of a record and what was done to it since, the last thing outermost. A record that
was taken over has a history of its own. -/
inductive History (π : Type) where
  | build (origin : Origin π)
  | report (h : History π) (code : Code) (pos : Position) (pieces : List String)
  | reportWith (h : History π) (code : Code) (pos : Position) (payload : Option π)
    (pieces : List String)
  | absorb (h other : History π)
  | withPayload (h : History π) (payload : π)
  | takePayload (h : History π)
  | clear (h : History π)

namespace History

def record : History π → Diagnostic π
  | .build origin => origin.build
  | .report h code pos pieces => h.record.report code pos pieces
  | .reportWith h code pos payload pieces => h.record.reportWith code pos payload pieces
  | .absorb h other => h.record.absorb other.record
  | .withPayload h payload => h.record.withPayload payload
  | .takePayload h => h.record.withoutPayload
  | .clear h => h.record.clear

/-- The origin of the record itself, not of those it took over. -/
def origin : History π → Origin π
  | .build origin => origin
  | .report h _ _ _ => h.origin
  | .reportWith h _ _ _ _ => h.origin
  | .absorb h _ => h.origin
  | .withPayload h _ => h.origin
  | .takePayload h => h.origin
  | .clear h => h.origin

/-- The last thing that was done put the payload there: a report of an error came with it, a record
was taken over whose history puts it, or it was attached to an error. -/
inductive Puts : History π → π → Prop where
  | reportWith (h : History π) {code : Code} (hcode : code ≠ .noError) (pos : Position)
      (payload : π) (pieces : List String) :
      Puts (.reportWith h code pos (some payload) pieces) payload
  | absorb (h : History π) {other : History π} {payload : π} (hother : Puts other payload) :
      Puts (.absorb h other) payload
  | withPayload {h : History π} (herror : h.record.code ≠ .noError) (payload : π) :
      Puts (.withPayload h payload) payload

end History

/-! ### What each operation does -/

/-- Attaching data changes at most the payload. -/
theorem withPayload_eq (d : Diagnostic π) (payload : π) :
    d.withPayload payload =
      { d with payload := if d.isError then some payload else d.payload } := by
  unfold withPayload
  split <;> rfl

/-- Every field of a record that took over another one. -/
theorem absorb_eq (d other : Diagnostic π) :
    d.absorb other =
      { code := other.code
        severity := if other.isError then other.severity else .info
        pos := other.pos
        message := BoundedText.ofPieces d.capacity [other.message]
        capacity := d.capacity
        payload := if other.isError then other.payload else none } := by
  unfold absorb reportWith isError
  dsimp only
  split
  · rfl
  · rename_i herror
    rw [Severity.ofCode, if_neg herror]

/-- A record without an error carries nothing. -/
def CarriesForError (d : Diagnostic π) : Prop :=
  d.code = .noError → d.payload = none

theorem isError_eq_false_iff {d : Diagnostic π} : d.isError = false ↔ d.code = .noError := by
  rw [Bool.eq_false_iff, ne_eq, isError, Code.isError_iff, Decidable.not_not]

theorem carriesForError_reportWith (d : Diagnostic π) (code : Code) (pos : Position)
    (payload : Option π) (pieces : List String) :
    (d.reportWith code pos payload pieces).CarriesForError := by
  intro hcode
  apply if_neg
  exact Bool.eq_false_iff.mp (isError_eq_false_iff.mpr hcode)

theorem CarriesForError.withPayload {d : Diagnostic π} (h : d.CarriesForError) (payload : π) :
    (d.withPayload payload).CarriesForError := by
  rw [withPayload_eq]
  intro (hcode : d.code = .noError)
  dsimp only
  rw [isError_eq_false_iff.mpr hcode, if_neg Bool.false_ne_true]
  exact h hcode

/-- A record that is taken over brings along what it carries, whatever its code. -/
theorem CarriesForError.payload_absorb {other : Diagnostic π} (h : other.CarriesForError)
    (d : Diagnostic π) : (d.absorb other).payload = other.payload := by
  rw [absorb_eq]
  cases herror : other.isError with
  | true => rfl
  | false => exact (h (isError_eq_false_iff.mp herror)).symm

theorem CarriesForError.absorb {other : Diagnostic π} (h : other.CarriesForError)
    (d : Diagnostic π) :
    (d.absorb other).CarriesForError := by
  intro hcode
  rw [absorb_eq] at hcode
  rw [h.payload_absorb]
  exact h hcode

namespace History

theorem capacity_record (h : History π) : h.record.capacity = h.origin.capacity := by
  induction h with
  | build origin => exact origin.capacity_build
  | report h code pos pieces ih => exact ih
  | reportWith h code pos payload pieces ih => exact ih
  | absorb h other ih _ =>
      rw [record, absorb_eq]
      exact ih
  | withPayload h payload ih =>
      rw [record, withPayload_eq]
      exact ih
  | takePayload h ih => exact ih
  | clear h ih => exact ih

theorem carriesForError_record (h : History π) : h.record.CarriesForError := by
  induction h with
  | build origin => exact fun _ => origin.payload_build
  | report h code pos pieces _ => exact carriesForError_reportWith h.record code pos none pieces
  | reportWith h code pos payload pieces _ =>
      exact carriesForError_reportWith h.record code pos payload pieces
  | absorb h other _ ih => exact ih.absorb h.record
  | withPayload h payload ih => exact ih.withPayload payload
  | takePayload h _ => exact fun _ => rfl
  | clear h _ => exact fun _ => rfl

/-- All that is written into a record is clipped, and a record made with a capacity begins with
nothing. -/
theorem within_record {h : History π} {capacity : Nat}
    (horigin : h.origin.build = .withCapacity capacity) : h.record.Within capacity := by
  have hcapacity : h.record.capacity = capacity := by
    rw [capacity_record, ← Origin.capacity_build, horigin]
    rfl
  induction h with
  | build origin =>
      rw [record, show origin.build = .withCapacity capacity from horigin]
      exact Nat.zero_le _
  | report h code pos pieces _ => exact hcapacity ▸ within_report h.record code pos pieces
  | reportWith h code pos payload pieces _ =>
      exact hcapacity ▸ within_report h.record code pos pieces
  | absorb h other _ _ =>
      rw [record, absorb_eq] at hcapacity
      exact hcapacity ▸ within_absorb h.record other.record
  | withPayload h payload ih =>
      rw [record, withPayload_eq] at hcapacity ⊢
      exact ih horigin hcapacity
  | takePayload h ih => exact ih horigin hcapacity
  | clear h _ => exact Nat.zero_le _

theorem payload_record_iff {h : History π} {payload : π} :
    h.record.payload = some payload ↔ h.Puts payload := by
  induction h generalizing payload with
  | build origin =>
      rw [record, origin.payload_build]
      exact ⟨nofun, nofun⟩
  | report h code pos pieces _ =>
      have hnone : (h.record.report code pos pieces).payload = none := ite_self none
      rw [record, hnone]
      exact ⟨nofun, nofun⟩
  | reportWith h code pos given pieces _ =>
      change (if code.isError then given else none) = some payload ↔ _
      constructor
      · intro hpayload
        obtain ⟨hcode, rfl⟩ := Option.ite_none_right_eq_some.mp hpayload
        exact .reportWith h (Code.isError_iff.mp hcode) pos payload pieces
      · rintro (⟨_, hcode, _, _, _⟩ | _)
        exact if_pos (Code.isError_iff.mpr hcode)
  | absorb h other _ ih =>
      rw [record, other.carriesForError_record.payload_absorb, ih]
      constructor
      · exact .absorb h
      · rintro (_ | ⟨_, hother⟩)
        exact hother
  | withPayload h given _ =>
      rw [record, withPayload_eq]
      dsimp only
      constructor
      · intro hpayload
        cases herror : h.record.isError with
        | true =>
            rw [herror, if_pos rfl] at hpayload
            obtain rfl := Option.some.inj hpayload
            exact .withPayload (Code.isError_iff.mp herror) given
        | false =>
            rw [herror, if_neg Bool.false_ne_true,
              h.carriesForError_record (isError_eq_false_iff.mp herror)] at hpayload
            cases hpayload
      · rintro (_ | _ | ⟨hcode, _⟩)
        exact if_pos (Code.isError_iff.mpr hcode)
  | takePayload h _ => exact ⟨nofun, nofun⟩
  | clear h _ => exact ⟨nofun, nofun⟩

/-- Whatever a record has been through, it carries nothing without an error, its capacity is that of
its origin, its message is valid UTF-8 and keeps within the capacity it was made with, and its
payload is what the last thing done to it put there. So nothing it carried before outlives a report
without a payload, a report of no error, a record taken over that carries nothing, a clearing, or
that it was taken. -/
theorem record_invariant (h : History π) :
    (h.record.code = .noError → h.record.payload = none) ∧
    h.record.capacity = h.origin.capacity ∧
    (∀ capacity, h.origin.build = .withCapacity capacity →
      h.record.message.utf8ByteSize ≤ capacity ∧
        Utf8.isValid (Bytes.ofString h.record.message) = true) ∧
    (∀ payload, h.record.payload = some payload ↔ h.Puts payload) ∧
    (∀ code pos pieces, (h.report code pos pieces).record.payload = none) ∧
    (∀ pos payload pieces, (h.reportWith .noError pos payload pieces).record.payload = none) ∧
    (∀ code pos pieces, (h.reportWith code pos none pieces).record.payload = none) ∧
    (∀ other : History π, other.record.payload = none → (h.absorb other).record.payload = none) ∧
    h.clear.record.payload = none ∧ h.takePayload.record.payload = none := by
  refine ⟨h.carriesForError_record, h.capacity_record, ?_, fun _ => payload_record_iff,
    fun _ _ _ => ite_self none, fun _ _ _ => rfl, fun _ _ _ => ite_self none, ?_, rfl, rfl⟩
  · intro capacity horigin
    exact ⟨within_record horigin, Utf8.isValid_ofString _⟩
  · intro other hnone
    exact (other.carriesForError_record.payload_absorb h.record).trans hnone

/-- A payload goes over with its record, and a report without one drops it. -/
example :
    let other := (History.build (.make .general .warning .unknown "é!")).withPayload "five"
    let h := (History.build (.withCapacity 2)).absorb other
    h.record = ⟨.general, .warning, .unknown, "é", 2, some "five"⟩ ∧
      (h.report .general .unknown ["x"]).record.payload = none := by
  decide

end History

end Diagnostic

end CommandScript
