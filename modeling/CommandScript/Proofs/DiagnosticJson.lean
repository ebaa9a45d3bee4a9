import CommandScript.Diagnostic.Json
import CommandScript.Proofs.JsonReading

/-!
Diagnostics read back from their text. The reader of a record knows nothing of the writer: it fills
a draft with whatever members come and closes it at the end. Both meet in the entries of the record,
and a text that is written from these may be laid out and escaped in any way.
-/

namespace CommandScript

namespace Position

/-- The members that a position is written with. -/
def entries (pos : Position) : List Json.Entry :=
  [⟨"file", .string (some pos.file), False⟩, ⟨"line", .number (some pos.line.toNat), False⟩]

/-- The draft of a position after members of these names. -/
def Draft.of (pos : Position) (names : List String) : Draft :=
  ⟨if "file" ∈ names then some pos.file else none,
    if "line" ∈ names then some pos.line.toNat else none⟩

theorem fills_fields (pos : Position) : Json.Fills Draft.fields pos.entries (Draft.of pos) where
  names_nodup := by
    simp [entries]
  isRead := by
    simp [Draft.fields, Draft.of]
  read := by
    have hline : pos.line.toNat ≤ UInt32.size - 1 := Nat.le_pred_of_lt pos.line.toNat_lt
    have hword : UInt32.size - 1 ≤ Json.largestWord := by decide
    intro f hf
    simp only [Draft.fields, List.mem_cons, List.not_mem_nil, or_false] at hf
    obtain rfl | rfl := hf
    · exact ⟨_, .head _, rfl, _, (Json.takes_readText _).map _, fun names => by simp [Draft.of]⟩
    · exact ⟨_, .tail _ (.head _), rfl, _,
        (Json.takes_readNatural hline (Nat.le_trans hline hword)).map _,
        fun names => by simp [Draft.of]⟩
  skip := by
    intro name hname names
    simp only [Draft.fields, List.forall_mem_cons] at hname
    simp [Draft.of, hname]

/-- A position is read from whatever is written with its members. -/
theorem takes_reader {pos : Position} {v : Json.Content} (hv : Json.Entry.Write pos.entries v) :
    reader.Takes v pos := by
  obtain ⟨names, htakes, hread⟩ := pos.fills_fields.takes_readRecord hv
  refine htakes.check ?_
  simp only [entries, List.forall_mem_cons, or_false] at hread
  simp [Draft.of, Draft.finish, hread]

end Position

theorem Severity.ofLabel?_label (severity : Severity) :
    ofLabel? severity.label = some severity := by
  cases severity <;> decide

namespace Diagnostic

variable {π : Type}

/-- The members that a record is written with. -/
def entries (d : Diagnostic π) : List Json.Entry :=
  [⟨"code", .number (some d.code.number.toNat), False⟩,
    ⟨"severity", .string (some d.severity.label), False⟩,
    ⟨"pos", d.pos.toJson.content, False⟩, ⟨"message", .string (some d.message), False⟩]

/-- The draft of a record after members of these names. -/
def Draft.of (d : Diagnostic π) (names : List String) : Draft :=
  ⟨if "code" ∈ names then some d.code.number.toNat else none,
    if "severity" ∈ names then some d.severity else none,
    if "pos" ∈ names then some d.pos else none,
    if "message" ∈ names then some d.message else none⟩

theorem fills_fields (d : Diagnostic π) : Json.Fills Draft.fields d.entries (Draft.of d) where
  names_nodup := by
    simp [entries]
  isRead := by
    simp [Draft.fields, Draft.of]
  read := by
    have hcode : d.code.number.toNat ≤ 65535 := Nat.le_of_lt_succ d.code.number.toNat_lt
    have hword : 65535 ≤ Json.largestWord := by decide
    have hpos := Position.takes_reader (Json.Entry.write_all d.pos.entries)
    intro f hf
    simp only [Draft.fields, List.mem_cons, List.not_mem_nil, or_false] at hf
    obtain rfl | rfl | rfl | rfl := hf
    · exact ⟨_, .head _, rfl, _, (Json.takes_readNatural hcode (Nat.le_trans hcode hword)).map _,
        fun names => by simp [Draft.of]⟩
    · exact ⟨_, .tail _ (.head _), rfl, _, (Json.takes_readName d.severity.ofLabel?_label).map _,
        fun names => by simp [Draft.of]⟩
    · exact ⟨_, .tail _ (.tail _ (.head _)), rfl, _, hpos.map _, fun names => by simp [Draft.of]⟩
    · exact ⟨_, .tail _ (.tail _ (.tail _ (.head _))), rfl, _, (Json.takes_readText _).map _,
        fun names => by simp [Draft.of]⟩
  skip := by
    intro name hname names
    simp only [Draft.fields, List.forall_mem_cons] at hname
    simp [Draft.of, hname]

/-- A record is read, without its capacity and payload, from whatever is written with its
members. -/
theorem takes_reader {d : Diagnostic π} {v : Json.Content} (hv : Json.Entry.Write d.entries v) :
    (reader : Json.Reader (Diagnostic π)).Takes v
      (.make d.code d.severity d.pos d.message) := by
  obtain ⟨names, htakes, hread⟩ := d.fills_fields.takes_readRecord hv
  refine htakes.check ?_
  simp only [entries, List.forall_mem_cons, or_false] at hread
  simp [Draft.of, Draft.finish, hread]

theorem write_toJson (d : Diagnostic π) : Json.Entry.Write d.entries d.toJson.content :=
  Json.Entry.write_all d.entries

theorem ofJson_of_write {d : Diagnostic π} {v : Json.Content} {text : String}
    (hv : Json.Entry.Write d.entries v) (htext : Json.Denotes text v) :
    ofJson text = .ok (.make d.code d.severity d.pos d.message : Diagnostic π) :=
  (takes_reader hv).read_eq htext

theorem toJson_eq_of_agrees {d other : Diagnostic π} (h : d.Agrees other) :
    d.toJson = other.toJson := by
  obtain ⟨hcode, hseverity, hpos, hmessage⟩ := h
  simp only [toJson, hcode, hseverity, hpos, hmessage]

/-- A record survives its text, on one line or on several. What comes back agrees with the record,
bounds no message and carries nothing; the text leaves capacity and payload out; and it tells apart
any two records that do not agree. -/
theorem json_round_trip (d : Diagnostic π) :
    (∃ back : Diagnostic π, ofJson d.toJson.compact = .ok back ∧ ofJson d.toJson.pretty = .ok back ∧
      back.Agrees d ∧ back.capacity = unbounded ∧ back.payload = none) ∧
    (∀ capacity (payload : Option π),
      { d with capacity := capacity, payload := payload }.toJson.compact = d.toJson.compact) ∧
    ∀ other : Diagnostic π, d.toJson.compact = other.toJson.compact ↔ d.Agrees other := by
  have hback (d : Diagnostic π) := ofJson_of_write d.write_toJson (Json.denotes_compact d.toJson)
  refine ⟨⟨.make d.code d.severity d.pos d.message, hback d,
    ofJson_of_write d.write_toJson (Json.denotes_pretty d.toJson), ⟨rfl, rfl, rfl, rfl⟩, rfl, rfl⟩,
    fun _ _ => rfl, fun other => ⟨fun htext => ?_, fun hagrees => ?_⟩⟩
  · -- One text is read in one way, so what comes back for both records is the same.
    have hsame := hback d
    rw [htext, hback other] at hsame
    obtain ⟨hcode, hseverity, hpos, hmessage, -⟩ := Diagnostic.mk.inj (Except.ok.inj hsame)
    exact ⟨hcode.symm, hseverity.symm, hpos.symm, hmessage.symm⟩
  · rw [toJson_eq_of_agrees hagrees]

end Diagnostic

end CommandScript
