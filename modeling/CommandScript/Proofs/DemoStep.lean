import CommandScript.Proofs.DemoMeaning

/-!
Single steps of the demo language: what each kind of command does to the log and the session, and
how a step ends a run at a command that stops it.
-/

namespace CommandScript.Demo

/-! ### The log -/

section

variable {p : Program} {i : Nat} {command : Command} {log : RunLog}

/-- The log after getting past a command for good. -/
def passLog (log : RunLog) (command : Command) (invocations : Nat) : RunLog :=
  let log := if isDeprecated command.name then log.warn command else log
  { log with invocations := log.invocations + .ofNat invocations, last := some command.id }

theorem invoke_eq_passLog (log : RunLog) (command : Command) :
    log.invoke command (isDeprecated command.name) = passLog log command 1 := by
  unfold RunLog.invoke passLog
  rw [RunLog.warn_reach]
  cases isDeprecated command.name <;> rfl

theorem invocations_passLog (log : RunLog) (command : Command) (invocations : Nat) :
    (passLog log command invocations).invocations = log.invocations + .ofNat invocations := by
  unfold passLog
  split
  · exact congrArg (· + .ofNat invocations) (RunLog.invocations_warn log command)
  · rfl

/-- The deprecated commands before a place have had their warnings. -/
def WarnedBefore (p : Program) (log : RunLog) (id : CommandId) : Prop :=
  ∀ earlier command, earlier < id → p.get? earlier = some command →
    isDeprecated command.name = true → earlier ∈ log.warned

theorem WarnedBefore.passLog (h : WarnedBefore p log i) (hcommand : p.get? i = some command)
    (invocations : Nat) : WarnedBefore p (passLog log command invocations) (i + 1) := by
  intro earlier other hlt hother hdeprecated
  have hle : earlier ≤ i := Nat.le_of_lt_succ hlt
  unfold Demo.passLog
  rcases Nat.lt_or_eq_of_le hle with hlt | rfl
  · have hmem := h earlier other hlt hother hdeprecated
    split
    · exact RunLog.mem_warned_warn.mpr (Or.inr hmem)
    · exact hmem
  · obtain rfl : command = other := Option.some.inj (hcommand.symm.trans hother)
    rw [if_pos hdeprecated]
    exact RunLog.mem_warned_warn.mpr (Or.inl (Program.id_of_get? hcommand).symm)

/-- Getting past a command again adds no warning. -/
theorem passLog_of_warned (h : WarnedBefore p log (i + 1)) (hcommand : p.get? i = some command)
    (invocations : Nat) :
    passLog log command invocations =
      { log with invocations := log.invocations + .ofNat invocations, last := some i } := by
  unfold passLog
  split
  · rename_i hdeprecated
    have hmem : command.id ∈ log.warned := by
      rw [Program.id_of_get? hcommand]
      exact h i command (Nat.lt_succ_self i) hcommand hdeprecated
    rw [RunLog.warn_of_mem hmem, Program.id_of_get? hcommand]
  · rw [Program.id_of_get? hcommand]

/-- A round of a loop: the jump, getting past the command before again, and what is left. -/
theorem passLog_round {jump : Command} (h : WarnedBefore p (passLog log jump 1) (i + 1))
    (hcommand : p.get? i = some command) (hplain : isDeprecated jump.name = false)
    (round rest : Nat) :
    passLog (passLog (passLog log jump 1) command round) jump rest =
      passLog log jump (round + rest + 1) := by
  have hsum : log.invocations + .ofNat 1 + .ofNat round + .ofNat rest =
      log.invocations + .ofNat (round + rest + 1) := by
    rw [UInt64.ofNat_add, UInt64.ofNat_add]
    ac_rfl
  rw [passLog_of_warned h hcommand]
  simp only [passLog, hplain, Bool.false_eq_true, if_false, hsum]

theorem WarnedBefore.mono {earlier : CommandId} (h : WarnedBefore p log i) (hle : earlier ≤ i) :
    WarnedBefore p log earlier :=
  fun id command hlt => h id command (Nat.lt_of_lt_of_le hlt hle)

end

/-! ### The session -/

namespace Session

/-- No count is set at this place or before it. -/
def ArmedBehind (s : Session) (id : CommandId) : Prop :=
  ∀ entry ∈ s.loops, id < entry.1

variable {s : Session} {id : CommandId}

theorem remaining?_of_armedBehind (h : s.ArmedBehind id) : s.remaining? id = none := by
  rw [remaining?, List.lookup_eq_none_iff]
  intro entry hentry
  have hne : id ≠ entry.1 := Nat.ne_of_lt (h entry hentry)
  simp [hne]

theorem disarm_of_armedBehind (h : s.ArmedBehind id) : s.disarm id = s := by
  have hfilter : s.loops.filter (·.1 != id) = s.loops := by
    apply List.filter_eq_self.mpr
    intro entry hentry
    have hne : entry.1 ≠ id := Nat.ne_of_gt (h entry hentry)
    simp [hne]
  rw [disarm, hfilter]

/-- Setting a count makes good for any count that was set before. -/
theorem arm_of_disarm {armed : Session} (hdisarm : armed.disarm id = s) (h : s.ArmedBehind id)
    (count : Nat) : armed.arm id count = s.arm id count := by
  rw [arm, arm, hdisarm, disarm_of_armedBehind h]

theorem remaining?_arm (count : Nat) : (s.arm id count).remaining? id = some count := by
  simp [remaining?, arm]

theorem disarm_arm (count : Nat) : (s.arm id count).disarm id = s.disarm id := by
  simp [disarm, arm]

theorem ArmedBehind.arm {before : CommandId} (h : s.ArmedBehind id) (hlt : before < id)
    (count : Nat) : (s.arm id count).ArmedBehind before := by
  intro entry hentry
  rw [Session.arm, disarm_of_armedBehind h] at hentry
  rcases List.mem_cons.mp hentry with rfl | hentry
  · exact hlt
  · exact Nat.lt_trans hlt (h entry hentry)

theorem disarm_add (s : Session) (meaning : Meaning) (id : CommandId) :
    (s.add meaning).disarm id = (s.disarm id).add meaning :=
  rfl

theorem remaining?_add (s : Session) (meaning : Meaning) (id : CommandId) :
    (s.add meaning).remaining? id = s.remaining? id :=
  rfl

end Session

/-! ### What commands do -/

/-- The engine of the language. -/
abbrev engine (strict : Bool) (settings : RunSettings) : Engine Session :=
  ⟨language strict, settings⟩

section

variable {strict : Bool} {settings : RunSettings} {p : Program} {i : Nat} {command : Command}
variable {log : RunLog} {s : Session}

theorem accepts_exact (expected : String) (handler : Handler Session) (name : Part) :
    (Route.exact expected handler).accepts name = (name.text == Bytes.ofString expected) :=
  rfl

theorem accepts_deprecated (expected : String) (handler : Handler Session) (name : Part) :
    (Route.exact expected handler).deprecated.accepts name =
      (name.text == Bytes.ofString expected) :=
  rfl

theorem handlerFor?_language (name : Part) :
    (language strict).handlerFor? name =
      if name.text == Bytes.ofString "echo" then some (echo, false)
      else if name.text == Bytes.ofString "say" then some (echo, true)
      else if name.text == Bytes.ofString "repeat" then some (repeatPrevious, false)
      else if strict then none
      else some (skip, false) := by
  rw [Language.handlerFor?_eq_find?]
  simp only [language, List.find?_cons, List.find?_nil, accepts_exact, accepts_deprecated]
  cases name.text == Bytes.ofString "echo" with
  | true => rfl
  | false =>
      cases name.text == Bytes.ofString "say" with
      | true => rfl
      | false =>
          cases name.text == Bytes.ofString "repeat" with
          | true => rfl
          | false => cases strict <;> rfl

theorem not_isDeprecated_of_echo {name : Part}
    (hname : (name.text == Bytes.ofString "echo") = true) : isDeprecated name = false := by
  have htext : name.text = Bytes.ofString "echo" := eq_of_beq hname
  rw [isDeprecated, htext]
  decide

/-- What a place of a program means to a run of the language. -/
theorem visit_eq (hcommand : p.get? i = some command) :
    (engine strict settings).visit p i =
      match kind command.name with
      | .abort => .abort command
      | .switch => .switch command
      | .print => .invoke command echo (isDeprecated command.name)
      | .loop => .invoke command repeatPrevious false
      | .other => if strict then .unknown command else .invoke command skip false := by
  unfold Engine.visit kind
  simp only [hcommand, handlerFor?_language]
  cases command.name.text == abortName with
  | true => rfl
  | false =>
  cases command.name.text == languageName with
  | true => rfl
  | false =>
  cases hecho : command.name.text == Bytes.ofString "echo" with
  | true =>
      rw [not_isDeprecated_of_echo hecho]
      rfl
  | false =>
  cases hsay : command.name.text == Bytes.ofString "say" with
  | true =>
      rw [isDeprecated, hsay]
      rfl
  | false =>
  cases command.name.text == Bytes.ofString "repeat" with
  | true => rfl
  | false => cases strict <;> rfl

theorem not_isDeprecated_of_kind {name : Part} (hkind : kind name ≠ .print) :
    isDeprecated name = false := by
  cases hsay : isDeprecated name with
  | false => rfl
  | true =>
      have htext : name.text = Bytes.ofString "say" := eq_of_beq hsay
      have hprint : kind name = .print := by
        rw [kind, htext]
        decide
      exact absurd hprint hkind

theorem step_print (hcommand : p.get? i = some command) (hkind : kind command.name = .print) :
    (engine strict settings).step p i log s =
      (engine strict settings).follow command (passLog log command 1)
        (.next p command, s.print (echoText command.args)) := by
  rw [Engine.step, visit_eq hcommand, hkind, ← invoke_eq_passLog]
  rfl

theorem step_other (hcommand : p.get? i = some command) (hkind : kind command.name = .other)
    (hstrict : strict = false) :
    (engine strict settings).step p i log s =
      (engine strict settings).follow command (passLog log command 1)
        (.next p command, { s with skipped := s.skipped + 1 }) := by
  have hplain : isDeprecated command.name = false := not_isDeprecated_of_kind (by simp [hkind])
  rw [Engine.step, visit_eq hcommand, hkind, ← invoke_eq_passLog, hplain, hstrict]
  rfl

theorem step_loop (settings : RunSettings) {count target : Nat} (hcommand : p.get? i = some command)
    (hkind : kind command.name = .loop) (hcount : count? command.args = some count)
    (htarget : p.prev? i = some target) (log : RunLog) (s : Session) :
    (engine strict settings).step p i log s =
      match (s.remaining? i).getD count with
      | 0 => (engine strict settings).follow command (passLog log command 1)
          (.next p command, s.disarm i)
      | left + 1 => .goOn target (passLog log command 1) (s.arm i left) := by
  have hplain : isDeprecated command.name = false := not_isDeprecated_of_kind (by simp [hkind])
  rw [Engine.step, visit_eq hcommand, hkind, ← invoke_eq_passLog, hplain]
  simp only [repeatPrevious, hcount, Program.id_of_get? hcommand, htarget]
  cases (s.remaining? i).getD count <;> rfl

/-- A handler that fails with a code fails a run with it. -/
theorem failure_error {code : Code} (hcode : code.isError = true) (message : String) :
    (engine strict settings).failure command (.error code command.pos message) =
      (Diagnostic.withCapacity settings.messageCapacity).report code command.pos [message] := by
  have hseverity : Severity.ofCode code = .error := by simp [Severity.ofCode, hcode]
  simp [Engine.failure, Diagnostic.isError, Diagnostic.error, Diagnostic.make, Diagnostic.absorb,
    Diagnostic.report, Diagnostic.reportWith, hcode, hseverity]

/-- A run ends at a command that stops it. -/
theorem step_of_stop {stop : Stop} (hcommand : p.get? i = some command)
    (hstop : stop? strict i command.toLine = some stop) :
    (engine strict settings).step p i log s =
      .ended (stop.outcome settings command ⟨.abort, log.invocations, some i, log.warnings⟩) s := by
  have hid : command.id = i := Program.id_of_get? hcommand
  unfold stop? at hstop
  rw [Engine.step, visit_eq hcommand]
  cases hkind : kind command.name with
  | abort =>
      obtain rfl : Stop.abort = stop := by simpa [hkind] using hstop
      simp [RunLog.reach, RunLog.summary, Stop.outcome, hid]
  | switch =>
      obtain rfl : Stop.switch = stop := by simpa [hkind] using hstop
      rfl
  | print => simp [hkind] at hstop
  | loop =>
      simp only [hkind] at hstop
      split_ifs at hstop with hcount hplace
      · obtain rfl : Stop.noCount = stop := by simpa using hstop
        simp only [repeatPrevious, hcount, Flow.failAt, Engine.follow]
        rw [failure_error rfl]
        rfl
      · obtain rfl : Stop.noTarget = stop := by simpa using hstop
        obtain ⟨count, hcount⟩ := Option.ne_none_iff_exists'.mp hcount
        have htarget : p.prev? i = none := by simp [Program.prev?, hplace]
        simp only [repeatPrevious, hcount, hid, htarget, Flow.failAt, Engine.follow]
        rw [failure_error rfl]
        rfl
  | other =>
      simp only [hkind] at hstop
      split_ifs at hstop with hstrict
      obtain rfl : Stop.unknown = stop := by simpa using hstop
      simp only [hstrict, if_true]
      rfl

end

end CommandScript.Demo
