import CommandScript.Proofs.DemoStep
import CommandScript.Proofs.Reachable

/-!
The counts of `repeat` commands. A run sets a count when it jumps back and forgets it when it goes
on behind the command, so whatever count is set belongs to a command that the run has still to get
past. All of them lie before the first command that stops a run. So none is left when a run ends,
whatever ends it, and the session serves for the same program once more.
-/

namespace CommandScript.Demo

/-- The entry is the count of a `repeat` command: no more jumps are left than the command asks
for. -/
def CountsFor (p : Program) (entry : CommandId × Nat) : Prop :=
  ∃ command count, p.get? entry.1 = some command ∧
    command.name.text = Bytes.ofString "repeat" ∧ count? command.args = some count ∧
    entry.2 ≤ count

/-- The counts that are set when a run is about to execute the command at a place: each at this
place or behind it, and before the first one that stops the run. -/
structure Counting (strict : Bool) (p : Program) (id : CommandId) (s : Session) : Prop where
  counts : ∀ entry ∈ s.loops, CountsFor p entry
  ahead : ∀ entry ∈ s.loops, id ≤ entry.1
  unstopped : ∀ entry ∈ s.loops, entry.1 < stopIndex strict p
  reached : id ≤ stopIndex strict p

/-- A step keeps the counts in order: they are where they have to be for the place that it goes on
at, and none is left where it ends the run. -/
def KeepsCounting (strict : Bool) (p : Program) : RunStep Session → Prop
  | .goOn next _ s => Counting strict p next s
  | .ended _ s => s.loops = []

variable {strict : Bool} {settings : RunSettings} {p : Program} {id : CommandId}
variable {command : Command} {log : RunLog} {s t : Session}

/-! ### Counts that are set -/

namespace Session

theorem mem_of_remaining? {left : Nat} (h : s.remaining? id = some left) :
    (id, left) ∈ s.loops := by
  obtain ⟨before, after, heq, -⟩ := List.lookup_eq_some_iff.mp h
  simp [heq]

theorem mem_loops_disarm {entry : CommandId × Nat} :
    entry ∈ (s.disarm id).loops ↔ entry ∈ s.loops ∧ entry.1 ≠ id := by
  simp [disarm]

theorem mem_loops_arm {entry : CommandId × Nat} {left : Nat} :
    entry ∈ (s.arm id left).loops ↔
      entry = (id, left) ∨ entry ∈ s.loops ∧ entry.1 ≠ id := by
  rw [arm, List.mem_cons, mem_loops_disarm]

end Session

/-- Counts belong to no other command than a `repeat`. -/
theorem CountsFor.eq_loop {entry : CommandId × Nat} (h : CountsFor p entry)
    (hcommand : p.get? entry.1 = some command) : kind command.name = .loop := by
  obtain ⟨other, count, hother, hname, -, -⟩ := h
  obtain rfl : other = command := Option.some.inj (hother.symm.trans hcommand)
  exact isLoop_iff.mp hname

/-- What is left to a command is at most what it asks for. -/
theorem Counting.remaining_le {count : Nat} (h : Counting strict p id s)
    (hcommand : p.get? id = some command) (hcount : count? command.args = some count) :
    (s.remaining? id).getD count ≤ count := by
  cases hleft : s.remaining? id with
  | none => exact Nat.le_refl count
  | some left =>
      obtain ⟨other, most, hother, -, hmost, hle⟩ :=
        h.counts _ (Session.mem_of_remaining? hleft)
      obtain rfl : other = command := Option.some.inj (hother.symm.trans hcommand)
      obtain rfl : most = count := Option.some.inj (hmost.symm.trans hcount)
      exact hle

/-! ### Steps -/

/-- No count is set where a run comes to the place that stops it. -/
theorem Counting.loops_eq_nil (h : Counting strict p id s) (hid : stopIndex strict p ≤ id) :
    s.loops = [] := by
  rw [List.eq_nil_iff_forall_not_mem]
  intro entry hentry
  have hahead := h.ahead entry hentry
  have hunstopped := h.unstopped entry hentry
  exact absurd (Nat.le_trans hid hahead) (Nat.not_le_of_lt hunstopped)

/-- A run that goes on behind a command without setting a count for it. -/
theorem Counting.past (h : Counting strict p id s) (hid : id < stopIndex strict p)
    (hkept : ∀ entry ∈ t.loops, entry ∈ s.loops ∧ entry.1 ≠ id) :
    Counting strict p (id + 1) t where
  counts entry hentry := h.counts entry (hkept entry hentry).1
  ahead entry hentry := by
    obtain ⟨hold, hne⟩ := hkept entry hentry
    exact Nat.lt_of_le_of_ne (h.ahead entry hold) hne.symm
  unstopped entry hentry := h.unstopped entry (hkept entry hentry).1
  reached := hid

/-- A run that jumps back from a `repeat` command with a new count for it. -/
theorem Counting.jump {target left count : Nat} (h : Counting strict p (target + 1) s)
    (hid : target + 1 < stopIndex strict p) (hcommand : p.get? (target + 1) = some command)
    (hkind : kind command.name = .loop) (hcount : count? command.args = some count)
    (hleft : left ≤ count) : Counting strict p target (s.arm (target + 1) left) where
  counts entry hentry := by
    rcases Session.mem_loops_arm.mp hentry with rfl | ⟨hold, -⟩
    · exact ⟨command, count, hcommand, isLoop_iff.mpr hkind, hcount, hleft⟩
    · exact h.counts entry hold
  ahead entry hentry := by
    rcases Session.mem_loops_arm.mp hentry with rfl | ⟨hold, -⟩
    · exact Nat.le_succ target
    · exact Nat.le_of_succ_le (h.ahead entry hold)
  unstopped entry hentry := by
    rcases Session.mem_loops_arm.mp hentry with rfl | ⟨hold, -⟩
    · exact hid
    · exact h.unstopped entry hold
  reached := Nat.le_of_lt (Nat.lt_of_succ_lt hid)

/-- Going on behind a command keeps the counts in order, also where there is nothing to go on at. -/
theorem Counting.keeps_next (h : Counting strict p (id + 1) t) (hid : command.id = id) :
    KeepsCounting strict p
      ((engine strict settings).follow command log (.next p command, t)) := by
  rw [Flow.next, Program.next?, hid]
  by_cases hlt : id + 1 < p.size
  · rw [if_pos hlt]
    exact h
  · rw [if_neg hlt]
    exact h.loops_eq_nil (Nat.le_trans (stopIndex_le strict p) (Nat.le_of_not_lt hlt))

/-- A step from the place that stops a run ends it and leaves the session alone. -/
theorem exists_ended_of_stopIndex (settings : RunSettings) (hid : id = stopIndex strict p)
    (log : RunLog) (s : Session) :
    ∃ outcome, (engine strict settings).step p id log s = .ended outcome s := by
  subst hid
  cases hcommand : p.get? (stopIndex strict p) with
  | none =>
      refine ⟨.error ((engine strict settings).outsideReport p log (stopIndex strict p)), ?_⟩
      rw [Engine.step, Engine.visit, hcommand]
  | some command =>
      obtain ⟨stop, hstop⟩ := exists_stop hcommand
      exact ⟨_, step_of_stop hcommand hstop⟩

/-- Every step keeps the counts in order, by the kinds of commands that do not stop a run. Only a
`repeat` has a count of its own, which it sets when it jumps and forgets when it does not. -/
theorem Counting.keeps_step (h : Counting strict p id s) (settings : RunSettings) (log : RunLog) :
    KeepsCounting strict p ((engine strict settings).step p id log s) := by
  rcases Nat.eq_or_lt_of_le h.reached with hstopped | hid
  · obtain ⟨outcome, hstep⟩ := exists_ended_of_stopIndex settings hstopped log s
    rw [hstep]
    exact h.loops_eq_nil (Nat.le_of_eq hstopped.symm)
  obtain ⟨command, hcommand⟩ := Program.exists_get? (Nat.lt_of_lt_of_le hid (stopIndex_le strict p))
  have hcommandId : command.id = id := Program.id_of_get? hcommand
  have hstop := stop?_of_lt_stopIndex hid hcommand
  have hother (hkind : kind command.name ≠ .loop) (entry : CommandId × Nat)
      (hentry : entry ∈ s.loops) : entry ∈ s.loops ∧ entry.1 ≠ id := by
    refine ⟨hentry, ?_⟩
    rintro rfl
    exact hkind ((h.counts entry hentry).eq_loop hcommand)
  cases hkind : kind command.name with
  | abort => simp [stop?, hkind] at hstop
  | switch => simp [stop?, hkind] at hstop
  | print =>
      rw [step_print hcommand hkind]
      have hpast : Counting strict p (id + 1) (s.print (echoText command.args)) :=
        h.past hid (hother (by simp [hkind]))
      exact hpast.keeps_next hcommandId
  | other =>
      have hlenient : strict = false := by simpa [stop?, hkind] using hstop
      rw [step_other hcommand hkind hlenient]
      have hpast : Counting strict p (id + 1) { s with skipped := s.skipped + 1 } :=
        h.past hid (hother (by simp [hkind]))
      exact hpast.keeps_next hcommandId
  | loop =>
      obtain ⟨hplace, count, hcount⟩ := exists_count hkind hstop
      obtain ⟨target, rfl⟩ := Nat.exists_eq_succ_of_ne_zero hplace
      have htarget : p.prev? (target + 1) = some target := by
        simp [Program.prev?, Program.lt_of_get? hcommand]
      have hle := h.remaining_le hcommand hcount
      rw [step_loop settings hcommand hkind hcount htarget]
      cases hleft : (s.remaining? (target + 1)).getD count with
      | zero =>
          have hpast : Counting strict p (target + 2) (s.disarm (target + 1)) :=
            h.past hid fun entry hentry => Session.mem_loops_disarm.mp hentry
          exact hpast.keeps_next hcommandId
      | succ left =>
          rw [hleft] at hle
          exact h.jump hid hcommand hkind hcount (Nat.le_of_succ_le hle)

/-! ### Runs -/

theorem counting_of_reaches (hstart : s.loops = [])
    (h : (engine strict settings).Reaches p s id log t) : Counting strict p id t := by
  induction h with
  | @head id hhead =>
      obtain rfl : id = 0 := Program.eq_zero_of_head? hhead
      exact ⟨by simp [hstart], by simp [hstart], by simp [hstart], Nat.zero_le _⟩
  | @step id next log after context changed _ hstep ih =>
      have hkeeps := ih.keeps_step settings log
      rw [hstep] at hkeeps
      exact hkeeps

theorem loops_eq_nil_of_run? {steps : Nat} {outcome : Outcome} (hstart : s.loops = [])
    (h : (engine strict settings).run? steps p s = some (outcome, t)) : t.loops = [] := by
  rcases Engine.exists_reaches_of_run? h with rfl | ⟨id, log, context, hreaches, hstep⟩
  · exact hstart
  · have hkeeps := (counting_of_reaches hstart hreaches).keeps_step settings log
    rw [hstep] at hkeeps
    exact hkeeps

/-! ### Once more -/

/-- The session with what an earlier one has printed and skipped put in front. -/
def Session.precededBy (earlier s : Session) : Session :=
  { s with output := earlier.output ++ s.output, skipped := earlier.skipped + s.skipped }

/-- What holds of every command of the language, and of passing over one, holds of all handlers. -/
theorem allHandlers_language {P : Handler Session → Prop} (hecho : P echo)
    (hrepeat : P repeatPrevious) (hskip : P skip) (strict : Bool) :
    (language strict).AllHandlers P where
  routes := by
    intro route hroute
    simp only [language, List.mem_cons, List.not_mem_nil, or_false] at hroute
    rcases hroute with rfl | rfl | rfl
    · exact hecho
    · exact hecho
    · exact hrepeat
  fallback := by
    intro handler hhandler
    cases strict with
    | true => exact absurd hhandler (by simp [language])
    | false =>
        obtain rfl := Option.some.inj hhandler
        exact hskip

/-- No command of the language looks at what was printed or skipped. -/
theorem respects_precededBy (strict : Bool) (earlier : Session) :
    (language strict).AllHandlers (Handler.Respects earlier.precededBy) := by
  have hecho : Handler.Respects earlier.precededBy echo := by
    intro p s command
    simp [echo, Session.precededBy, Session.print]
  have hskip : Handler.Respects earlier.precededBy skip := by
    intro p s command
    simp [skip, Session.precededBy, UInt64.add_assoc]
  have hrepeat : Handler.Respects earlier.precededBy repeatPrevious := by
    intro p s command
    have hsame : (earlier.precededBy s).remaining? command.id = s.remaining? command.id := rfl
    unfold repeatPrevious
    cases count? command.args with
    | none => rfl
    | some count =>
        cases p.prev? command.id with
        | none => rfl
        | some target =>
            simp only [hsame]
            cases (s.remaining? command.id).getD count with
            | zero => rfl
            | succ left => rfl
  exact allHandlers_language hecho hrepeat hskip strict

theorem precededBy_empty (hs : s.loops = []) : s.precededBy .empty = s := by
  simp [Session.precededBy, Session.empty, ← hs]

/-- Run from any session without counts, a program does what it does from the empty one. -/
theorem run?_of_loops_eq_nil (hs : s.loops = []) (steps : Nat) :
    (engine strict settings).run? steps p s =
      ((engine strict settings).run? steps p .empty).map
        fun ended => (ended.1, s.precededBy ended.2) := by
  have hchange : (engine strict settings).run? steps p (s.precededBy .empty) =
      ((engine strict settings).run? steps p .empty).map
        fun ended => (ended.1, s.precededBy ended.2) :=
    Engine.run?_change (respects_precededBy strict s) steps p Session.empty
  rwa [precededBy_empty hs] at hchange

/-- In every state of a run that started without counts, each count that is set is that of a
`repeat` command, is not greater than the number this command was given, and belongs to no command
before the one to be executed. When the run ends, with a summary or a report, no count is left. Then
the same program can be run again in the same session: it ends in the same way, prints the same
lines once more and skips as many commands again. -/
theorem counts_of_run (strict : Bool) (settings : RunSettings) (p : Program) (s : Session)
    (hstart : s.loops = []) :
    (∀ id log t, (engine strict settings).Reaches p s id log t →
      ∀ entry ∈ t.loops, CountsFor p entry ∧ id ≤ entry.1) ∧
    ∀ steps outcome t, (engine strict settings).run? steps p s = some (outcome, t) →
      t.loops = [] ∧ ∃ lines skipped,
        t = ⟨s.output ++ lines, [], s.skipped + skipped⟩ ∧
        (engine strict settings).run? steps p t =
          some (outcome, ⟨t.output ++ lines, [], t.skipped + skipped⟩) := by
  refine ⟨?_, ?_⟩
  · intro id log t hreaches entry hentry
    have hcounting := counting_of_reaches hstart hreaches
    exact ⟨hcounting.counts entry hentry, hcounting.ahead entry hentry⟩
  intro steps outcome t hrun
  have hend : t.loops = [] := loops_eq_nil_of_run? hstart hrun
  refine ⟨hend, ?_⟩
  rw [run?_of_loops_eq_nil hstart, Option.map_eq_some_iff] at hrun
  obtain ⟨⟨_, added⟩, hempty, hended⟩ := hrun
  obtain ⟨rfl, rfl⟩ := Prod.mk.inj hended
  have hadded : added.loops = [] := hend
  refine ⟨added.output, added.skipped, ?_, ?_⟩
  · simp [Session.precededBy, hadded]
  · rw [run?_of_loops_eq_nil hend, hempty]
    simp [Session.precededBy, hadded]

/-- Two loops, the outer one on its way through the inner one once more, in a session that has
printed a line and skipped two commands before. In the end the run fails. -/
theorem counts_of_run_nested :
    let p : Program := ⟨[⟨⟨"f", 1⟩, .owned (Bytes.ofString "echo") false, [], by decide⟩,
      ⟨⟨"f", 2⟩, .owned (Bytes.ofString "repeat") false, [.owned [0x31] false], by decide⟩,
      ⟨⟨"f", 3⟩, .owned (Bytes.ofString "repeat") false, [.owned [0x31] false], by decide⟩,
      ⟨⟨"f", 4⟩, .owned (Bytes.ofString "stop") false, [], by decide⟩]⟩
    let s : Session := ⟨#["a"], [], 2⟩
    (∃ log t, (engine true {}).Reaches p s 0 log t ∧ t.loops = [(1, 0), (2, 0)] ∧
      ∀ entry ∈ t.loops, CountsFor p entry ∧ 0 ≤ entry.1) ∧
    ∃ d t, (engine true {}).run? 10 p s = some (.error d, t) ∧ t = ⟨#["a", "", "", ""], [], 2⟩ ∧
      (engine true {}).run? 10 p t = some (.error d, ⟨#["a", "", "", "", "", "", ""], [], 2⟩) := by
  intro p s
  obtain ⟨hstates, hends⟩ := counts_of_run true {} p s rfl
  refine ⟨?_, ?_⟩
  · have hstart : (engine true {}).Reaches p s 0 .empty s := .head rfl
    have hecho : (engine true {}).Reaches p s 1 ⟨[], [], 1, some 0⟩ ⟨#["a", ""], [], 2⟩ :=
      hstart.step rfl
    have hjump : (engine true {}).Reaches p s 0 ⟨[], [], 2, some 1⟩ ⟨#["a", ""], [(1, 0)], 2⟩ :=
      hecho.step rfl
    have hagain : (engine true {}).Reaches p s 1 ⟨[], [], 3, some 0⟩
        ⟨#["a", "", ""], [(1, 0)], 2⟩ :=
      hjump.step rfl
    have hpast : (engine true {}).Reaches p s 2 ⟨[], [], 4, some 1⟩ ⟨#["a", "", ""], [], 2⟩ :=
      hagain.step rfl
    have houter : (engine true {}).Reaches p s 1 ⟨[], [], 5, some 2⟩
        ⟨#["a", "", ""], [(2, 0)], 2⟩ :=
      hpast.step rfl
    have hinner : (engine true {}).Reaches p s 0 ⟨[], [], 6, some 1⟩
        ⟨#["a", "", ""], [(1, 0), (2, 0)], 2⟩ :=
      houter.step rfl
    exact ⟨_, _, hinner, rfl, hstates _ _ _ hinner⟩
  · have hrun : (engine true {}).run? 10 p s = some (.error ⟨.unknownCommand, .error, ⟨"f", 4⟩,
        "unknown command `stop`", 512, none⟩, ⟨#["a", "", "", ""], [], 2⟩) := by
      decide +kernel
    obtain ⟨-, lines, skipped, hadded, hagain⟩ := hends _ _ _ hrun
    obtain ⟨hlines, -, hskipped⟩ := Session.mk.inj hadded
    obtain rfl : #["", "", ""] = lines := (Array.append_right_inj #["a"]).mp hlines
    obtain rfl : skipped = 0 := UInt64.left_eq_add.mp hskipped
    exact ⟨_, _, hrun, rfl, hagain⟩

end CommandScript.Demo
