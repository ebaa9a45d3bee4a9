import CommandScript.Proofs.DemoStep

/-!
Whole runs of the demo language. A run gets past a `repeat` by rounds that each get past the command
before it once more; so by induction on the place it gets past every command that does not stop it,
and has then done what the command means.
-/

namespace CommandScript.Demo

variable {strict : Bool} {settings : RunSettings} {p : Program} {i : Nat} {command : Command}
variable {log : RunLog} {s : Session}

/-! ### Getting past one command -/

/-- A loop with some jumps left does what the command before it does as many times. The induction is
on the jumps left; every round finds the session without the loop's own count as `s`. -/
theorem runFrom?_loop {j count : Nat} {before : Command} {meaning : Meaning}
    (hcommand : p.get? (j + 1) = some command) (hkind : kind command.name = .loop)
    (hcount : count? command.args = some count) (hbefore : p.get? j = some before)
    (hpass : ∀ log s fuel, WarnedBefore p log j → s.ArmedBehind j →
      (engine strict settings).runFrom? p (meaning.cost + fuel) j log s =
        (engine strict settings).goPast? p fuel (j + 1)
          (passLog log before meaning.cost) (s.add meaning))
    (left : Nat) (armed : Session) (hwarned : WarnedBefore p log (j + 1))
    (hbehind : s.ArmedBehind (j + 1)) (hleft : (armed.remaining? (j + 1)).getD count = left)
    (hdisarm : armed.disarm (j + 1) = s) (fuel : Nat) :
    (engine strict settings).runFrom? p ((meaning.times left).cost + fuel) (j + 1) log armed =
      (engine strict settings).goPast? p fuel (j + 2)
        (passLog log command (meaning.times left).cost) (s.add (meaning.times left)) := by
  have hplain : isDeprecated command.name = false := not_isDeprecated_of_kind (by simp [hkind])
  have hlt : j + 1 < p.size := Program.lt_of_get? hcommand
  have htarget : p.prev? (j + 1) = some j := by simp [Program.prev?, hlt]
  have hstep := @step_loop strict p (j + 1) command settings count j hcommand hkind hcount htarget
  induction left generalizing log s armed with
  | zero =>
      have hend := hstep log armed
      rw [hleft, hdisarm] at hend
      rw [Session.add_times_zero, Meaning.cost_times_zero, Nat.add_comm 1 fuel]
      exact Engine.runFrom?_of_next fuel (Program.id_of_get? hcommand) hend
  | succ left ih =>
      have hjump := hstep log armed
      rw [hleft] at hjump
      dsimp only at hjump
      rw [Session.arm_of_disarm hdisarm hbehind] at hjump
      have hwarnedAt : WarnedBefore p (passLog log command 1) (j + 1) :=
        (hwarned.passLog hcommand 1).mono (Nat.le_succ (j + 1))
      have hwarnedBefore := hwarnedAt.mono (Nat.le_succ j)
      have hround := hpass (passLog log command 1) (s.arm (j + 1) left)
        ((meaning.times left).cost + fuel) hwarnedBefore (hbehind.arm (Nat.lt_succ_self j) left)
      have hleft' : (((s.arm (j + 1) left).add meaning).remaining? (j + 1)).getD count = left := by
        rw [Session.remaining?_add, Session.remaining?_arm]
        rfl
      have hdisarm' : ((s.arm (j + 1) left).add meaning).disarm (j + 1) = s.add meaning := by
        rw [Session.disarm_add, Session.disarm_arm, Session.disarm_of_armedBehind hbehind]
      have hbehind' : (s.add meaning).ArmedBehind (j + 1) := hbehind
      have hrest := ih _ (hwarnedBefore.passLog hbefore meaning.cost) hbehind' hleft' hdisarm'
      have hcost : (meaning.times (left + 1)).cost + fuel =
          meaning.cost + ((meaning.times left).cost + fuel) + 1 := by
        rw [Meaning.cost_times_succ]
        omega
      rw [hcost, Engine.runFrom?_of_goOn _ hjump, hround, Engine.goPast?_of_lt _ hlt, hrest,
        passLog_round hwarnedAt hbefore hplain, Session.add_times_succ, Meaning.cost_times_succ]

/-- A command that is no loop is got past by one invocation. -/
theorem runFrom?_of_not_loop (hcommand : p.get? i = some command)
    (hkind : kind command.name ≠ .loop) (hstop : stop? strict i command.toLine = none)
    (previous : Meaning) (fuel : Nat) :
    (engine strict settings).runFrom? p ((Meaning.ofLine previous command.toLine).cost + fuel) i
        log s =
      (engine strict settings).goPast? p fuel (i + 1)
        (passLog log command (Meaning.ofLine previous command.toLine).cost)
        (s.add (Meaning.ofLine previous command.toLine)) := by
  have hid : command.id = i := Program.id_of_get? hcommand
  cases hcase : kind command.name with
  | abort => simp [stop?, hcase] at hstop
  | switch => simp [stop?, hcase] at hstop
  | loop => exact absurd hcase hkind
  | print =>
      have hmeaning : Meaning.ofLine previous command.toLine = ⟨[echoText command.args], 0, 1⟩ := by
        simp [Meaning.ofLine, hcase]
      have hadd : s.add ⟨[echoText command.args], 0, 1⟩ = s.print (echoText command.args) := by
        simp [Session.add, Session.print]
      rw [hmeaning, hadd, Nat.add_comm]
      exact Engine.runFrom?_of_next fuel hid (step_print hcommand hcase)
  | other =>
      have hstrict : strict = false := by simpa [stop?, hcase] using hstop
      have hmeaning : Meaning.ofLine previous command.toLine = ⟨[], 1, 1⟩ := by
        simp [Meaning.ofLine, hcase]
      have hadd : s.add ⟨[], 1, 1⟩ = { s with skipped := s.skipped + 1 } := by
        simp [Session.add]
      rw [hmeaning, hadd, Nat.add_comm]
      exact Engine.runFrom?_of_next fuel hid (step_other hcommand hcase hstrict)

/-- A run gets past every command that nothing stops it at or before, and has then done what the
command means. The induction is on the place, since a loop jumps to the command before it. -/
theorem runFrom?_pass {meaning : Meaning}
    (hcommand : p.get? i = some command)
    (hmeaning : (meanings .nothing p.lines)[i]? = some meaning)
    (hopen : ∀ j other, j ≤ i → p.get? j = some other → stop? strict j other.toLine = none)
    (hwarned : WarnedBefore p log i) (hbehind : s.ArmedBehind i) (fuel : Nat) :
    (engine strict settings).runFrom? p (meaning.cost + fuel) i log s =
      (engine strict settings).goPast? p fuel (i + 1)
        (passLog log command meaning.cost) (s.add meaning) := by
  induction i generalizing command meaning log s fuel with
  | zero =>
      obtain ⟨previous, rfl, -⟩ := exists_previous hmeaning (Program.line_of_get? hcommand)
      have hstop := hopen 0 command (Nat.le_refl 0) hcommand
      have hkind : kind command.name ≠ .loop := by
        intro hkind
        exact (exists_count hkind hstop).1 rfl
      exact runFrom?_of_not_loop hcommand hkind hstop previous fuel
  | succ j ih =>
      obtain ⟨previous, rfl, hprevious⟩ := exists_previous hmeaning (Program.line_of_get? hcommand)
      have hstop := hopen (j + 1) command (Nat.le_refl (j + 1)) hcommand
      by_cases hkind : kind command.name = .loop
      · obtain ⟨-, count, hcount⟩ := exists_count hkind hstop
        have hlt : j < p.size := Nat.lt_of_succ_lt (Program.lt_of_get? hcommand)
        obtain ⟨before, hbefore⟩ := Program.exists_get? hlt
        have hpass (log : RunLog) (s : Session) (fuel : Nat) (hwarned : WarnedBefore p log j)
            (hbehind : s.ArmedBehind j) :=
          ih hbefore (hprevious j rfl) (fun id other hle => hopen id other (Nat.le_succ_of_le hle))
            hwarned hbehind fuel
        have hleft : (s.remaining? (j + 1)).getD count = count := by
          rw [Session.remaining?_of_armedBehind hbehind]
          rfl
        rw [ofLine_of_loop previous hkind hcount]
        exact runFrom?_loop hcommand hkind hcount hbefore hpass count s hwarned hbehind hleft
          (Session.disarm_of_armedBehind hbehind) fuel
      · exact runFrom?_of_not_loop hcommand hkind hstop previous fuel

/-! ### Getting to a place -/

/-- The log of a run that has got past the commands before a place, each for the first time. -/
structure HasPassed (p : Program) (k : Nat) (log : RunLog) : Prop where
  warnings : log.warnings = deprecations (p.commands.take k)
  warned : WarnedBefore p log k
  warned_lt : ∀ id ∈ log.warned, id < k
  invocations : log.invocations = .ofNat (meaningBefore p k).cost
  last : log.last = if k = 0 then none else some (k - 1)

theorem hasPassed_empty (p : Program) : HasPassed p 0 .empty where
  warnings := rfl
  warned := fun _ _ hlt => absurd hlt (Nat.not_lt_zero _)
  warned_lt := fun _ hmem => absurd hmem List.not_mem_nil
  invocations := rfl
  last := rfl

theorem deprecations_concat (commands : List Command) (command : Command) :
    deprecations (commands ++ [command]) =
      if isDeprecated command.name then
        deprecations commands ++ [.warning .deprecatedCommand command.pos
          ("command `" ++ command.name.lossy ++ "` is deprecated")]
      else deprecations commands := by
  unfold deprecations
  cases hdeprecated : isDeprecated command.name with
  | false => simp [hdeprecated]
  | true => simp [hdeprecated]

theorem take_succ_of_getElem? {α : Type} {list : List α} {k : Nat} {a : α} (h : list[k]? = some a) :
    list.take (k + 1) = list.take k ++ [a] := by
  rw [List.take_add_one, h]
  rfl

/-- Getting past one more command keeps the log in order. -/
theorem HasPassed.passLog {meaning : Meaning} (h : HasPassed p i log)
    (hcommand : p.get? i = some command)
    (hmeaning : (meanings .nothing p.lines)[i]? = some meaning) :
    HasPassed p (i + 1) (passLog log command meaning.cost) := by
  have hcommands : p.commands[i]? = some command := (Program.commands_getElem? p i).trans hcommand
  have hid : command.id = i := Program.id_of_get? hcommand
  have hnew : command.id ∉ log.warned := by
    intro hmem
    have hlt := h.warned_lt command.id hmem
    rw [hid] at hlt
    exact Nat.lt_irrefl i hlt
  refine ⟨?_, h.warned.passLog hcommand meaning.cost, ?_, ?_, ?_⟩
  · rw [take_succ_of_getElem? hcommands, deprecations_concat, ← h.warnings]
    unfold Demo.passLog
    split
    · rw [RunLog.warn_of_notMem hnew]
    · rfl
  · intro id hmem
    unfold Demo.passLog at hmem
    split at hmem
    · rcases RunLog.mem_warned_warn.mp hmem with rfl | hmem
      · rw [hid]
        exact Nat.lt_succ_self i
      · exact Nat.lt_succ_of_lt (h.warned_lt id hmem)
    · exact Nat.lt_succ_of_lt (h.warned_lt id hmem)
  · rw [invocations_passLog, h.invocations, meaningBefore_succ hmeaning, Meaning.andThen,
      UInt64.ofNat_add]
  · simp [Demo.passLog, hid]

/-- A run gets to any place that nothing stops it before, in as many steps as it costs. -/
theorem exists_hasPassed (settings : RunSettings) {k : Nat} (hk : k ≤ p.size) (hsize : 0 < p.size)
    (hopen : ∀ j other, j < k → p.get? j = some other → stop? strict j other.toLine = none) :
    ∃ log, HasPassed p k log ∧ ∀ fuel,
      (engine strict settings).runFrom? p ((meaningBefore p k).cost + fuel) 0 .empty .empty =
        (engine strict settings).goPast? p fuel k log (.ofMeaning (meaningBefore p k)) := by
  induction k with
  | zero =>
      refine ⟨.empty, hasPassed_empty p, ?_⟩
      intro fuel
      rw [Engine.goPast?_of_lt _ hsize]
      simp [Session.ofMeaning, meaningBefore, Meaning.total, Session.empty]
  | succ k ih =>
      have hlt : k < p.size := hk
      obtain ⟨log, hlog, hrun⟩ := ih (Nat.le_of_lt hlt)
        (fun j other hj => hopen j other (Nat.lt_succ_of_lt hj))
      obtain ⟨command, hcommand⟩ := Program.exists_get? hlt
      have hlength : k < (meanings .nothing p.lines).length := by
        rw [length_meanings]
        exact hlt
      have hmeaning := List.getElem?_eq_getElem hlength
      have hnext := hlog.passLog hcommand hmeaning
      refine ⟨_, hnext, ?_⟩
      intro fuel
      have hbehind : (Session.ofMeaning (meaningBefore p k)).ArmedBehind k := by
        intro entry hentry
        exact absurd hentry List.not_mem_nil
      have hopen' : ∀ j other, j ≤ k → p.get? j = some other → stop? strict j other.toLine = none :=
        fun j other hj => hopen j other (Nat.lt_succ_of_le hj)
      have hcost : (meaningBefore p (k + 1)).cost + fuel =
          (meaningBefore p k).cost + ((meanings .nothing p.lines)[k].cost + fuel) := by
        rw [meaningBefore_succ hmeaning, Meaning.andThen, Nat.add_assoc]
      rw [hcost, hrun, Engine.goPast?_of_lt _ hlt,
        runFrom?_pass hcommand hmeaning hopen' hlog.warned hbehind fuel,
        meaningBefore_succ hmeaning, Session.ofMeaning_andThen]

theorem foldr_add_one (counts : List Nat) : counts.foldr (· + ·) 1 = counts.sum + 1 := by
  induction counts with
  | nil => rfl
  | cons count counts ih => rw [List.foldr_cons, ih, List.sum_cons, Nat.add_assoc]

/-- The steps allowed are enough to get to any place and to act on it. -/
theorem exists_stepBound_eq (p : Program) (k : Nat) :
    ∃ rest, stepBound p = (meaningBefore p k).cost + (rest + 1) := by
  refine ⟨(((meanings .nothing p.lines).drop k).map Meaning.cost).sum, ?_⟩
  have hcosts : (meanings .nothing p.lines).map Meaning.cost = costs 0 p.lines :=
    costs_eq .nothing p.lines
  have hsplit := List.take_append_drop k (meanings .nothing p.lines)
  rw [← hsplit, List.map_append] at hcosts
  rw [stepBound, foldr_add_one, meaningBefore, Meaning.total, ← Nat.add_assoc, ← List.sum_append,
    hcosts]

/-- A run gets to the place that stops it, with a step left to act on it. -/
theorem exists_passed (strict : Bool) (settings : RunSettings) (hsize : 0 < p.size) (extra : Nat) :
    ∃ log rest, HasPassed p (stopIndex strict p) log ∧
      (engine strict settings).run? (stepBound p + extra) p .empty =
        (engine strict settings).goPast? p (rest + 1) (stopIndex strict p) log
          (.ofMeaning (meaningBefore p (stopIndex strict p))) := by
  have hhead : p.head? = some 0 := by
    have hlines : p.lines ≠ [] := List.length_pos_iff.mp hsize
    simp [Program.head?, hlines]
  obtain ⟨log, hlog, hrun⟩ := exists_hasPassed settings (stopIndex_le strict p) hsize
    (fun j other hj hother => stop?_of_lt_stopIndex hj hother)
  obtain ⟨rest, hbound⟩ := exists_stepBound_eq p (stopIndex strict p)
  refine ⟨log, rest + extra, hlog, ?_⟩
  rw [Engine.run?, hhead, hbound, Nat.add_assoc, Nat.add_right_comm rest 1 extra]
  exact hrun (rest + extra + 1)

end CommandScript.Demo
