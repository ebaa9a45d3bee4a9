import CommandScript.Run.Step

/-!
Runs in general: which handler a name finds, what the log of a run keeps of a command, and how a run
goes on where its handler asks for the next command.
-/

namespace CommandScript

namespace Program

variable {p : Program} {i : Nat} {command : Command}

theorem id_of_get? (hcommand : p.get? i = some command) : command.id = i := by
  obtain ⟨line, -, rfl⟩ := Option.map_eq_some_iff.mp hcommand
  rfl

theorem line_of_get? (hcommand : p.get? i = some command) : p.lines[i]? = some command.toLine := by
  obtain ⟨line, hline, rfl⟩ := Option.map_eq_some_iff.mp hcommand
  exact hline

theorem exists_get? (hlt : i < p.size) : ∃ command, p.get? i = some command :=
  ⟨_, Option.map_eq_some_iff.mpr ⟨_, List.getElem?_eq_getElem hlt, rfl⟩⟩

theorem lt_of_get? (hcommand : p.get? i = some command) : i < p.size := by
  obtain ⟨line, hline, -⟩ := Option.map_eq_some_iff.mp hcommand
  exact (List.getElem?_eq_some_iff.mp hline).1

theorem head?_eq_none_iff : p.head? = none ↔ p.size = 0 := by
  simp [head?, size]

theorem lt_of_head? (h : p.head? = some i) : i < p.size := by
  unfold head? at h
  split at h
  · cases h
  · rename_i hlines
    obtain rfl := Option.some.inj h
    exact List.length_pos_iff.mpr (by simpa using hlines)

theorem commands_getElem? (p : Program) (i : Nat) : p.commands[i]? = p.get? i := by
  rw [Program.commands, List.getElem?_map, List.getElem?_zipIdx, Option.map_map, Nat.zero_add]
  rfl

end Program

namespace Language

variable {σ π : Type}

/-- The first route in use that accepts the name gives the handler, else the fallback does. -/
theorem handlerFor?_eq_find? (language : Language σ π) (name : Part) :
    language.handlerFor? name =
      match language.routes.find? (·.accepts name) with
      | some route => some (route.handler, route.lifecycle == .deprecated)
      | none => language.fallback.map fun handler => (handler, false) := by
  have hfind : language.routes.find? (·.accepts name) =
      (language.routes.findIdx? (·.accepts name)).bind fun index => language.routes[index]? :=
    List.find?_eq_bind_findIdx?_getElem?
  rw [handlerFor?, resolve, hfind]
  cases hindex : language.routes.findIdx? (·.accepts name) with
  | none =>
      cases hfallback : language.fallback with
      | none => rfl
      | some handler => simp [handlerAt?, hfallback]
  | some index =>
      obtain ⟨hlt, -⟩ := List.findIdx?_eq_some_iff_getElem.mp hindex
      simp [handlerAt?, List.getElem?_eq_getElem hlt]

/-- Where a name is found only depends on which routes accept it and on whether there is a
fallback. -/
theorem resolve_congr {language other : Language σ π} {a b : Part}
    (haccepts : language.routes.map (·.accepts a) = other.routes.map (·.accepts b))
    (hfallback : language.fallback.isSome = other.fallback.isSome) :
    language.resolve a = other.resolve b := by
  have hindex : language.routes.findIdx? (·.accepts a) = other.routes.findIdx? (·.accepts b) := by
    have hfound := congrArg (List.findIdx? fun found => found) haccepts
    rw [List.findIdx?_map, List.findIdx?_map] at hfound
    exact hfound
  rw [resolve, resolve, hindex, hfallback]

end Language

namespace RunLog

variable {log : RunLog} {command : Command}

theorem warn_of_mem (hmem : command.id ∈ log.warned) : log.warn command = log := by
  simp [warn, hmem]

theorem warn_of_notMem (hmem : command.id ∉ log.warned) :
    log.warn command = { log with
      warnings := log.warnings ++ [.warning .deprecatedCommand command.pos
        ("command `" ++ command.name.lossy ++ "` is deprecated")]
      warned := command.id :: log.warned } := by
  simp [warn, hmem]

/-- A warning does not depend on the command that was reached. -/
theorem warn_reach (log : RunLog) (reached command : Command) :
    (log.reach reached).warn command = (log.warn command).reach reached := by
  by_cases hmem : command.id ∈ log.warned
  · rw [warn_of_mem hmem]
    exact warn_of_mem hmem
  · rw [warn_of_notMem hmem]
    exact warn_of_notMem hmem

/-- A deprecated command that had its warning is invoked like any other. -/
theorem invoke_of_mem (hmem : command.id ∈ log.warned) :
    log.invoke command true = log.invoke command false := by
  rw [invoke, if_pos rfl, warn_reach, warn_of_mem hmem]
  rfl

theorem invoke_of_notMem (hmem : command.id ∉ log.warned) :
    log.invoke command true = { log.invoke command false with
      warnings := log.warnings ++ [.warning .deprecatedCommand command.pos
        ("command `" ++ command.name.lossy ++ "` is deprecated")]
      warned := command.id :: log.warned } := by
  rw [invoke, if_pos rfl, warn_reach, warn_of_notMem hmem]
  rfl

theorem invocations_warn (log : RunLog) (command : Command) :
    (log.warn command).invocations = log.invocations := by
  unfold warn
  split <;> rfl

theorem mem_warned_warn {id : CommandId} :
    id ∈ (log.warn command).warned ↔ id = command.id ∨ id ∈ log.warned := by
  by_cases hmem : command.id ∈ log.warned
  · rw [warn_of_mem hmem]
    constructor
    · exact Or.inr
    · rintro (rfl | hid)
      · exact hmem
      · exact hid
  · rw [warn_of_notMem hmem]
    exact List.mem_cons

end RunLog

namespace Engine

variable {σ π : Type} {engine : Engine σ π} {p : Program} {id : CommandId} {command : Command}

/-- A run that has got past a command: it is at the next place, or it has come to the end. -/
def goPast? (engine : Engine σ π) (p : Program) (steps : Nat) (id : CommandId) (log : RunLog)
    (context : σ) : Option (Outcome π × σ) :=
  if id < p.size then engine.runFrom? p steps id log context
  else some (.ok (log.summary .handler), context)

theorem goPast?_of_lt (steps : Nat) {log : RunLog} {context : σ} (hid : id < p.size) :
    engine.goPast? p steps id log context = engine.runFrom? p steps id log context :=
  if_pos hid

/-- A handler that asks for the next command gets a run past its own. -/
theorem runFrom?_of_next (steps : Nat) {log after : RunLog} {context changed : σ}
    (hid : command.id = id)
    (hstep : engine.step p id log context =
      engine.follow command after (.next p command, changed)) :
    engine.runFrom? p (steps + 1) id log context =
      engine.goPast? p steps (id + 1) after changed := by
  rw [runFrom?, hstep, goPast?, Flow.next, Program.next?, hid]
  by_cases hlt : id + 1 < p.size
  · simp [hlt, Flow.ofNext?, follow]
  · simp [hlt, Flow.ofNext?, follow]

theorem runFrom?_of_goOn (steps : Nat) {next : CommandId} {log after : RunLog}
    {context changed : σ} (hstep : engine.step p id log context = .goOn next after changed) :
    engine.runFrom? p (steps + 1) id log context = engine.runFrom? p steps next after changed := by
  rw [runFrom?, hstep]

theorem runFrom?_of_ended (steps : Nat) {log : RunLog} {outcome : Outcome π} {context changed : σ}
    (hstep : engine.step p id log context = .ended outcome changed) :
    engine.runFrom? p (steps + 1) id log context = some (outcome, changed) := by
  rw [runFrom?, hstep]

end Engine

end CommandScript
