import CommandScript.Proofs.Outcome
import Mathlib.Data.List.Perm.Subperm

/-!
Languages that only go forward. Where every handler ends the run or asks for a later command, the
place a run has reached grows with each step. Then no command is dispatched twice, and the run ends
within as many invocations as its program has commands. Where every handler asks for the next
command, the commands are dispatched one by one up to the first that no handler takes.
-/

namespace CommandScript

variable {σ π : Type}

namespace Program

variable {p : Program} {i : Nat}

theorem eq_zero_of_head? (h : p.head? = some i) : i = 0 := by
  unfold head? at h
  split at h
  · cases h
  · exact (Option.some.inj h).symm

theorem last?_of_size (h : p.size = i + 1) : p.last? = some i := by
  have hne : p.lines ≠ [] := List.ne_nil_of_length_eq_add_one h
  simp [last?, hne, h]

end Program

/-- Whatever it is given, the handler ends the run or asks for a command behind its own. -/
def Handler.ForwardOnly (handler : Handler σ π) : Prop :=
  ∀ p context command next, (handler p context command).1 = .proceed next → command.id < next

/-- Whatever it is given, the handler asks for the next command. -/
def Handler.AlwaysNext (handler : Handler σ π) : Prop :=
  ∀ p context command, (handler p context command).1 = .next p command

namespace Language

variable {language : Language σ π} {name : Part}

/-- The property holds of the handlers of all routes, whatever their lifecycle, and of the
fallback. -/
structure AllHandlers (P : Handler σ π → Prop) (language : Language σ π) : Prop where
  routes : ∀ route ∈ language.routes, P route.handler
  fallback : ∀ handler ∈ language.fallback, P handler

theorem AllHandlers.of_gives {P : Handler σ π → Prop} {entry : Resolution} {handler : Handler σ π}
    (h : language.AllHandlers P) (hgives : language.Gives name entry handler) : P handler := by
  cases hgives with
  | route hroute htakes hfirst => exact h.routes _ (List.mem_of_getElem? hroute)
  | fallback hnone hfallback => exact h.fallback handler hfallback

theorem AllHandlers.of_handlerFor? {P : Handler σ π → Prop} {handler : Handler σ π}
    {isDeprecated : Bool} (h : language.AllHandlers P)
    (hfound : language.handlerFor? name = some (handler, isDeprecated)) : P handler :=
  h.of_gives (gives_of_handlerFor? hfound)

/-- A name is unknown where the language has no handler for it. -/
theorem resolve_eq_unknown_iff :
    language.resolve name = .unknown ↔ language.handlerFor? name = none := by
  constructor
  · intro h
    rw [handlerFor?, h]
    rfl
  · intro h
    obtain ⟨hroutes, hfallback⟩ := not_takes_of_handlerFor? h
    have hnone : language.routes.findIdx? (·.accepts name) = none := by
      rw [List.findIdx?_eq_none_iff]
      intro route hroute
      exact Bool.eq_false_iff.mpr (mt Route.accepts_iff.mp (hroutes route hroute))
    rw [resolve, hnone, hfallback]
    rfl

/-- True for the commands that no handler of the language is invoked for. -/
def stops (language : Language σ π) (command : Command) : Bool :=
  command.name.text == abortName || command.name.text == languageName ||
    language.resolve command.name == .unknown

theorem stops_iff {command : Command} :
    language.stops command = true ↔ command.name.text = abortName ∨
      command.name.text = languageName ∨ language.handlerFor? command.name = none := by
  simp [stops, resolve_eq_unknown_iff, or_assoc]

end Language

/-! ### Called commands -/

namespace Event

/-- The command that an event called a handler for. -/
def calledId? : Event σ π → Option CommandId
  | .invoke command _ _ _ _ => some command.id
  | _ => none

/-- The commands that events called handlers for, in order. -/
def calledIds (events : List (Event σ π)) : List CommandId :=
  events.filterMap calledId?

theorem calledIds_singleton (event : Event σ π) : calledIds [event] = event.calledId?.toList := by
  unfold calledIds
  cases h : event.calledId? with
  | none => rw [List.filterMap_cons_none h]; rfl
  | some id => rw [List.filterMap_cons_some h]; rfl

theorem calledIds_cons (event : Event σ π) (events : List (Event σ π)) :
    calledIds (event :: events) = event.calledId?.toList ++ calledIds events := by
  rw [← List.singleton_append, calledIds, List.filterMap_append]
  exact congrArg (· ++ _) (calledIds_singleton event)

theorem length_calledIds (events : List (Event σ π)) :
    (calledIds events).length = calls events := by
  have hisSome : (fun event : Event σ π => event.calledId?.isSome) = isCall := by
    funext event
    cases event <;> rfl
  rw [calledIds, List.length_filterMap_eq_countP, hisSome, calls]

end Event

namespace Engine

variable {engine : Engine σ π} {p : Program} {id next : Nat} {command : Command} {context : σ}

/-- The event of a place that a run goes on from, or that calls a handler, is the invocation of a
handler of the language for the command there. -/
theorem invoke_of_event (h : (engine.event p id context).next? ≠ none ∨
      (engine.event p id context).calledId? ≠ none) :
    ∃ command handler isDeprecated, p.get? id = some command ∧
      engine.language.stops command = false ∧
      engine.language.handlerFor? command.name = some (handler, isDeprecated) ∧
      (engine.event p id context).calledId? = some id ∧
      (engine.event p id context).next? = (handler p context command).1.target? := by
  have hmeets := engine.meets_visit p id
  unfold event at h ⊢
  generalize engine.visit p id = visit at hmeets h ⊢
  cases hmeets with
  | @invoke command handler isDeprecated hcommand habort hswitch hhandler =>
      have hgoes : engine.language.stops command = false := by
        rw [Bool.eq_false_iff, ne_eq, Language.stops_iff]
        simp [habort, hswitch, hhandler]
      exact ⟨command, handler, isDeprecated, hcommand, hgoes, hhandler,
        congrArg some (Program.id_of_get? hcommand), rfl⟩
  | outside => simp [Event.next?, Event.calledId?] at h
  | abort => simp [Event.next?, Event.calledId?] at h
  | switch => simp [Event.next?, Event.calledId?] at h
  | unknown => simp [Event.next?, Event.calledId?] at h

/-- A run goes on from places of the program only, and to later places. -/
theorem lt_of_next? (hforward : engine.language.AllHandlers Handler.ForwardOnly)
    (h : (engine.event p id context).next? = some next) : id < p.size ∧ id < next := by
  obtain ⟨command, handler, isDeprecated, hcommand, -, hhandler, -, htarget⟩ :=
    invoke_of_event (Or.inl (Option.ne_none_iff_exists'.mpr ⟨next, h⟩))
  refine ⟨Program.lt_of_get? hcommand, ?_⟩
  rw [h] at htarget
  have hflow : (handler p context command).1 = .proceed next := by
    cases hanswer : (handler p context command).1 with
    | proceed target =>
        rw [hanswer] at htarget
        rw [Option.some.inj htarget]
    | halt => simp [hanswer, Flow.target?] at htarget
    | fail d => simp [hanswer, Flow.target?] at htarget
  obtain rfl := Program.id_of_get? hcommand
  exact hforward.of_handlerFor? hhandler p context command next hflow

/-! ### Runs that only go forward -/

theorem calledId?_event {called : CommandId}
    (h : called ∈ (engine.event p id context).calledId?) : called = id ∧ id < p.size := by
  obtain ⟨command, -, -, hcommand, -, -, hcalled, -⟩ :=
    invoke_of_event (Or.inr (Option.ne_none_iff_exists'.mpr ⟨called, h⟩))
  exact ⟨Option.some.inj (h.symm.trans hcalled), Program.lt_of_get? hcommand⟩

/-- From a place on, a run calls handlers for commands of the program from there on only, each time
for a later one. -/
theorem calledIds_historyFrom (hforward : engine.language.AllHandlers Handler.ForwardOnly)
    (steps id : Nat) (context : σ) :
    (Event.calledIds (engine.historyFrom p steps id context)).Pairwise (· < ·) ∧
      ∀ called ∈ Event.calledIds (engine.historyFrom p steps id context),
        id ≤ called ∧ called < p.size := by
  induction steps generalizing id context with
  | zero => exact ⟨List.Pairwise.nil, fun called hcalled => nomatch hcalled⟩
  | succ steps ih =>
      have hfirst (called : CommandId) (h : called ∈ (engine.event p id context).calledId?.toList) :
          called = id ∧ id < p.size := calledId?_event (Option.mem_toList.mp h)
      have hsingle : (engine.event p id context).calledId?.toList.Pairwise (· < ·) := by
        cases (engine.event p id context).calledId? with
        | none => exact List.Pairwise.nil
        | some called => exact List.pairwise_singleton _ called
      cases hnext : (engine.event p id context).next? with
      | none =>
          rw [historyFrom_of_next?_eq_none steps hnext, Event.calledIds_singleton]
          refine ⟨hsingle, ?_⟩
          intro called hcalled
          obtain ⟨rfl, hlt⟩ := hfirst called hcalled
          exact ⟨Nat.le_refl _, hlt⟩
      | some next =>
          obtain ⟨hid, hlt⟩ := lt_of_next? hforward hnext
          obtain ⟨hpairwise, hbounds⟩ := ih next ((engine.event p id context).leaves context)
          rw [historyFrom_of_next? steps hnext, Event.calledIds_cons]
          refine ⟨List.pairwise_append.mpr ⟨hsingle, hpairwise, ?_⟩, ?_⟩
          · intro called hcalled later hlater
            obtain ⟨rfl, -⟩ := hfirst called hcalled
            exact Nat.lt_of_lt_of_le hlt (hbounds later hlater).1
          · intro called hcalled
            rcases List.mem_append.mp hcalled with hcalled | hcalled
            · obtain ⟨rfl, -⟩ := hfirst called hcalled
              exact ⟨Nat.le_refl _, hid⟩
            · obtain ⟨hle, hsize⟩ := hbounds called hcalled
              exact ⟨Nat.le_trans (Nat.le_of_lt hlt) hle, hsize⟩

/-- A run ends, because the commands ahead of it become fewer with each step. -/
theorem exists_runFrom?_of_forwardOnly
    (hforward : engine.language.AllHandlers Handler.ForwardOnly) {steps id : Nat}
    (hsteps : p.size - id < steps) (log : RunLog) (context : σ) :
    ∃ ended, engine.runFrom? p steps id log context = some ended := by
  induction steps generalizing id log context with
  | zero => exact absurd hsteps (Nat.not_lt_zero _)
  | succ steps ih =>
      cases hnext : (engine.event p id context).next? with
      | none =>
          obtain ⟨outcome, hstep⟩ := step_of_next?_eq_none log hnext
          exact ⟨_, runFrom?_of_ended steps hstep⟩
      | some next =>
          obtain ⟨after, hstep⟩ := step_of_next? log hnext
          obtain ⟨hid, hlt⟩ := lt_of_next? hforward hnext
          rw [runFrom?_of_goOn steps hstep]
          exact ih (by omega) after _

theorem exists_run?_of_forwardOnly (hforward : engine.language.AllHandlers Handler.ForwardOnly)
    {steps : Nat} (hsteps : p.size < steps) (context : σ) :
    ∃ outcome final, engine.run? steps p context = some (outcome, final) := by
  unfold run?
  cases p.head? with
  | none => exact ⟨_, _, rfl⟩
  | some id =>
      obtain ⟨⟨outcome, final⟩, hended⟩ :=
        exists_runFrom?_of_forwardOnly hforward
          (Nat.lt_of_le_of_lt (Nat.sub_le p.size id) hsteps) .empty context
      exact ⟨outcome, final, hended⟩

/-- Increasing ids of a program are at most as many as its commands. -/
theorem calls_history_le (hforward : engine.language.AllHandlers Handler.ForwardOnly)
    (steps : Nat) (p : Program) (context : σ) :
    (Event.calledIds (engine.history steps p context)).Pairwise (· < ·) ∧
      Event.calls (engine.history steps p context) ≤ p.size := by
  unfold history
  cases p.head? with
  | none => exact ⟨List.Pairwise.nil, Nat.zero_le _⟩
  | some id =>
      dsimp only
      obtain ⟨hpairwise, hbounds⟩ := calledIds_historyFrom (p := p) hforward steps id context
      refine ⟨hpairwise, ?_⟩
      have hnodup : (Event.calledIds (engine.historyFrom p steps id context)).Nodup :=
        hpairwise.imp Nat.ne_of_lt
      have hsubset : Event.calledIds (engine.historyFrom p steps id context) ⊆
          List.range p.size :=
        fun called hcalled => List.mem_range.mpr (hbounds called hcalled).2
      rw [← Event.length_calledIds]
      simpa using (hnodup.subperm hsubset).length_le

/-! ### Runs from one command to the next -/

end Engine

theorem Handler.AlwaysNext.forwardOnly {handler : Handler σ π} (h : Handler.AlwaysNext handler) :
    Handler.ForwardOnly handler := by
  intro p context command next hflow
  rw [h p context command, Flow.next, Program.next?] at hflow
  split at hflow
  · cases hflow
    exact Nat.lt_succ_self _
  · cases hflow

/-- The place of the first command that no handler is invoked for, or the number of commands. -/
def Language.stopIndex (language : Language σ π) (p : Program) : Nat :=
  p.commands.findIdx language.stops

theorem Language.stopIndex_le (language : Language σ π) (p : Program) :
    language.stopIndex p ≤ p.size := by
  have hle : p.commands.findIdx language.stops ≤ p.commands.length := List.findIdx_le_length
  simpa [Program.commands, Program.size, stopIndex] using hle

theorem Language.stops_of_lt_stopIndex {language : Language σ π} {p : Program} {i : Nat}
    {command : Command} (hi : i < language.stopIndex p) (hcommand : p.get? i = some command) :
    language.stops command = false := by
  rw [← Program.commands_getElem?] at hcommand
  obtain ⟨hlt, rfl⟩ := List.getElem?_eq_some_iff.mp hcommand
  exact List.not_of_lt_findIdx hi

theorem Language.stops_of_stopIndex {language : Language σ π} {p : Program}
    {command : Command} (hcommand : p.get? (language.stopIndex p) = some command) :
    language.stops command = true := by
  rw [← Program.commands_getElem?] at hcommand
  obtain ⟨hlt, rfl⟩ := List.getElem?_eq_some_iff.mp hcommand
  exact List.findIdx_getElem

namespace Engine

variable {engine : Engine σ π} {p : Program} {id : Nat} {command : Command} {context : σ}

theorem visit_of_not_stops (hcommand : p.get? id = some command)
    (hstops : engine.language.stops command = false) :
    ∃ handler isDeprecated, engine.visit p id = .invoke command handler isDeprecated ∧
      engine.language.handlerFor? command.name = some (handler, isDeprecated) := by
  have hgoes := mt Language.stops_iff.mpr (Bool.eq_false_iff.mp hstops)
  obtain ⟨habort, hswitch, hhandler⟩ := by simpa only [not_or] using hgoes
  obtain ⟨⟨handler, isDeprecated⟩, hfound⟩ := Option.ne_none_iff_exists'.mp hhandler
  refine ⟨handler, isDeprecated, ?_, hfound⟩
  simp [visit, hcommand, habort, hswitch, hfound]

/-- A command that stops a run calls no handler. -/
theorem event_of_stops (hcommand : p.get? id = some command)
    (hstops : engine.language.stops command = true) (context : σ) :
    (engine.event p id context).calledId? = none ∧ (engine.event p id context).next? = none := by
  have hnone : ¬ ((engine.event p id context).next? ≠ none ∨
      (engine.event p id context).calledId? ≠ none) := by
    intro hcalls
    obtain ⟨found, -, -, hfound, hgoes, -⟩ := invoke_of_event hcalls
    obtain rfl := Option.some.inj (hfound.symm.trans hcommand)
    exact absurd (hstops.symm.trans hgoes) (by decide)
  simpa [and_comm] using hnone

/-- Any other command calls its handler, and the run goes on to the next one. -/
theorem event_of_alwaysNext (hnext : engine.language.AllHandlers Handler.AlwaysNext)
    (hcommand : p.get? id = some command) (hstops : engine.language.stops command = false)
    (context : σ) :
    (engine.event p id context).calledId? = some id ∧
      (engine.event p id context).next? = p.next? id := by
  obtain ⟨handler, isDeprecated, hvisit, hhandler⟩ := visit_of_not_stops hcommand hstops
  have hflow := hnext.of_handlerFor? hhandler p context command
  obtain rfl := Program.id_of_get? hcommand
  unfold event
  rw [hvisit]
  refine ⟨rfl, ?_⟩
  show (handler p context command).1.target? = p.next? command.id
  rw [hflow, Flow.next]
  cases p.next? command.id with
  | none => rfl
  | some target => rfl

theorem step_of_alwaysNext (hnext : engine.language.AllHandlers Handler.AlwaysNext)
    (hcommand : p.get? id = some command) (hstops : engine.language.stops command = false)
    (log : RunLog) (context : σ) :
    ∃ isDeprecated changed, engine.step p id log context =
      engine.follow command (log.invoke command isDeprecated) (.next p command, changed) := by
  obtain ⟨handler, isDeprecated, hvisit, hhandler⟩ := visit_of_not_stops hcommand hstops
  refine ⟨isDeprecated, (handler p context command).2, ?_⟩
  rw [← hnext.of_handlerFor? hhandler p context command, step, hvisit]

/-- The commands from a place on are called one by one up to the first that stops the run. -/
theorem calledIds_of_alwaysNext (hnext : engine.language.AllHandlers Handler.AlwaysNext)
    {steps : Nat} (hsize : id < p.size) (hid : id ≤ engine.language.stopIndex p)
    (hsteps : engine.language.stopIndex p - id < steps) :
    Event.calledIds (engine.historyFrom p steps id context) =
      List.range' id (engine.language.stopIndex p - id) := by
  induction steps generalizing id context with
  | zero => exact absurd hsteps (Nat.not_lt_zero _)
  | succ steps ih =>
      obtain ⟨command, hcommand⟩ := Program.exists_get? hsize
      rcases Nat.eq_or_lt_of_le hid with heq | hlt
      · have hstops : engine.language.stops command = true :=
          Language.stops_of_stopIndex (heq ▸ hcommand)
        obtain ⟨hcalled, hends⟩ := event_of_stops hcommand hstops context
        rw [historyFrom_of_next?_eq_none steps hends, Event.calledIds_singleton, hcalled, ← heq,
          Nat.sub_self]
        rfl
      · obtain ⟨hcalled, hgoes⟩ := event_of_alwaysNext hnext hcommand
          (Language.stops_of_lt_stopIndex hlt hcommand) context
        have hle := engine.language.stopIndex_le p
        have hrange : List.range' id (engine.language.stopIndex p - id) =
            id :: List.range' (id + 1) (engine.language.stopIndex p - (id + 1)) := by
          rw [← List.range'_succ]
          congr 1
          omega
        by_cases hbehind : id + 1 < p.size
        · rw [Program.next?, if_pos hbehind] at hgoes
          rw [historyFrom_of_next? steps hgoes, Event.calledIds_cons, hcalled, hrange,
            ih hbehind hlt (by omega)]
          rfl
        · rw [Program.next?, if_neg hbehind] at hgoes
          have hlast : engine.language.stopIndex p - (id + 1) = 0 := by omega
          rw [historyFrom_of_next?_eq_none steps hgoes, Event.calledIds_singleton, hcalled, hrange,
            hlast]
          rfl

/-- Where no command stops a run, it gets past the last one, with a call for each. -/
theorem goPast?_of_alwaysNext (hnext : engine.language.AllHandlers Handler.AlwaysNext)
    (hnone : engine.language.stopIndex p = p.size) {steps : Nat} (hsteps : p.size - id ≤ steps)
    (log : RunLog) (context : σ) :
    ∃ (after : RunLog) (final : σ), engine.goPast? p steps id log context =
        some (.ok (after.summary .handler), final) ∧
      after.invocations = log.invocations + .ofNat (p.size - id) ∧
      after.last = if id < p.size then p.last? else log.last := by
  -- Behind the last command nothing is invoked any more.
  have hbehind {log : RunLog} {id : CommandId} (hid : ¬ id < p.size) :
      log.invocations = log.invocations + .ofNat (p.size - id) := by
    rw [Nat.sub_eq_zero_of_le (Nat.le_of_not_lt hid)]
    exact (UInt64.add_zero _).symm
  induction steps generalizing id log context with
  | zero =>
      have hid : ¬ id < p.size := by omega
      rw [goPast?, if_neg hid, if_neg hid]
      exact ⟨log, context, rfl, hbehind hid, rfl⟩
  | succ steps ih =>
      by_cases hid : id < p.size
      · obtain ⟨command, hcommand⟩ := Program.exists_get? hid
        obtain ⟨isDeprecated, changed, hstep⟩ := step_of_alwaysNext hnext hcommand
          (Language.stops_of_lt_stopIndex (hnone ▸ hid) hcommand) log context
        obtain ⟨after, final, hended, hinvocations, hlast⟩ :=
          ih (show p.size - (id + 1) ≤ steps by omega) (log.invoke command isDeprecated) changed
        rw [goPast?_of_lt _ hid, runFrom?_of_next steps (Program.id_of_get? hcommand) hstep,
          if_pos hid]
        refine ⟨after, final, hended, ?_, ?_⟩
        · have hleft : p.size - id = p.size - (id + 1) + 1 := by omega
          rw [hinvocations, RunLog.invocations_invoke, hleft, UInt64.ofNat_add, UInt64.ofNat_one]
          ac_rfl
        · rw [hlast, RunLog.last_invoke, Program.id_of_get? hcommand]
          split
          · rfl
          · exact (Program.last?_of_size (by omega)).symm
      · rw [goPast?, if_neg hid, if_neg hid]
        exact ⟨log, context, rfl, hbehind hid, rfl⟩

/-- A run of a language that only goes forward ends. It invokes at most as many handlers as its
program has commands, each for a later command than the one before, so none is dispatched twice. If
all handlers ask for the next command, just the commands in front of the first one that is reserved
or unknown are dispatched, in order; and if there is no such command but some other, then the run
halts behind the last and has counted the commands, in 64 bits. -/
theorem run?_of_forwardOnly (engine : Engine σ π) (p : Program) (context : σ) {steps : Nat}
    (hforward : engine.language.AllHandlers Handler.ForwardOnly) (hsteps : p.size < steps) :
    (∃ outcome final, engine.run? steps p context = some (outcome, final)) ∧
      Event.calls (engine.history steps p context) ≤ p.size ∧
      (Event.calledIds (engine.history steps p context)).Pairwise (· < ·) ∧
      (Event.calledIds (engine.history steps p context)).Nodup ∧
      (engine.language.AllHandlers Handler.AlwaysNext →
        Event.calledIds (engine.history steps p context) =
          List.range (engine.language.stopIndex p) ∧
        (engine.language.stopIndex p = p.size → 0 < p.size →
          ∃ summary final, engine.run? steps p context = some (.ok summary, final) ∧
            summary.halt = .handler ∧ summary.last = p.last? ∧
            summary.invocations = .ofNat p.size ∧
            (p.size < UInt64.size → summary.invocations.toNat = p.size))) := by
  obtain ⟨hpairwise, hcalls⟩ := calls_history_le hforward steps p context
  refine ⟨exists_run?_of_forwardOnly hforward hsteps context, hcalls, hpairwise,
    hpairwise.imp Nat.ne_of_lt, ?_⟩
  intro hnext
  have hle := engine.language.stopIndex_le p
  unfold history run?
  cases hhead : p.head? with
  | none =>
      have hsize := Program.head?_eq_none_iff.mp hhead
      have hstop : engine.language.stopIndex p = 0 := by omega
      refine ⟨?_, fun _ hpositive => absurd hsize (Nat.ne_of_gt hpositive)⟩
      exact congrArg List.range hstop.symm
  | some id =>
      have hlt := Program.lt_of_head? hhead
      obtain rfl := Program.eq_zero_of_head? hhead
      refine ⟨?_, ?_⟩
      · rw [calledIds_of_alwaysNext hnext hlt (Nat.zero_le _) (by omega), Nat.sub_zero,
          List.range_eq_range']
      · intro hnone _
        obtain ⟨after, final, hended, hinvocations, hlast⟩ :=
          goPast?_of_alwaysNext hnext hnone (show p.size - 0 ≤ steps by omega) .empty context
        rw [goPast?_of_lt _ hlt] at hended
        rw [if_pos hlt] at hlast
        have hcount : (after.summary .handler).invocations = .ofNat p.size :=
          hinvocations.trans (UInt64.zero_add _)
        refine ⟨after.summary .handler, final, hended, rfl, hlast, hcount, ?_⟩
        intro hsize
        rw [hcount, UInt64.toNat_ofNat_of_lt' hsize]

/-- A deprecated route and a fallback that both count their calls, on a program that runs to its end
and on one with a reserved name in the middle. -/
theorem run?_of_forwardOnly_counting :
    let count : Handler Nat := fun p calls command => (.next p command, calls + 1)
    let engine : Engine Nat :=
      ⟨{ name := "count", routes := [(Route.exact "a" count).deprecated],
          fallback := some count }, {}⟩
    let a : Line := ⟨⟨"f", 1⟩, .owned [0x61] false, [], by decide⟩
    let b : Line := ⟨⟨"f", 2⟩, .owned [0x62] true, [], by decide⟩
    let stop : Line := ⟨⟨"f", 3⟩, .owned abortName true, [], by decide⟩
    (∃ summary final, engine.run? 3 ⟨[a, b]⟩ 7 = some (.ok summary, final) ∧
        summary.halt = .handler ∧ summary.last = some 1 ∧ summary.invocations.toNat = 2) ∧
      Event.calledIds (engine.history 4 ⟨[a, stop, b]⟩ 7) = [0] := by
  intro count engine a b stop
  have hnext : engine.language.AllHandlers Handler.AlwaysNext := by
    refine ⟨?_, ?_⟩
    · intro route hroute
      obtain rfl := List.mem_singleton.mp hroute
      exact fun p context command => rfl
    · rintro handler ⟨⟩
      exact fun p context command => rfl
  have hforward : engine.language.AllHandlers Handler.ForwardOnly :=
    ⟨fun route hroute => (hnext.routes route hroute).forwardOnly,
      fun handler hhandler => (hnext.fallback handler hhandler).forwardOnly⟩
  obtain ⟨-, -, -, -, hfull⟩ := run?_of_forwardOnly engine ⟨[a, b]⟩ 7 hforward
    (show Program.size ⟨[a, b]⟩ < 3 by decide)
  obtain ⟨-, -, -, -, hshort⟩ := run?_of_forwardOnly engine ⟨[a, stop, b]⟩ 7 hforward
    (show Program.size ⟨[a, stop, b]⟩ < 4 by decide)
  obtain ⟨summary, final, hrun, hhalt, hlast, -, hexact⟩ :=
    (hfull hnext).2 (by decide) (by decide)
  refine ⟨⟨summary, final, hrun, hhalt, hlast, hexact (by decide)⟩, ?_⟩
  rw [(hshort hnext).1]
  decide

end Engine

end CommandScript
