import CommandScript.Proofs.BoundedText
import CommandScript.Proofs.Dispatch
import Mathlib.Data.List.Induction

/-!
What a run returns. The log of a run is what the events so far have put into it, and the last event
says how the run ends: with which reason and command, or with which report and where. Every report
names an error and keeps within the capacity of the run.
-/

namespace CommandScript

theorem Code.isError_iff {code : Code} : code.isError = true ↔ code ≠ .noError := by
  cases code
  simp [isError, noError]

/-! ### What events put into the log -/

namespace Language

variable {σ π : Type} {language : Language σ π}

/-- True for an entry whose use is warned of. -/
def deprecates (language : Language σ π) : Resolution → Bool
  | .route index => language.routes[index]?.any (·.lifecycle == .deprecated)
  | _ => false

theorem deprecates_of_handlerAt? {entry : Resolution} {handler : Handler σ π} {isDeprecated : Bool}
    (h : language.handlerAt? entry = some (handler, isDeprecated)) :
    language.deprecates entry = isDeprecated := by
  cases entry with
  | route index =>
      obtain ⟨route, hroute, hpair⟩ := Option.map_eq_some_iff.mp h
      obtain ⟨-, rfl⟩ := Prod.mk.inj hpair
      simp [deprecates, hroute]
  | fallback =>
      obtain ⟨handler, -, hpair⟩ := Option.map_eq_some_iff.mp h
      exact (Prod.mk.inj hpair).2
  | unknown => cases h

end Language

namespace RunLog

variable {σ π : Type} {log : RunLog} {command : Command} {isDeprecated : Bool}

@[simp] theorem last_invoke : (log.invoke command isDeprecated).last = some command.id := by
  unfold invoke
  cases isDeprecated with
  | false => rfl
  | true => rw [if_pos rfl, warn_reach]; rfl

@[simp] theorem invocations_invoke :
    (log.invoke command isDeprecated).invocations = log.invocations + 1 := by
  unfold invoke
  cases isDeprecated with
  | false => rfl
  | true => rw [if_pos rfl, warn_reach]; exact congrArg (· + 1) (invocations_warn log command)

/-- The log with what an event puts into it. Events that end a run without a summary put nothing
there. -/
def record (language : Language σ π) (log : RunLog) : Event σ π → RunLog
  | .abort command => log.reach command
  | .invoke command entry _ _ _ => log.invoke command (language.deprecates entry)
  | _ => log

/-- The log behind the events of a run. -/
def behind (language : Language σ π) (events : List (Event σ π)) : RunLog :=
  events.foldl (record language) .empty

theorem behind_concat (language : Language σ π) (events : List (Event σ π)) (event : Event σ π) :
    behind language (events ++ [event]) = (behind language events).record language event := by
  rw [behind, List.foldl_append]
  rfl

end RunLog

namespace Event

variable {σ π : Type}

/-- True for an event that called a handler. -/
def isCall : Event σ π → Bool
  | .invoke .. => true
  | _ => false

/-- The number of handler calls among events. -/
def calls (events : List (Event σ π)) : Nat :=
  events.countP isCall

end Event

/-- A run counts its handler calls, in 64 bits. -/
theorem RunLog.invocations_behind {σ π : Type} (language : Language σ π)
    (events : List (Event σ π)) :
    (behind language events).invocations = .ofNat (Event.calls events) := by
  induction events using List.reverseRecOn with
  | nil => rfl
  | append_singleton events event ih =>
      rw [behind_concat, Event.calls, List.countP_append, ← Event.calls, UInt64.ofNat_add, ← ih]
      cases event with
      | invoke command entry start flow finish => exact invocations_invoke
      | _ => exact (UInt64.add_zero _).symm

/-! ### What a run does about an event -/

namespace Engine

variable {σ π : Type} {engine : Engine σ π} {p : Program} {id : CommandId} {context : σ}
  {steps : Nat}

/-- What a run does about an event, given its log and context before it. -/
def answer (engine : Engine σ π) (p : Program) (log : RunLog) (context : σ) :
    Event σ π → RunStep σ π
  | .outside id => .ended (.error (engine.outsideReport p log id)) context
  | .abort command => .ended (.ok ((log.reach command).summary .abort)) context
  | .switch command => .ended (.error (engine.switchReport command)) context
  | .unknown command => .ended (.error (engine.unknownReport command)) context
  | .invoke command entry _ flow finish =>
    engine.follow command (log.invoke command (engine.language.deprecates entry)) (flow, finish)

theorem step_eq_answer (engine : Engine σ π) (p : Program) (id : CommandId) (log : RunLog)
    (context : σ) :
    engine.step p id log context =
      engine.answer p log context (engine.event p id context) := by
  have hmeets := engine.meets_visit p id
  unfold step event
  generalize engine.visit p id = visit at hmeets ⊢
  cases hmeets with
  | outside hnone => rfl
  | abort hcommand hname => rfl
  | switch hcommand hname => rfl
  | unknown hcommand habort hswitch hnone => rfl
  | invoke hcommand habort hswitch hhandler =>
      dsimp only [answer]
      rw [Language.deprecates_of_handlerAt? hhandler]

/-- An event to go on at is put into the log; any other ends the run. -/
theorem answer_cases (engine : Engine σ π) (p : Program) (log : RunLog) (context : σ)
    (event : Event σ π) :
    match event.next? with
    | some next => engine.answer p log context event =
        .goOn next (log.record engine.language event) (event.leaves context)
    | none => ∃ outcome, engine.answer p log context event =
        .ended outcome (event.leaves context) := by
  cases event with
  | invoke command entry start flow finish =>
      cases flow with
      | proceed next => rfl
      | halt => exact ⟨_, rfl⟩
      | fail d => exact ⟨_, rfl⟩
  | _ => exact ⟨_, rfl⟩

theorem next?_of_answer {log : RunLog} {event : Event σ π} {outcome : Outcome π} {final : σ}
    (hanswer : engine.answer p log context event = .ended outcome final) : event.next? = none := by
  have hcases := answer_cases engine p log context event
  cases hnext : event.next? with
  | none => rfl
  | some next =>
      rw [hnext, hanswer] at hcases
      cases hcases

/-- A run that ends does so about its last event, with the log and the context behind the others.
The last event of a run that has not ended goes on. -/
theorem runFrom?_answer (engine : Engine σ π) (p : Program) (steps : Nat) (id : CommandId)
    (log : RunLog) (context : σ) :
    match engine.runFrom? p steps id log context with
    | some (outcome, final) => ∃ before event,
        engine.historyFrom p steps id context = before ++ [event] ∧
        engine.answer p (before.foldl (RunLog.record engine.language) log)
          (Event.contextBehind context before) event = .ended outcome final
    | none => ∀ event ∈ (engine.historyFrom p steps id context).getLast?, event.next? ≠ none := by
  induction steps generalizing id log context with
  | zero => simp [runFrom?, historyFrom]
  | succ steps ih =>
      have hcases := answer_cases engine p log context (engine.event p id context)
      have hstep := step_eq_answer engine p id log context
      cases hnext : (engine.event p id context).next? with
      | none =>
          rw [hnext] at hcases
          obtain ⟨outcome, hanswer⟩ := hcases
          rw [runFrom?_of_ended steps (hstep.trans hanswer),
            historyFrom_of_next?_eq_none steps hnext]
          exact ⟨[], _, rfl, hanswer⟩
      | some next =>
          rw [hnext] at hcases
          rw [runFrom?_of_goOn steps (hstep.trans hcases), historyFrom_of_next? steps hnext]
          have hrest := ih next (log.record engine.language (engine.event p id context))
            ((engine.event p id context).leaves context)
          generalize engine.runFrom? p steps next _ _ = result at hrest ⊢
          cases result with
          | some ended =>
              obtain ⟨before, event, hhistory, hanswer⟩ := hrest
              exact ⟨_ :: before, event, congrArg (_ :: ·) hhistory, hanswer⟩
          | none =>
              intro event hevent
              rw [List.getLast?_cons] at hevent
              cases hlast : (engine.historyFrom p steps next _).getLast? with
              | none =>
                  rw [hlast] at hevent
                  obtain rfl := Option.some.inj hevent
                  simp [hnext]
              | some last =>
                  rw [hlast] at hevent hrest
                  exact hrest event hevent

/-- A run without commands ends at once. Any other that ends does so about its last event. -/
theorem answer_of_run? {outcome : Outcome π} {final : σ}
    (h : engine.run? steps p context = some (outcome, final)) :
    (outcome = .ok (RunLog.empty.summary .empty) ∧ engine.history steps p context = []) ∨
    ∃ id before event, p.head? = some id ∧
      engine.history steps p context = engine.historyFrom p steps id context ∧
      engine.historyFrom p steps id context = before ++ [event] ∧
      engine.answer p (.behind engine.language before) (Event.contextBehind context before) event =
        .ended outcome final := by
  unfold run? history at *
  cases hhead : p.head? with
  | none =>
      rw [hhead] at h
      cases h
      exact Or.inl ⟨rfl, rfl⟩
  | some id =>
      rw [hhead] at h
      dsimp only at h ⊢
      have hanswer := runFrom?_answer engine p steps id .empty context
      rw [h] at hanswer
      obtain ⟨before, event, hhistory, hanswer⟩ := hanswer
      exact Or.inr ⟨id, before, event, rfl, rfl, hhistory, hanswer⟩

end Engine

/-! ### What the last event says -/

/-- A report of the engine's own: an error with this code at this position, and no payload. -/
structure Diagnostic.Reports {π : Type} (d : Diagnostic π) (code : Code) (pos : Position) :
    Prop where
  code_eq : d.code = code
  severity_eq : d.severity = .error
  pos_eq : d.pos = pos
  payload_eq : d.payload = none

/-- The event makes a run return this, given the events before it. -/
def Event.Returns {σ π : Type} (before : List (Event σ π)) (event : Event σ π)
    (outcome : Outcome π) : Prop :=
  match event with
  | .abort command => ∃ warnings,
      outcome = .ok ⟨.abort, .ofNat (calls (before ++ [event])), some command.id, warnings⟩
  | .switch command => ∃ d, outcome = .error d ∧ d.Reports .languageCommand command.pos
  | .unknown command => ∃ d, outcome = .error d ∧ d.Reports .unknownCommand command.pos
  | .outside id => ∃ earlier command entry start finish d,
      before = earlier ++ [.invoke command entry start (.proceed id) finish] ∧
      outcome = .error d ∧ d.Reports .general command.pos
  | .invoke _ _ _ (.proceed _) _ => False
  | .invoke command _ _ .halt _ => ∃ warnings,
      outcome = .ok ⟨.handler, .ofNat (calls (before ++ [event])), some command.id, warnings⟩
  | .invoke command _ _ (.fail cause) _ => ∃ d, outcome = .error d ∧
      if cause.code = .noError then d.Reports .general command.pos
      else d.code = cause.code ∧ d.severity = cause.severity ∧ d.pos = cause.pos ∧
        d.payload = cause.payload

namespace Engine

variable {σ π : Type} {engine : Engine σ π} {p : Program} {id : CommandId} {context : σ}
  {steps : Nat}

theorem report_reports (engine : Engine σ π) {code : Code} (hcode : code.isError = true)
    (pos : Position) (pieces : List String) : (engine.report code pos pieces).Reports code pos where
  code_eq := rfl
  severity_eq := if_pos hcode
  pos_eq := rfl
  payload_eq := if_pos hcode

theorem failure_reports (engine : Engine σ π) (command : Command) (cause : Diagnostic π) :
    if cause.code = .noError then (engine.failure command cause).Reports .general command.pos
    else (engine.failure command cause).code = cause.code ∧
      (engine.failure command cause).severity = cause.severity ∧
      (engine.failure command cause).pos = cause.pos ∧
      (engine.failure command cause).payload = cause.payload := by
  unfold failure
  split
  · rename_i hcode
    rw [if_neg (by simpa [Diagnostic.isError, Code.isError_iff] using hcode)]
    exact report_reports engine rfl _ _
  · rename_i hcode
    have herror : cause.isError = true := Code.isError_iff.mpr hcode
    rw [if_pos herror]
    exact Diagnostic.absorb_fields _ herror

/-- A run only gets outside of its program behind a handler that asked for that place. -/
theorem exists_redirection {before : List (Event σ π)} (hhead : p.head? = some id)
    {outside : CommandId}
    (h : engine.historyFrom p steps id context = before ++ [.outside outside]) :
    ∃ earlier command entry start finish,
      before = earlier ++ [.invoke command entry start (.proceed outside) finish] ∧
        p.get? command.id = some command := by
  have hsafe : DispatchSafe engine.language p context
      (engine.historyFrom p steps id context) := dispatchSafe_historyFrom hhead
  rcases List.eq_nil_or_concat before with rfl | ⟨earlier, last, rfl⟩
  · -- The first command of a program lies in it.
    have hfirst : p.head? = some outside := hsafe.head (.outside outside) (by rw [h]; rfl)
    have hnone : p.get? outside = none := hsafe.sound [] _ [] h
    obtain ⟨command, hcommand⟩ := Program.exists_get? (Program.lt_of_head? hfirst)
    rw [hcommand] at hnone
    cases hnone
  · rw [List.concat_eq_append, List.append_assoc] at h
    have hnext : last.next? = some outside := hsafe.follows earlier last _ [] h
    have hsound := hsafe.sound earlier last _ h
    rw [List.concat_eq_append]
    cases last with
    | invoke command entry start flow finish =>
        cases flow with
        | proceed next =>
            obtain rfl : next = outside := Option.some.inj hnext
            exact ⟨earlier, command, entry, start, finish, rfl, hsound.1⟩
        | halt => cases hnext
        | fail d => cases hnext
    | _ => cases hnext

/-- A run that ends about an event returns what the event says. -/
theorem returns_of_answer {before : List (Event σ π)} {event : Event σ π} {outcome : Outcome π}
    {final : σ} (hhead : p.head? = some id)
    (hhistory : engine.historyFrom p steps id context = before ++ [event])
    (hanswer : engine.answer p (.behind engine.language before)
      (Event.contextBehind context before) event = .ended outcome final) :
    event.Returns before outcome := by
  have hcalls := RunLog.invocations_behind engine.language (before ++ [event])
  rw [RunLog.behind_concat] at hcalls
  cases event with
  | outside outside =>
      cases hanswer
      obtain ⟨earlier, command, entry, start, finish, rfl, hcommand⟩ :=
        exists_redirection hhead hhistory
      have hposition : lastPosition p (.behind engine.language
          (earlier ++ [.invoke command entry start (.proceed outside) finish])) = command.pos := by
        rw [RunLog.behind_concat, lastPosition, RunLog.record, RunLog.last_invoke,
          Option.bind_some, hcommand]
      exact ⟨earlier, command, entry, start, finish, _, rfl, rfl,
        hposition ▸ report_reports engine rfl _ _⟩
  | abort command =>
      cases hanswer
      exact ⟨_, by rw [← hcalls]; rfl⟩
  | switch command =>
      cases hanswer
      exact ⟨_, rfl, report_reports engine rfl _ _⟩
  | unknown command =>
      cases hanswer
      exact ⟨_, rfl, report_reports engine rfl _ _⟩
  | invoke command entry start flow finish =>
      cases flow with
      | proceed next => cases hanswer
      | halt =>
          cases hanswer
          have hlast : ((RunLog.behind engine.language before).invoke command
              (engine.language.deprecates entry)).last = some command.id := RunLog.last_invoke
          exact ⟨_, by rw [← hcalls, ← hlast]; rfl⟩
      | fail cause =>
          cases hanswer
          exact ⟨_, rfl, failure_reports engine command cause⟩

theorem invocations_of_returns {before : List (Event σ π)} {event : Event σ π} {summary : Summary}
    (h : event.Returns before (.ok summary)) :
    summary.invocations = .ofNat (Event.calls (before ++ [event])) := by
  cases event with
  | abort command =>
      obtain ⟨warnings, hsummary⟩ := h
      exact congrArg Summary.invocations (Except.ok.inj hsummary)
  | switch command =>
      obtain ⟨d, herror, -⟩ := h
      cases herror
  | unknown command =>
      obtain ⟨d, herror, -⟩ := h
      cases herror
  | outside outside =>
      obtain ⟨earlier, command, entry, start, finish, d, -, herror, -⟩ := h
      cases herror
  | invoke command entry start flow finish =>
      cases flow with
      | proceed next => exact absurd h id
      | halt =>
          obtain ⟨warnings, hsummary⟩ := h
          exact congrArg Summary.invocations (Except.ok.inj hsummary)
      | fail cause =>
          obtain ⟨d, herror, -⟩ := h
          cases herror

/-- A run that ends with a report names an error in it and keeps within its capacity. -/
theorem error_of_answer {log : RunLog} {event : Event σ π} {d : Diagnostic π} {final : σ}
    (hanswer : engine.answer p log context event = .ended (.error d) final) :
    d.code ≠ .noError ∧ d.Within engine.settings.messageCapacity := by
  have hreport {code : Code} (hcode : code ≠ .noError) (pos : Position) (pieces : List String) :
      (engine.report code pos pieces).code ≠ .noError ∧
        (engine.report code pos pieces).Within engine.settings.messageCapacity :=
    ⟨hcode, Diagnostic.within_report _ code pos pieces⟩
  cases event with
  | outside id =>
      cases hanswer
      exact hreport (by decide) _ _
  | abort command => cases hanswer
  | switch command =>
      cases hanswer
      exact hreport (by decide) _ _
  | unknown command =>
      cases hanswer
      exact hreport (by decide) _ _
  | invoke command entry start flow finish =>
      cases flow with
      | proceed next => cases hanswer
      | halt => cases hanswer
      | fail cause =>
          cases hanswer
          unfold failure
          split
          · rename_i herror
            refine ⟨?_, Diagnostic.within_absorb _ cause⟩
            rw [(Diagnostic.absorb_fields _ herror).1]
            exact Code.isError_iff.mp herror
          · exact hreport (by decide) _ _

/-- A run that ends returns what its last event says, and a run that has not ended has a last event
that goes on. Without commands there are no events, and the run ends at once. Whatever a run reports
is an error, in no more bytes than the settings give. The invocations of a summary are the handler
calls of the run, counted in 64 bits, and so their very number while it has no more. -/
theorem run?_returns (engine : Engine σ π) (steps : Nat) (p : Program) (context : σ) :
    match engine.run? steps p context with
    | some (outcome, _) =>
      (if p.size = 0 then outcome = .ok ⟨.empty, 0, none, []⟩
        else ∃ before event, engine.history steps p context = before ++ [event] ∧
          event.next? = none ∧ event.Returns before outcome) ∧
      (∀ d, outcome = .error d →
        d.code ≠ .noError ∧ d.Within engine.settings.messageCapacity) ∧
      ∀ summary, outcome = .ok summary →
        summary.invocations = .ofNat (Event.calls (engine.history steps p context)) ∧
        (Event.calls (engine.history steps p context) < UInt64.size →
          summary.invocations.toNat = Event.calls (engine.history steps p context))
    | none => p.size ≠ 0 ∧
        ∀ event ∈ (engine.history steps p context).getLast?, event.next? ≠ none := by
  unfold run? history
  cases hhead : p.head? with
  | none =>
      dsimp only
      rw [if_pos (Program.head?_eq_none_iff.mp hhead)]
      refine ⟨rfl, ?_, ?_⟩
      · rintro d ⟨⟩
      · rintro summary ⟨⟩
        exact ⟨rfl, fun _ => rfl⟩
  | some id =>
      have hsize := Nat.ne_of_gt (Nat.lt_of_le_of_lt (Nat.zero_le _) (Program.lt_of_head? hhead))
      have hanswer := runFrom?_answer engine p steps id .empty context
      dsimp only
      generalize engine.runFrom? p steps id .empty context = result at hanswer ⊢
      cases result with
      | none => exact ⟨hsize, hanswer⟩
      | some ended =>
          obtain ⟨outcome, final⟩ := ended
          obtain ⟨before, event, hhistory, hanswer⟩ := hanswer
          dsimp only at hanswer ⊢
          rw [if_neg hsize]
          have hreturns := returns_of_answer hhead hhistory hanswer
          refine ⟨⟨before, event, hhistory, next?_of_answer hanswer, hreturns⟩, ?_, ?_⟩
          · rintro d rfl
            exact error_of_answer hanswer
          · rintro summary rfl
            have hinvocations := invocations_of_returns hreturns
            rw [hhistory]
            refine ⟨hinvocations, ?_⟩
            intro hcalls
            rw [hinvocations, UInt64.toNat_ofNat_of_lt' hcalls]

/-- A handler stays at its command up to its third call, and then halts. -/
theorem run?_returns_third_call :
    let stay : Handler Nat := fun _ calls command =>
      (if calls < 2 then .proceed command.id else .halt, calls + 1)
    let engine : Engine Nat := ⟨{ name := "stay", fallback := some stay }, {}⟩
    let p : Program := ⟨[⟨⟨"f", 1⟩, .owned [0x61] false, [], by decide⟩]⟩
    Event.calls (engine.history 3 p 0) < UInt64.size ∧
      ∃ summary, engine.run? 3 p 0 = some (.ok summary, 3) ∧ summary.invocations.toNat = 3 := by
  intro stay engine p
  have hrun : engine.run? 3 p 0 = some (.ok ⟨.handler, 3, some 0, []⟩, 3) := by decide
  have hcalls : Event.calls (engine.history 3 p 0) = 3 := by decide
  have hsize : Event.calls (engine.history 3 p 0) < UInt64.size := by
    rw [hcalls]
    decide
  have hreturns := run?_returns engine 3 p 0
  rw [hrun] at hreturns
  obtain ⟨-, -, hcounts⟩ := hreturns
  obtain ⟨-, hexact⟩ := hcounts _ rfl
  exact ⟨hsize, _, hrun, (hexact hsize).trans hcalls⟩

end Engine

end CommandScript
