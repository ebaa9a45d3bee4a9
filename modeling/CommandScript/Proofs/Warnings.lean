import CommandScript.Proofs.Outcome
import Mathlib.Data.List.Forall2
import Mathlib.Data.List.Nodup

/-!
Warnings of a run. The commands that were dispatched to deprecated routes, each once and in the
order of their first dispatch, are a matter of the history alone. The log warns of exactly these,
because the commands it holds as warned are the ones whose warnings it has.
-/

namespace CommandScript

/-- The command of an event that was dispatched to a deprecated route. -/
def Event.deprecated? {σ π : Type} (language : Language σ π) : Event σ π → Option Command
  | .invoke command entry _ _ _ => if language.deprecates entry then some command else none
  | _ => none

theorem Language.deprecates_eq_true {σ π : Type} {language : Language σ π} {entry : Resolution} :
    language.deprecates entry = true ↔ ∃ index route, entry = .route index ∧
      language.routes[index]? = some route ∧ route.lifecycle = .deprecated := by
  cases entry with
  | route index => simp [deprecates, Option.any_eq_true]
  | fallback => simp [deprecates]
  | unknown => simp [deprecates]

theorem Event.deprecated?_eq_some {σ π : Type} {language : Language σ π} {event : Event σ π}
    {command : Command} :
    event.deprecated? language = some command ↔
      ∃ index route start flow finish, event = .invoke command (.route index) start flow finish ∧
        language.routes[index]? = some route ∧ route.lifecycle = .deprecated := by
  constructor
  · intro h
    cases event with
    | invoke other entry start flow finish =>
        obtain ⟨hentry, hcommand⟩ := Option.ite_none_right_eq_some.mp h
        obtain rfl := Option.some.inj hcommand
        obtain ⟨index, route, rfl, hroute, hlifecycle⟩ := Language.deprecates_eq_true.mp hentry
        exact ⟨index, route, start, flow, finish, rfl, hroute, hlifecycle⟩
    | _ => cases h
  · rintro ⟨index, route, start, flow, finish, rfl, hroute, hlifecycle⟩
    exact if_pos (Language.deprecates_eq_true.mpr ⟨index, route, rfl, hroute, hlifecycle⟩)

/-! ### First uses -/

/-- The place in a history of the first dispatch of a command to a deprecated route. -/
def firstUse {σ π : Type} (language : Language σ π) (events : List (Event σ π))
    (command : Command) : Nat :=
  events.findIdx fun event => event.deprecated? language == some command

/-- These are the commands that a history dispatched to deprecated routes. -/
structure FirstUses {σ π : Type} (language : Language σ π) (events : List (Event σ π))
    (commands : List Command) : Prop where
  /-- None is there twice. -/
  nodup : commands.Nodup
  /-- Every one was dispatched so at least once, and no others were. -/
  mem_iff : ∀ command, command ∈ commands ↔
    ∃ event ∈ events, event.deprecated? language = some command
  /-- They come in the order of their first dispatch. -/
  ordered : commands.Pairwise fun a b =>
    firstUse language events a < firstUse language events b

namespace FirstUses

variable {σ π : Type} {language : Language σ π} {events : List (Event σ π)}
  {commands : List Command} {event : Event σ π} {command : Command}

theorem nil (language : Language σ π) : FirstUses language [] [] where
  nodup := List.nodup_nil
  mem_iff := by simp
  ordered := List.Pairwise.nil

theorem lt_length (h : FirstUses language events commands) (hmem : command ∈ commands) :
    firstUse language events command < events.length := by
  obtain ⟨event, hevent, hused⟩ := (h.mem_iff command).mp hmem
  exact List.findIdx_lt_length_of_exists ⟨event, hevent, by simp [hused]⟩

/-- What comes later does not move a first use. -/
theorem firstUse_concat (h : FirstUses language events commands) (hmem : command ∈ commands) :
    firstUse language (events ++ [event]) command = firstUse language events command := by
  unfold firstUse
  rw [List.findIdx_append]
  exact if_pos (h.lt_length hmem)

theorem ordered_concat (h : FirstUses language events commands) :
    commands.Pairwise fun a b => firstUse language (events ++ [event]) a <
      firstUse language (events ++ [event]) b := by
  refine List.Pairwise.imp_of_mem ?_ h.ordered
  intro a b ha hb hlt
  rwa [h.firstUse_concat ha, h.firstUse_concat hb]

/-- An event that is no use, or the use of a command that is there already, adds nothing. -/
theorem concat_old (h : FirstUses language events commands)
    (hold : ∀ command, event.deprecated? language = some command → command ∈ commands) :
    FirstUses language (events ++ [event]) commands where
  nodup := h.nodup
  mem_iff := by
    intro command
    constructor
    · intro hmem
      obtain ⟨use, huse, hcommand⟩ := (h.mem_iff command).mp hmem
      exact ⟨use, List.mem_append_left _ huse, hcommand⟩
    · rintro ⟨use, huse, hcommand⟩
      rcases List.mem_append.mp huse with huse | huse
      · exact (h.mem_iff command).mpr ⟨use, huse, hcommand⟩
      · obtain rfl := List.mem_singleton.mp huse
        exact hold command hcommand
  ordered := h.ordered_concat

/-- The use of a command that was not used before adds it at the end. -/
theorem concat_new (h : FirstUses language events commands)
    (hused : event.deprecated? language = some command) (hnew : command ∉ commands) :
    FirstUses language (events ++ [event]) (commands ++ [command]) where
  nodup := by
    rw [← List.concat_eq_append]
    exact List.Nodup.concat hnew h.nodup
  mem_iff := by
    intro other
    simp [h.mem_iff, or_and_right, exists_or, hused, eq_comm]
  ordered := by
    refine List.pairwise_append.mpr ⟨h.ordered_concat, List.pairwise_singleton _ _, ?_⟩
    intro other hother last hlast
    obtain rfl := List.mem_singleton.mp hlast
    have hnone : events.findIdx (fun event => event.deprecated? language == some last) =
        events.length := by
      rw [List.findIdx_eq_length]
      intro use huse
      by_contra hfound
      exact hnew ((h.mem_iff last).mpr ⟨use, huse, by simpa using hfound⟩)
    rw [h.firstUse_concat hother]
    calc firstUse language events other < events.length := h.lt_length hother
      _ ≤ firstUse language (events ++ [event]) last := by
        rw [firstUse, List.findIdx_append, hnone]
        simp

end FirstUses

/-! ### Warnings in the log -/

/-- A warning that a command is deprecated. -/
structure Diagnostic.WarnsOf (d : Diagnostic) (command : Command) : Prop where
  code_eq : d.code = .deprecatedCommand
  severity_eq : d.severity = .warning
  pos_eq : d.pos = command.pos
  payload_eq : d.payload = none

namespace RunLog

variable {σ π : Type} {language : Language σ π} {log : RunLog} {event : Event σ π}
  {command : Command} {p : Program} {events : List (Event σ π)}

/-- An event that is no deprecated use leaves the warnings alone. -/
theorem warnings_record_of_none (log : RunLog) (h : event.deprecated? language = none) :
    (log.record language event).warnings = log.warnings ∧
      (log.record language event).warned = log.warned := by
  cases event with
  | invoke command entry start flow finish =>
      have hentry : language.deprecates entry = false := by
        simpa [Event.deprecated?] using h
      dsimp only [record]
      rw [hentry]
      exact ⟨rfl, rfl⟩
  | _ => exact ⟨rfl, rfl⟩

/-- A deprecated use warns of its command. -/
theorem warnings_record_of_some (log : RunLog) (h : event.deprecated? language = some command) :
    (log.record language event).warnings = (log.warn command).warnings ∧
      (log.record language event).warned = (log.warn command).warned := by
  obtain ⟨index, route, start, flow, finish, rfl, hroute, hlifecycle⟩ :=
    Event.deprecated?_eq_some.mp h
  have hentry : language.deprecates (.route index) = true :=
    Language.deprecates_eq_true.mpr ⟨index, route, rfl, hroute, hlifecycle⟩
  dsimp only [record]
  rw [hentry, invoke, if_pos rfl, warn_reach]
  exact ⟨rfl, rfl⟩

/-- The log behind events warns of their deprecated uses, and it holds just these commands as
warned. An id is enough to tell the commands of a program apart. -/
structure Warns (language : Language σ π) (events : List (Event σ π)) (commands : List Command) :
    Prop where
  uses : FirstUses language events commands
  warnings : List.Forall₂ Diagnostic.WarnsOf (behind language events).warnings commands
  warned : ∀ id, id ∈ (behind language events).warned ↔ ∃ command ∈ commands, command.id = id

theorem Warns.concat {commands : List Command} (h : Warns language events commands)
    (hprogram : ∀ use ∈ events ++ [event], ∀ command, use.deprecated? language = some command →
      p.get? command.id = some command) :
    ∃ commands', Warns language (events ++ [event]) commands' := by
  have hbehind := behind_concat language events event
  cases hused : event.deprecated? language with
  | none =>
      obtain ⟨hwarnings, hwarned⟩ := warnings_record_of_none (behind language events) hused
      refine ⟨commands, h.uses.concat_old (by simp [hused]), ?_, ?_⟩
      · rw [hbehind, hwarnings]
        exact h.warnings
      · rw [hbehind, hwarned]
        exact h.warned
  | some command =>
      obtain ⟨hwarnings, hwarned⟩ := warnings_record_of_some (behind language events) hused
      by_cases hid : command.id ∈ (behind language events).warned
      · obtain ⟨other, hother, hsame⟩ := (h.warned command.id).mp hid
        -- A command that was warned of has the id of this one, so it is this one.
        have heq : other = command := by
          obtain ⟨use, huse, hcommand⟩ := (h.uses.mem_iff other).mp hother
          have hfirst := hprogram use (List.mem_append_left _ huse) other hcommand
          have hsecond := hprogram event (by simp) command hused
          rw [hsame] at hfirst
          exact Option.some.inj (hfirst.symm.trans hsecond)
        subst heq
        refine ⟨commands, h.uses.concat_old ?_, ?_, ?_⟩
        · intro found hfound
          obtain rfl := Option.some.inj (hused.symm.trans hfound)
          exact hother
        · rw [hbehind, hwarnings, warn_of_mem hid]
          exact h.warnings
        · rw [hbehind, hwarned, warn_of_mem hid]
          exact h.warned
      · refine ⟨commands ++ [command], h.uses.concat_new hused ?_, ?_, ?_⟩
        · intro hmem
          exact hid ((h.warned command.id).mpr ⟨command, hmem, rfl⟩)
        · rw [hbehind, hwarnings, warn_of_notMem hid]
          exact List.rel_append h.warnings (.cons ⟨rfl, rfl, rfl, rfl⟩ .nil)
        · intro id
          rw [hbehind, hwarned, mem_warned_warn, h.warned]
          simp [or_and_right, exists_or, eq_comm, or_comm]

theorem exists_warns (hprogram : ∀ use ∈ events, ∀ command,
    use.deprecated? language = some command → p.get? command.id = some command) :
    ∃ commands, Warns language events commands := by
  induction events using List.reverseRecOn with
  | nil => exact ⟨[], .nil language, .nil, by simp [behind, empty]⟩
  | append_singleton events event ih =>
      obtain ⟨commands, h⟩ := ih fun use huse => hprogram use (List.mem_append_left _ huse)
      exact h.concat hprogram

end RunLog

/-! ### Warnings of a run -/

/-- Of the routes that take the name, the first is deprecated. -/
def Language.DeprecatesName {σ π : Type} (language : Language σ π) (name : Part) : Prop :=
  ∃ (index : Nat) (route : Route σ π), language.routes[index]? = some route ∧
    route.lifecycle = .deprecated ∧ route.Takes name ∧
    ∀ (i : Nat) (other : Route σ π), i < index → language.routes[i]? = some other →
      ¬ other.Takes name

namespace Engine

variable {σ π : Type} {engine : Engine σ π} {p : Program} {id : CommandId} {context : σ}
  {steps : Nat}

/-- What is dispatched to a deprecated route is a command of the program without a reserved name,
and no route before that one takes it. -/
theorem of_deprecated? (hhead : p.head? = some id) {event : Event σ π} {command : Command}
    (hevent : event ∈ engine.historyFrom p steps id context)
    (hused : event.deprecated? engine.language = some command) :
    p.get? command.id = some command ∧ command.name.text ≠ abortName ∧
      command.name.text ≠ languageName ∧ engine.language.DeprecatesName command.name := by
  obtain ⟨before, after, hhistory⟩ := List.append_of_mem hevent
  have hsound := (dispatchSafe_historyFrom hhead).sound before event after hhistory
  obtain ⟨index, route, start, flow, finish, rfl, hroute, hlifecycle⟩ :=
    Event.deprecated?_eq_some.mp hused
  obtain ⟨hcommand, habort, hswitch, -, handler, hgives, -⟩ := hsound
  refine ⟨hcommand, habort, hswitch, index, route, hroute, hlifecycle, ?_⟩
  cases hgives with
  | route hfound htakes hfirst =>
      obtain rfl := Option.some.inj (hfound.symm.trans hroute)
      exact ⟨htakes, hfirst⟩

/-- A summary has the warnings of the log, with the last event put into it. -/
theorem warnings_of_answer {log : RunLog} {event : Event σ π} {summary : Summary} {final : σ}
    (hanswer : engine.answer p log context event = .ended (.ok summary) final) :
    summary.warnings = (log.record engine.language event).warnings := by
  cases event with
  | abort command =>
      cases hanswer
      rfl
  | invoke command entry start flow finish =>
      cases flow with
      | halt =>
          cases hanswer
          rfl
      | proceed next => cases hanswer
      | fail d => cases hanswer
  | _ => cases hanswer

/-- The log behind the events of a run warns of commands of its program that have deprecated
routes. -/
theorem exists_warns_of_head? (engine : Engine σ π) (steps : Nat) (context : σ)
    (hhead : p.head? = some id) :
    ∃ commands, RunLog.Warns engine.language (engine.historyFrom p steps id context) commands ∧
      ∀ command ∈ commands, p.get? command.id = some command ∧ command.name.text ≠ abortName ∧
        command.name.text ≠ languageName ∧ engine.language.DeprecatesName command.name := by
  have hsound {use : Event σ π} (huse : use ∈ engine.historyFrom p steps id context)
      {command : Command} (hused : use.deprecated? engine.language = some command) :=
    of_deprecated? hhead huse hused
  obtain ⟨commands, hwarns⟩ := RunLog.exists_warns fun use huse command hused =>
    (hsound huse hused).1
  refine ⟨commands, hwarns, ?_⟩
  intro command hcommand
  obtain ⟨use, huse, hused⟩ := (hwarns.uses.mem_iff command).mp hcommand
  exact hsound huse hused

/-- A run that ends with a summary warns of the commands it dispatched to deprecated routes: once of
each, in the order of their first dispatch, and of nothing else. Such a command has no reserved
name, and the deprecated route is the first to take it. A handler that halts the run is no
exception. -/
theorem warnings_of_run? {summary : Summary} {final : σ}
    (h : engine.run? steps p context = some (.ok summary, final)) :
    ∃ commands, FirstUses engine.language (engine.history steps p context) commands ∧
      List.Forall₂ Diagnostic.WarnsOf summary.warnings commands ∧
      (∀ command ∈ commands, p.get? command.id = some command ∧ command.name.text ≠ abortName ∧
        command.name.text ≠ languageName ∧ engine.language.DeprecatesName command.name) ∧
      ∀ before command index (route : Route σ π) start finish,
        engine.history steps p context =
          before ++ [.invoke command (.route index) start .halt finish] →
        engine.language.routes[index]? = some route → route.lifecycle = .deprecated →
        command ∈ commands := by
  rcases answer_of_run? h with ⟨hempty, hnone⟩ |
    ⟨id, before, event, hhead, hsame, hhistory, hanswer⟩
  · cases hempty
    rw [hnone]
    exact ⟨[], .nil engine.language, .nil, by simp, by simp⟩
  · obtain ⟨commands, hwarns, hcommands⟩ := exists_warns_of_head? engine steps context hhead
    rw [hsame]
    refine ⟨commands, hwarns.uses, ?_, hcommands, ?_⟩
    · have hwarnings := hwarns.warnings
      rwa [hhistory, RunLog.behind_concat, ← warnings_of_answer hanswer] at hwarnings
    · intro before' command index route start finish hlast hroute hlifecycle
      refine (hwarns.uses.mem_iff command).mpr ⟨.invoke command (.route index) start .halt finish,
        by rw [hlast]; simp, ?_⟩
      exact Event.deprecated?_eq_some.mpr
        ⟨index, route, start, .halt, finish, rfl, hroute, hlifecycle⟩

/-- A loop over three commands that is left by its last one. The routes of the first and the last
command are deprecated; that of the second is behind an active one for the same name. -/
theorem warnings_of_run?_loop :
    let next : Handler Nat := fun p count command => (.next p command, count + 1)
    let again : Handler Nat := fun _ count _ => (if count < 5 then .proceed 0 else .halt, count + 1)
    let engine : Engine Nat := ⟨{
      name := "loop"
      routes := [.exact "mid" next, (Route.exact "mid" next).deprecated,
        (Route.exact "end" again).deprecated, (Route.exact "top" next).deprecated] }, {}⟩
    let p : Program := ⟨[⟨⟨"f", 1⟩, .owned [0x74, 0x6f, 0x70] false, [], by decide⟩,
      ⟨⟨"f", 2⟩, .owned [0x6d, 0x69, 0x64] false, [], by decide⟩,
      ⟨⟨"f", 3⟩, .owned [0x65, 0x6e, 0x64] false, [], by decide⟩]⟩
    ∃ summary commands, engine.run? 6 p 0 = some (.ok summary, 6) ∧ summary.invocations = 6 ∧
      FirstUses engine.language (engine.history 6 p 0) commands ∧
      List.Forall₂ Diagnostic.WarnsOf summary.warnings commands ∧
      summary.warnings.map (·.pos.line) = [1, 3] ∧
      ∀ command ∈ commands, engine.language.DeprecatesName command.name := by
  intro next again engine p
  have h : engine.run? 6 p 0 = some (.ok ⟨.handler, 6, some 2, [
      .warning .deprecatedCommand ⟨"f", 1⟩ "command `top` is deprecated",
      .warning .deprecatedCommand ⟨"f", 3⟩ "command `end` is deprecated"]⟩, 6) := by
    decide +kernel
  obtain ⟨commands, huses, hwarns, hcommands, -⟩ := warnings_of_run? h
  exact ⟨_, commands, h, rfl, huses, hwarns, rfl,
    fun command hcommand => (hcommands command hcommand).2.2.2⟩

end Engine

end CommandScript
