import CommandScript.Proofs.History
import CommandScript.Proofs.RoundTrip

/-!
Positions do not matter to runs. A language that makes nothing of positions but to attach them to
diagnostics runs two programs with the same contents in the same way, step by step. To compare two
runs, everything they know is looked at without positions.
-/

namespace CommandScript

/-! ### Without positions -/

def Diagnostic.placeless {π : Type} (d : Diagnostic π) : Diagnostic π :=
  { d with pos := .unknown }

def Flow.placeless {π : Type} : Flow π → Flow π
  | .fail d => .fail d.placeless
  | flow => flow

def Summary.placeless (summary : Summary) : Summary :=
  { summary with warnings := summary.warnings.map Diagnostic.placeless }

def Outcome.placeless {π : Type} : Outcome π → Outcome π
  | .ok summary => .ok summary.placeless
  | .error d => .error d.placeless

def RunLog.placeless (log : RunLog) : RunLog :=
  { log with warnings := log.warnings.map Diagnostic.placeless }

def RunStep.placeless {σ π : Type} : RunStep σ π → RunStep σ π
  | .goOn next log context => .goOn next log.placeless context
  | .ended outcome context => .ended (Outcome.placeless outcome) context

def Line.placeless (line : Line) : Line :=
  { line.detach with pos := .unknown }

def Command.placeless (command : Command) : Command :=
  ⟨command.toLine.placeless, command.id⟩

theorem Part.text_eq {a b : Part} (h : a.detach = b.detach) : a.text = b.text := by
  have htext : a.detach.text = b.detach.text := congrArg Part.text h
  exact htext

theorem Line.placeless_eq_iff {a b : Line} :
    a.placeless = b.placeless ↔ a.parts.map Part.detach = b.parts.map Part.detach := by
  simp [placeless, detach, parts]

namespace Command

variable {c d : Command}

theorem id_eq (h : c.placeless = d.placeless) : c.id = d.id := by
  have hid : c.placeless.id = d.placeless.id := congrArg Command.id h
  exact hid

theorem parts_eq (h : c.placeless = d.placeless) :
    c.name.detach = d.name.detach ∧ c.args.map Part.detach = d.args.map Part.detach := by
  have hline : c.toLine.placeless = d.toLine.placeless := congrArg Command.toLine h
  have hparts := Line.placeless_eq_iff.mp hline
  simpa [Line.parts] using hparts

end Command

/-! ### Programs with the same contents -/

namespace Program.SameContents

variable {p q : Program}

theorem size_eq (h : p.SameContents q) : p.size = q.size := by
  simpa [contents, size] using congrArg List.length h

theorem head?_eq (h : p.SameContents q) : p.head? = q.head? := by
  have hempty : p.lines.isEmpty = q.lines.isEmpty := by
    simpa [contents] using congrArg List.isEmpty h
  rw [head?, head?, hempty]

theorem next?_eq (h : p.SameContents q) (id : CommandId) : p.next? id = q.next? id := by
  rw [next?, next?, h.size_eq]

theorem prev?_eq (h : p.SameContents q) (id : CommandId) : p.prev? id = q.prev? id := by
  rw [prev?, prev?, h.size_eq]

theorem lines_eq (h : p.SameContents q) :
    p.lines.map Line.placeless = q.lines.map Line.placeless := by
  apply List.ext_getElem?
  intro i
  have hline := congrArg (fun lines => lines[i]?) h
  simp only [contents, List.getElem?_map] at hline ⊢
  cases hp : p.lines[i]? with
  | none =>
      rw [hp] at hline
      have hq : q.lines[i]? = none := Option.map_eq_none_iff.mp hline.symm
      rw [hq]
  | some line =>
      rw [hp] at hline
      obtain ⟨other, hq, hsame⟩ := Option.map_eq_some_iff.mp hline.symm
      rw [hq]
      exact congrArg some (Line.placeless_eq_iff.mpr hsame.symm)

theorem get?_eq (h : p.SameContents q) (id : CommandId) :
    (p.get? id).map Command.placeless = (q.get? id).map Command.placeless := by
  have hline := congrArg (fun lines => lines[id]?.map fun line => (⟨line, id⟩ : Command)) h.lines_eq
  simpa [get?, Command.placeless, Function.comp_def] using hline

theorem placeless_eq {id : CommandId} {c d : Command} (h : p.SameContents q)
    (hc : p.get? id = some c) (hd : q.get? id = some d) : c.placeless = d.placeless := by
  have hget := h.get?_eq id
  rw [hc, hd] at hget
  exact Option.some.inj hget

end Program.SameContents

/-! ### Languages that make nothing of positions -/

/-- A matcher that does not tell which source a name is shared with. -/
def Matcher.IgnoresPlaces (matcher : Matcher) : Prop :=
  ∀ a b : Part, a.detach = b.detach → matcher.accepts a = matcher.accepts b

/-- A handler that does the same on programs with the same contents, where positions only show in
the diagnostics it fails with. -/
def Handler.IgnoresPlaces {σ π : Type} (handler : Handler σ π) : Prop :=
  ∀ (p q : Program) (id : CommandId) (c d : Command) (context : σ),
    p.SameContents q → p.get? id = some c → q.get? id = some d →
      (handler p context c).1.placeless = (handler q context d).1.placeless ∧
        (handler p context c).2 = (handler q context d).2

/-- All matchers and handlers of the language make nothing of positions. -/
structure Language.IgnoresPlaces {σ π : Type} (language : Language σ π) : Prop where
  matchers : ∀ route ∈ language.routes, route.matcher.IgnoresPlaces
  handlers : ∀ route ∈ language.routes, Handler.IgnoresPlaces route.handler
  fallback : ∀ handler ∈ language.fallback, Handler.IgnoresPlaces handler

theorem Matcher.ignoresPlaces_exact (name : String) : (Matcher.exact name).IgnoresPlaces := by
  intro a b h
  rw [accepts, accepts, Part.text_eq h]

namespace Language

variable {σ π : Type} {language : Language σ π} {a b : Part}

theorem IgnoresPlaces.resolve_eq (h : language.IgnoresPlaces) (hname : a.detach = b.detach) :
    language.resolve a = language.resolve b := by
  refine resolve_congr ?_ rfl
  apply List.map_congr_left
  intro route hroute
  rw [Route.accepts, Route.accepts, h.matchers route hroute a b hname]

theorem IgnoresPlaces.handler {handler : Handler σ π} {isDeprecated : Bool}
    (h : language.IgnoresPlaces)
    (hfound : language.handlerFor? a = some (handler, isDeprecated)) :
    Handler.IgnoresPlaces handler := by
  rw [handlerFor?_eq_find?] at hfound
  cases hroute : language.routes.find? (·.accepts a) with
  | some route =>
      rw [hroute] at hfound
      obtain ⟨rfl, -⟩ := Prod.mk.inj (Option.some.inj hfound)
      exact h.handlers route (List.mem_of_find?_eq_some hroute)
  | none =>
      rw [hroute] at hfound
      obtain ⟨fallback, hfallback, hpair⟩ := Option.map_eq_some_iff.mp hfound
      obtain ⟨rfl, -⟩ := Prod.mk.inj hpair
      exact h.fallback fallback hfallback

end Language

/-! ### Steps without positions -/

theorem Flow.target?_placeless {π : Type} (flow : Flow π) :
    flow.placeless.target? = flow.target? := by
  cases flow <;> rfl

theorem RunStep.related_of_placeless {σ π : Type} {first second : RunStep σ π}
    (h : first.placeless = second.placeless) :
    RunStep.Related (fun a b => a.placeless = b.placeless)
      (fun a b => Outcome.placeless a = Outcome.placeless b) first second := by
  cases first with
  | goOn next log context =>
      cases second with
      | goOn next' log' context' =>
          obtain ⟨rfl, hlog, rfl⟩ := RunStep.goOn.inj h
          exact .goOn hlog
      | ended outcome' context' => cases h
  | ended outcome context =>
      cases second with
      | goOn next' log' context' => cases h
      | ended outcome' context' =>
          obtain ⟨houtcome, rfl⟩ := RunStep.ended.inj h
          exact .ended houtcome

namespace RunLog

theorem placeless_warn (log : RunLog) (command : Command) :
    (log.warn command).placeless = log.placeless.warn command.placeless := by
  by_cases hmem : command.id ∈ log.warned
  · have hmem' : command.placeless.id ∈ log.placeless.warned := hmem
    rw [warn_of_mem hmem, warn_of_mem hmem']
  · have hmem' : command.placeless.id ∉ log.placeless.warned := hmem
    rw [warn_of_notMem hmem, warn_of_notMem hmem']
    simp only [placeless, List.map_append, List.map_cons, List.map_nil]
    rfl

theorem placeless_invoke (log : RunLog) (command : Command) (isDeprecated : Bool) :
    (log.invoke command isDeprecated).placeless =
      log.placeless.invoke command.placeless isDeprecated := by
  cases isDeprecated with
  | false => rfl
  | true =>
      have hwarn := placeless_warn (log.reach command) command
      exact congrArg (fun warned => { warned with invocations := warned.invocations + 1 }) hwarn

end RunLog

theorem Diagnostic.placeless_absorb {π : Type} (d other : Diagnostic π) :
    (d.absorb other).placeless = d.absorb other.placeless := by
  have htaken (pos : Position) :
      (d.reportWith other.code pos other.payload [other.message]).isError = other.isError := rfl
  unfold absorb placeless
  dsimp only
  rw [htaken, htaken]
  cases other.isError <;> rfl

namespace Engine

variable {σ π : Type} {engine : Engine σ π} {p q : Program} {log log' : RunLog}

theorem placeless_failure (engine : Engine σ π) (command : Command) (d : Diagnostic π) :
    (engine.failure command d).placeless = engine.failure command.placeless d.placeless := by
  unfold failure
  have herror : d.placeless.isError = d.isError := rfl
  rw [herror]
  cases d.isError with
  | true => exact Diagnostic.placeless_absorb _ d
  | false => rfl

theorem placeless_follow (engine : Engine σ π) (command : Command) (log : RunLog)
    (answer : Flow π × σ) :
    (engine.follow command log answer).placeless =
      engine.follow command.placeless log.placeless (answer.1.placeless, answer.2) := by
  obtain ⟨flow, context⟩ := answer
  cases flow with
  | proceed next => rfl
  | halt => rfl
  | fail d =>
      have hfailure := placeless_failure engine command d
      exact congrArg (fun failure => RunStep.ended (.error failure) context) hfailure

/-- The same place of two programs means the same, positions apart. -/
inductive SameVisit (p q : Program) : Visit σ π → Visit σ π → Prop where
  | outside : SameVisit p q .outside .outside
  | abort {c d : Command} (h : c.placeless = d.placeless) : SameVisit p q (.abort c) (.abort d)
  | switch {c d : Command} (h : c.placeless = d.placeless) : SameVisit p q (.switch c) (.switch d)
  | unknown {c d : Command} (h : c.placeless = d.placeless) :
      SameVisit p q (.unknown c) (.unknown d)
  | invoke {c d : Command} {handler : Handler σ π} {isDeprecated : Bool}
      (h : c.placeless = d.placeless)
      (hanswer : ∀ context, (handler p context c).1.placeless = (handler q context d).1.placeless ∧
        (handler p context c).2 = (handler q context d).2) :
      SameVisit p q (.invoke c handler isDeprecated) (.invoke d handler isDeprecated)

theorem sameVisit (hlanguage : engine.language.IgnoresPlaces) (h : p.SameContents q)
    (id : CommandId) : SameVisit p q (engine.visit p id) (engine.visit q id) := by
  have hget := h.get?_eq id
  unfold visit
  cases hc : p.get? id with
  | none =>
      rw [hc] at hget
      rw [Option.map_eq_none_iff.mp hget.symm]
      exact .outside
  | some c =>
      rw [hc] at hget
      obtain ⟨d, hd, hsame⟩ := Option.map_eq_some_iff.mp hget.symm
      have hname := (Command.parts_eq hsame.symm).1
      have hfound : engine.language.handlerFor? c.name = engine.language.handlerFor? d.name := by
        rw [Language.handlerFor?, Language.handlerFor?, hlanguage.resolve_eq hname]
      -- Both names have the same text and find the same handler, so the cases are the same.
      rw [hd]
      dsimp only
      rw [Part.text_eq hname, ← hfound]
      by_cases habort : d.name.text == abortName
      · rw [if_pos habort, if_pos habort]
        exact .abort hsame.symm
      rw [if_neg habort, if_neg habort]
      by_cases hswitch : d.name.text == languageName
      · rw [if_pos hswitch, if_pos hswitch]
        exact .switch hsame.symm
      rw [if_neg hswitch, if_neg hswitch]
      cases hhandler : engine.language.handlerFor? c.name with
      | none => exact .unknown hsame.symm
      | some found =>
          have hignores := hlanguage.handler hhandler
          exact .invoke hsame.symm fun context => hignores p q id c d context h hc hd

theorem placeless_step (hlanguage : engine.language.IgnoresPlaces) (h : p.SameContents q)
    (hlog : log.placeless = log'.placeless) (id : CommandId) (context : σ) :
    (engine.step p id log context).placeless = (engine.step q id log' context).placeless := by
  have hvisit := sameVisit hlanguage h id
  unfold step
  generalize engine.visit p id = first at hvisit ⊢
  generalize engine.visit q id = second at hvisit ⊢
  cases hvisit with
  | outside => rfl
  | abort hsame =>
      have hreach := congrArg₂ RunLog.reach hlog hsame
      exact congrArg (fun reached => RunStep.ended (.ok (reached.summary .abort)) context) hreach
  | switch hsame => rfl
  | unknown hsame =>
      exact congrArg (fun command => RunStep.ended (.error (engine.unknownReport command)) context)
        hsame
  | invoke hsame hanswer =>
      obtain ⟨hflow, hcontext⟩ := hanswer context
      dsimp only
      -- What both steps keep of the answers only depends on them without positions.
      rw [placeless_follow, placeless_follow, RunLog.placeless_invoke, RunLog.placeless_invoke,
        hlog, hsame, hflow, hcontext]

end Engine

/-! ### Runs without positions -/

/-- The command that an event invokes a handler for, and where the language has the handler. -/
def Event.dispatch? {σ π : Type} : Event σ π → Option (CommandId × Resolution)
  | .invoke command entry _ _ _ => some (command.id, entry)
  | _ => none

namespace Engine

variable {σ π : Type} {engine : Engine σ π} {p q : Program}

/-- Both programs run in the same way from a context: after any number of steps, they have invoked
the same handlers for the same commands, and either both runs go on, or both have ended with the
same context and with outcomes that only differ in positions. -/
def RunsAlike (engine : Engine σ π) (p q : Program) (context : σ) : Prop :=
  ∀ steps,
    (engine.history steps p context).filterMap Event.dispatch? =
      (engine.history steps q context).filterMap Event.dispatch? ∧
    Option.Rel (fun a b => Outcome.placeless a.1 = Outcome.placeless b.1 ∧ a.2 = b.2)
      (engine.run? steps p context) (engine.run? steps q context)

theorem dispatch?_event (hlanguage : engine.language.IgnoresPlaces) (h : p.SameContents q)
    (id : CommandId) (context : σ) :
    (engine.event p id context).dispatch? = (engine.event q id context).dispatch? ∧
      (engine.event p id context).next? = (engine.event q id context).next? ∧
      (engine.event p id context).leaves context = (engine.event q id context).leaves context := by
  have hvisit := sameVisit hlanguage h id
  unfold event
  generalize engine.visit p id = first at hvisit ⊢
  generalize engine.visit q id = second at hvisit ⊢
  cases hvisit with
  | outside => exact ⟨rfl, rfl, rfl⟩
  | abort hsame => exact ⟨rfl, rfl, rfl⟩
  | switch hsame => exact ⟨rfl, rfl, rfl⟩
  | unknown hsame => exact ⟨rfl, rfl, rfl⟩
  | @invoke c d handler isDeprecated hsame hanswer =>
      obtain ⟨hflow, hcontext⟩ := hanswer context
      have hentry := hlanguage.resolve_eq (Command.parts_eq hsame).1
      have htarget := congrArg Flow.target? hflow
      rw [Flow.target?_placeless, Flow.target?_placeless] at htarget
      refine ⟨?_, htarget, hcontext⟩
      dsimp only [Event.dispatch?]
      rw [Command.id_eq hsame, hentry]

theorem runsAlike_of_sameContents (hlanguage : engine.language.IgnoresPlaces)
    (h : p.SameContents q) (context : σ) : engine.RunsAlike p q context := by
  intro steps
  unfold history run?
  rw [h.head?_eq]
  cases q.head? with
  | none => exact ⟨rfl, .some ⟨rfl, rfl⟩⟩
  | some id =>
      dsimp only
      constructor
      · have hmap := map_historyFrom (dispatch?_event hlanguage h) steps id context
        have hfilter := congrArg (List.filterMap fun dispatch => dispatch) hmap
        rwa [List.filterMap_map, List.filterMap_map] at hfilter
      · have hstep (id : CommandId) (log log' : RunLog) (context : σ)
            (hlog : log.placeless = log'.placeless) :=
          RunStep.related_of_placeless (placeless_step hlanguage h hlog id context)
        exact runFrom?_related hstep steps id context rfl

end Engine

end CommandScript
