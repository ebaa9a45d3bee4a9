import CommandScript.Proofs.Running

/-!
The history of a run: what came of each place it reached, in order, with the handlers it invoked and
the contexts they were given. Unlike its result, the history of a run is there after any number of
steps, whether the run has ended or not.
-/

namespace CommandScript

/-! ### What a place means -/

namespace Engine

variable {σ π : Type}

/-- When a place has a meaning for a run. -/
inductive Meets (engine : Engine σ π) (p : Program) (id : CommandId) : Visit σ π → Prop where
  | outside (hnone : p.get? id = none) : Meets engine p id .outside
  | abort {command : Command} (hcommand : p.get? id = some command)
      (hname : command.name.text = abortName) : Meets engine p id (.abort command)
  | switch {command : Command} (hcommand : p.get? id = some command)
      (hname : command.name.text = languageName) : Meets engine p id (.switch command)
  | unknown {command : Command} (hcommand : p.get? id = some command)
      (habort : command.name.text ≠ abortName) (hswitch : command.name.text ≠ languageName)
      (hnone : engine.language.handlerFor? command.name = none) :
      Meets engine p id (.unknown command)
  | invoke {command : Command} {handler : Handler σ π} {isDeprecated : Bool}
      (hcommand : p.get? id = some command) (habort : command.name.text ≠ abortName)
      (hswitch : command.name.text ≠ languageName)
      (hhandler : engine.language.handlerFor? command.name = some (handler, isDeprecated)) :
      Meets engine p id (.invoke command handler isDeprecated)

theorem meets_visit (engine : Engine σ π) (p : Program) (id : CommandId) :
    engine.Meets p id (engine.visit p id) := by
  unfold visit
  cases hcommand : p.get? id with
  | none => exact .outside hcommand
  | some command =>
      dsimp only
      by_cases habort : command.name.text = abortName
      · rw [if_pos (beq_iff_eq.mpr habort)]
        exact .abort hcommand habort
      · rw [if_neg (mt beq_iff_eq.mp habort)]
        by_cases hswitch : command.name.text = languageName
        · rw [if_pos (beq_iff_eq.mpr hswitch)]
          exact .switch hcommand hswitch
        · rw [if_neg (mt beq_iff_eq.mp hswitch)]
          cases hhandler : engine.language.handlerFor? command.name with
          | none => exact .unknown hcommand habort hswitch hhandler
          | some found => exact .invoke hcommand habort hswitch hhandler

end Engine

/-! ### Events -/

/-- What came of a place that a run reached. An invocation is of the handler at an entry of the
language; it was given one context and left another. -/
inductive Event (σ : Type) (π : Type := Unit) where
  | outside (id : CommandId)
  | abort (command : Command)
  | switch (command : Command)
  | unknown (command : Command)
  | invoke (command : Command) (entry : Resolution) (start : σ) (flow : Flow π) (finish : σ)

/-- The place that a handler asks to go on at. -/
def Flow.target? {π : Type} : Flow π → Option CommandId
  | .proceed next => some next
  | _ => none

namespace Event

variable {σ π : Type}

def id : Event σ π → CommandId
  | .outside id => id
  | .abort command => command.id
  | .switch command => command.id
  | .unknown command => command.id
  | .invoke command _ _ _ _ => command.id

/-- The place to go on at. Only a handler gives one. -/
def next? : Event σ π → Option CommandId
  | .invoke _ _ _ flow _ => flow.target?
  | _ => none

/-- The context behind an event. Only a handler changes it. -/
def leaves (context : σ) : Event σ π → σ
  | .invoke _ _ _ _ finish => finish
  | _ => context

def contextBehind (context : σ) (events : List (Event σ π)) : σ :=
  events.foldl leaves context

end Event

namespace Engine

variable {σ π : Type} {engine : Engine σ π} {p : Program} {id next : CommandId} {log : RunLog}
variable {context : σ} {steps : Nat}

/-- What comes of a place when a run reaches it with a context. -/
def event (engine : Engine σ π) (p : Program) (id : CommandId) (context : σ) : Event σ π :=
  match engine.visit p id with
  | .outside => .outside id
  | .abort command => .abort command
  | .switch command => .switch command
  | .unknown command => .unknown command
  | .invoke command handler _ =>
    .invoke command (engine.language.resolve command.name) context (handler p context command).1
      (handler p context command).2

/-- What comes of the places that a run reaches from one place on in so many steps. -/
def historyFrom (engine : Engine σ π) (p : Program) :
    (steps : Nat) → CommandId → σ → List (Event σ π)
  | 0, _, _ => []
  | steps + 1, id, context =>
    let event := engine.event p id context
    event :: match event.next? with
      | some next => engine.historyFrom p steps next (event.leaves context)
      | none => []

def history (engine : Engine σ π) (steps : Nat) (p : Program) (context : σ) : List (Event σ π) :=
  match p.head? with
  | none => []
  | some id => engine.historyFrom p steps id context

theorem id_event (engine : Engine σ π) (p : Program) (id : CommandId) (context : σ) :
    (engine.event p id context).id = id := by
  have hmeets := engine.meets_visit p id
  unfold event
  generalize engine.visit p id = visit at hmeets ⊢
  cases hmeets with
  | outside hnone => rfl
  | abort hcommand hname => exact Program.id_of_get? hcommand
  | switch hcommand hname => exact Program.id_of_get? hcommand
  | unknown hcommand habort hswitch hnone => exact Program.id_of_get? hcommand
  | invoke hcommand habort hswitch hhandler => exact Program.id_of_get? hcommand

/-! ### Steps and events -/

/-- A step goes on where its event does and ends the run where its event does not, with the context
that the event leaves. -/
theorem step_event (engine : Engine σ π) (p : Program) (id : CommandId) (log : RunLog)
    (context : σ) :
    match (engine.event p id context).next? with
    | some next => ∃ after, engine.step p id log context =
        .goOn next after ((engine.event p id context).leaves context)
    | none => ∃ outcome, engine.step p id log context =
        .ended outcome ((engine.event p id context).leaves context) := by
  unfold event step
  cases engine.visit p id with
  | outside => exact ⟨_, rfl⟩
  | abort command => exact ⟨_, rfl⟩
  | switch command => exact ⟨_, rfl⟩
  | unknown command => exact ⟨_, rfl⟩
  | invoke command handler isDeprecated =>
      dsimp only
      obtain ⟨flow, finish⟩ := handler p context command
      cases flow with
      | proceed next => exact ⟨_, rfl⟩
      | halt => exact ⟨_, rfl⟩
      | fail d => exact ⟨_, rfl⟩

theorem step_of_next? (log : RunLog) (h : (engine.event p id context).next? = some next) :
    ∃ after, engine.step p id log context =
      .goOn next after ((engine.event p id context).leaves context) := by
  have hstep := step_event engine p id log context
  rwa [h] at hstep

theorem step_of_next?_eq_none (log : RunLog) (h : (engine.event p id context).next? = none) :
    ∃ outcome, engine.step p id log context =
      .ended outcome ((engine.event p id context).leaves context) := by
  have hstep := step_event engine p id log context
  rwa [h] at hstep

/-! ### Runs and histories -/

theorem historyFrom_of_next? (steps : Nat)
    (h : (engine.event p id context).next? = some next) :
    engine.historyFrom p (steps + 1) id context = engine.event p id context ::
      engine.historyFrom p steps next ((engine.event p id context).leaves context) := by
  simp only [historyFrom, h]

theorem historyFrom_of_next?_eq_none (steps : Nat)
    (h : (engine.event p id context).next? = none) :
    engine.historyFrom p (steps + 1) id context = [engine.event p id context] := by
  simp only [historyFrom, h]

/-- A run that ends leaves the context behind its history, and nothing comes after. A run that has
not ended has an event for every step. -/
theorem historyFrom_runFrom? (engine : Engine σ π) (p : Program) (steps : Nat) (id : CommandId)
    (log : RunLog) (context : σ) :
    match engine.runFrom? p steps id log context with
    | some (_, final) =>
      final = Event.contextBehind context (engine.historyFrom p steps id context) ∧
        ∀ more, engine.historyFrom p (steps + more) id context =
          engine.historyFrom p steps id context
    | none => (engine.historyFrom p steps id context).length = steps := by
  induction steps generalizing id log context with
  | zero => rfl
  | succ steps ih =>
      cases hnext : (engine.event p id context).next? with
      | none =>
          obtain ⟨outcome, hstep⟩ := step_of_next?_eq_none log hnext
          rw [runFrom?_of_ended steps hstep, historyFrom_of_next?_eq_none steps hnext]
          refine ⟨rfl, ?_⟩
          intro more
          rw [Nat.add_right_comm, historyFrom_of_next?_eq_none (steps + more) hnext]
      | some next =>
          obtain ⟨after, hstep⟩ := step_of_next? log hnext
          have hrest := ih next after ((engine.event p id context).leaves context)
          rw [runFrom?_of_goOn steps hstep, historyFrom_of_next? steps hnext]
          generalize engine.runFrom? p steps next after _ = result at hrest ⊢
          cases result with
          | none => exact congrArg (· + 1) hrest
          | some ended =>
              obtain ⟨hfinal, hmore⟩ := hrest
              refine ⟨hfinal, ?_⟩
              intro more
              rw [Nat.add_right_comm, historyFrom_of_next? (steps + more) hnext, hmore more]

theorem historyFrom_prefix (steps more : Nat) (id : CommandId) (context : σ) :
    engine.historyFrom p steps id context <+: engine.historyFrom p (steps + more) id context := by
  induction steps generalizing id context with
  | zero => exact List.nil_prefix
  | succ steps ih =>
      rw [Nat.add_right_comm]
      cases hnext : (engine.event p id context).next? with
      | none =>
          have hshort := historyFrom_of_next?_eq_none steps hnext
          have hlong := historyFrom_of_next?_eq_none (steps + more) hnext
          exact (hshort.trans hlong.symm) ▸ List.prefix_rfl
      | some next =>
          rw [historyFrom_of_next? steps hnext, historyFrom_of_next? (steps + more) hnext]
          exact (List.prefix_cons_inj _).mpr (ih next _)

/-- Each event of a history is what comes of its place with the context behind the earlier ones, and
the later ones are the history from where it goes on. -/
theorem of_historyFrom_eq {before after : List (Event σ π)} {event : Event σ π}
    (h : engine.historyFrom p steps id context = before ++ event :: after) :
    event = engine.event p event.id (Event.contextBehind context before) ∧
      ∃ rest, after = match event.next? with
        | some next => engine.historyFrom p rest next
            (Event.contextBehind context (before ++ [event]))
        | none => [] := by
  -- Every earlier event has gone on, so the rest of the list is a history with one step less.
  induction before generalizing steps id context with
  | nil =>
      cases steps with
      | zero => exact absurd h (by simp [historyFrom])
      | succ steps =>
          obtain ⟨rfl, rfl⟩ := List.cons.inj h
          rw [id_event]
          exact ⟨rfl, steps, rfl⟩
  | cons first before ih =>
      cases steps with
      | zero => exact absurd h (by simp [historyFrom])
      | succ steps =>
          obtain ⟨rfl, hrest⟩ := List.cons.inj h
          cases hnext : (engine.event p id context).next? with
          | none => simp [hnext] at hrest
          | some next =>
              rw [hnext] at hrest
              exact ih hrest

end Engine

/-! ### Two runs side by side -/

/-- Both steps go on at the same place or both end, with the same context, and what they know of
their runs is related. -/
inductive RunStep.Related {σ π : Type} (logs : RunLog → RunLog → Prop)
    (outcomes : Outcome π → Outcome π → Prop) : RunStep σ π → RunStep σ π → Prop where
  | goOn {next : CommandId} {log log' : RunLog} {context : σ} (h : logs log log') :
      Related logs outcomes (.goOn next log context) (.goOn next log' context)
  | ended {outcome outcome' : Outcome π} {context : σ} (h : outcomes outcome outcome') :
      Related logs outcomes (.ended outcome context) (.ended outcome' context)

namespace Engine

variable {σ π : Type} {engine engine' : Engine σ π} {p q : Program}

/-- Two runs whose steps are related end after the same number of them, if they do, with the same
context. -/
theorem runFrom?_related {logs : RunLog → RunLog → Prop} {outcomes : Outcome π → Outcome π → Prop}
    (hstep : ∀ id log log' context, logs log log' → RunStep.Related logs outcomes
      (engine.step p id log context) (engine'.step q id log' context))
    (steps : Nat) (id : CommandId) {log log' : RunLog} (context : σ) (h : logs log log') :
    Option.Rel (fun a b => outcomes a.1 b.1 ∧ a.2 = b.2)
      (engine.runFrom? p steps id log context) (engine'.runFrom? q steps id log' context) := by
  induction steps generalizing id log log' context with
  | zero => exact .none
  | succ steps ih =>
      have hrelated := hstep id log log' context h
      unfold runFrom?
      generalize engine.step p id log context = first at hrelated ⊢
      generalize engine'.step q id log' context = second at hrelated ⊢
      cases hrelated with
      | goOn hlogs => exact ih _ _ hlogs
      | ended houtcomes => exact .some ⟨houtcomes, rfl⟩

/-- What comes of places makes up the whole history. -/
theorem historyFrom_congr
    (hevent : ∀ id context, engine.event p id context = engine'.event q id context)
    (steps : Nat) (id : CommandId) (context : σ) :
    engine.historyFrom p steps id context = engine'.historyFrom q steps id context := by
  induction steps generalizing id context with
  | zero => rfl
  | succ steps ih => simp only [historyFrom, hevent, ih]

/-- Two histories whose events go on in the same way agree in all that their events agree in, as it
shows in each of them. -/
theorem map_historyFrom {γ : Type} {view view' : Event σ π → γ}
    (hevent : ∀ id context, view (engine.event p id context) = view' (engine'.event q id context) ∧
      (engine.event p id context).next? = (engine'.event q id context).next? ∧
      (engine.event p id context).leaves context = (engine'.event q id context).leaves context)
    (steps : Nat) (id : CommandId) (context : σ) :
    (engine.historyFrom p steps id context).map view =
      (engine'.historyFrom q steps id context).map view' := by
  induction steps generalizing id context with
  | zero => rfl
  | succ steps ih =>
      obtain ⟨hview, hnext, hleaves⟩ := hevent id context
      cases htarget : (engine.event p id context).next? with
      | none =>
          rw [historyFrom_of_next?_eq_none steps htarget,
            historyFrom_of_next?_eq_none steps (hnext.symm.trans htarget)]
          exact congrArg (fun seen => [seen]) hview
      | some next =>
          rw [historyFrom_of_next? steps htarget,
            historyFrom_of_next? steps (hnext.symm.trans htarget), List.map_cons, List.map_cons,
            hview, hleaves, ih]

end Engine

end CommandScript
