import CommandScript.Proofs.History

/-!
Dispatch is safe. Whatever handlers do, a run only gets to places they ask for, never invokes one
for a reserved name, and always invokes the one that the routes of the language call for.
-/

namespace CommandScript

/-! ### Routes -/

/-- A route is in use and its matcher accepts the name. -/
def Route.Takes {σ π : Type} (route : Route σ π) (name : Part) : Prop :=
  route.lifecycle ≠ .removed ∧ route.matcher.accepts name = true

theorem Route.accepts_iff {σ π : Type} {route : Route σ π} {name : Part} :
    route.accepts name = true ↔ route.Takes name := by
  simp [accepts, Takes]

namespace Language

variable {σ π : Type} {language : Language σ π} {name : Part}

/-- The handler that a language has for a name, and where: that of the first route to take the name,
or the fallback where no route does. -/
inductive Gives (language : Language σ π) (name : Part) : Resolution → Handler σ π → Prop where
  | route {index : Nat} {route : Route σ π} (hroute : language.routes[index]? = some route)
      (htakes : route.Takes name)
      (hfirst : ∀ i other, i < index → language.routes[i]? = some other → ¬ other.Takes name) :
      Gives language name (.route index) route.handler
  | fallback {handler : Handler σ π} (hnone : ∀ route ∈ language.routes, ¬ route.Takes name)
      (hfallback : language.fallback = some handler) :
      Gives language name .fallback handler

theorem gives_of_handlerFor? {handler : Handler σ π} {isDeprecated : Bool}
    (h : language.handlerFor? name = some (handler, isDeprecated)) :
    language.Gives name (language.resolve name) handler := by
  unfold handlerFor? at h
  unfold resolve at h ⊢
  cases hindex : language.routes.findIdx? (·.accepts name) with
  | some index =>
      rw [hindex] at h
      obtain ⟨hlt, haccepts, hearlier⟩ := List.findIdx?_eq_some_iff_getElem.mp hindex
      have hroute := List.getElem?_eq_getElem hlt
      obtain ⟨route, hfound, hpair⟩ := Option.map_eq_some_iff.mp h
      obtain rfl := Option.some.inj (hroute.symm.trans hfound)
      obtain ⟨rfl, -⟩ := Prod.mk.inj hpair
      refine .route hroute (Route.accepts_iff.mp haccepts) ?_
      intro i other hi hother htakes
      obtain ⟨hbound, rfl⟩ := List.getElem?_eq_some_iff.mp hother
      exact hearlier i hi (Route.accepts_iff.mpr htakes)
  | none =>
      rw [hindex] at h
      have hnone : ∀ route ∈ language.routes, ¬ route.Takes name := by
        intro route hroute htakes
        have haccepts := List.findIdx?_eq_none_iff.mp hindex route hroute
        rw [Route.accepts_iff.mpr htakes] at haccepts
        exact absurd haccepts (by decide)
      cases hfallback : language.fallback with
      | none => simp [hfallback, handlerAt?] at h
      | some other =>
          simp only [hfallback, Option.isSome_some, if_true, handlerAt?, Option.map_some,
            Option.some.injEq, Prod.mk.injEq] at h
          obtain ⟨rfl, -⟩ := h
          exact .fallback hnone hfallback

theorem not_takes_of_handlerFor? (h : language.handlerFor? name = none) :
    (∀ route ∈ language.routes, ¬ route.Takes name) ∧ language.fallback = none := by
  rw [handlerFor?_eq_find?] at h
  cases hfind : language.routes.find? (·.accepts name) with
  | some route => simp [hfind] at h
  | none =>
      rw [hfind] at h
      refine ⟨?_, Option.map_eq_none_iff.mp h⟩
      intro route hroute htakes
      exact List.find?_eq_none.mp hfind route hroute (Route.accepts_iff.mpr htakes)

end Language

/-! ### Histories -/

/-- What has to be true of an event whose place was reached with a context. -/
def Event.Sound {σ π : Type} (language : Language σ π) (p : Program) (context : σ) :
    Event σ π → Prop
  | .outside id => p.get? id = none
  | .abort command => p.get? command.id = some command ∧ command.name.text = abortName
  | .switch command => p.get? command.id = some command ∧ command.name.text = languageName
  | .unknown command => p.get? command.id = some command ∧
      (∀ route ∈ language.routes, ¬ route.Takes command.name) ∧ language.fallback = none
  | .invoke command entry start flow finish => p.get? command.id = some command ∧
      command.name.text ≠ abortName ∧ command.name.text ≠ languageName ∧ start = context ∧
      ∃ handler, language.Gives command.name entry handler ∧
        handler p start command = (flow, finish)

/-- A run of a program with this history has kept to the rules of dispatch. -/
structure DispatchSafe {σ π : Type} (language : Language σ π) (p : Program) (context : σ)
    (events : List (Event σ π)) : Prop where
  /-- The first command reached is the head. -/
  head : ∀ event, events.head? = some event → p.head? = some event.id
  /-- Each later one is what the handler before it asked to go on at. -/
  follows : ∀ before event next after, events = before ++ event :: next :: after →
    event.next? = some next.id
  /-- Nothing comes after anything but a handler that asked to go on. -/
  ends : ∀ before event after, events = before ++ event :: after → event.next? = none → after = []
  /-- Events are what they say. Each finds the context that the invocations before it have left. -/
  sound : ∀ before event after, events = before ++ event :: after →
    event.Sound language p (Event.contextBehind context before)

namespace Engine

variable {σ π : Type} {engine : Engine σ π} {p : Program} {id : CommandId} {context : σ}
  {steps : Nat}

theorem sound_event (engine : Engine σ π) (p : Program) (id : CommandId) (context : σ) :
    (engine.event p id context).Sound engine.language p context := by
  have hmeets := engine.meets_visit p id
  unfold event
  generalize engine.visit p id = visit at hmeets ⊢
  cases hmeets with
  | outside hnone => exact hnone
  | abort hcommand hname =>
      obtain rfl := Program.id_of_get? hcommand
      exact ⟨hcommand, hname⟩
  | switch hcommand hname =>
      obtain rfl := Program.id_of_get? hcommand
      exact ⟨hcommand, hname⟩
  | unknown hcommand habort hswitch hnone =>
      obtain rfl := Program.id_of_get? hcommand
      exact ⟨hcommand, Language.not_takes_of_handlerFor? hnone⟩
  | invoke hcommand habort hswitch hhandler =>
      obtain rfl := Program.id_of_get? hcommand
      exact ⟨hcommand, habort, hswitch, rfl, _, Language.gives_of_handlerFor? hhandler, rfl⟩

theorem dispatchSafe_historyFrom (hhead : p.head? = some id) :
    DispatchSafe engine.language p context (engine.historyFrom p steps id context) where
  head := by
    intro event hevent
    cases steps with
    | zero => exact absurd hevent (by simp [historyFrom])
    | succ steps =>
        obtain rfl := Option.some.inj hevent
        rw [id_event, hhead]
  follows := by
    intro before event next after h
    obtain ⟨-, rest, hrest⟩ := of_historyFrom_eq h
    cases htarget : event.next? with
    | none => exact absurd hrest (by simp [htarget])
    | some target =>
        rw [htarget] at hrest
        cases rest with
        | zero => exact absurd hrest (by simp [historyFrom])
        | succ rest =>
            obtain ⟨rfl, -⟩ := List.cons.inj hrest
            rw [id_event]
  ends := by
    intro before event after h hnone
    obtain ⟨-, rest, hrest⟩ := of_historyFrom_eq h
    rw [hrest, hnone]
  sound := by
    intro before event after h
    obtain ⟨hevent, -⟩ := of_historyFrom_eq h
    rw [hevent]
    exact sound_event engine p event.id _

theorem dispatchSafe_nil {language : Language σ π} : DispatchSafe language p context [] where
  head := by simp
  follows := by simp
  ends := by simp
  sound := by simp

/-- Every run dispatches safely, however far it is followed. Its histories are beginnings of one
another; that of a run which ends is complete and accounts for the context that is left, and any
other has an event for every step. -/
theorem dispatchSafe_history (engine : Engine σ π) (steps : Nat) (p : Program) (context : σ) :
    DispatchSafe engine.language p context (engine.history steps p context) ∧
      (∀ more, engine.history steps p context <+: engine.history (steps + more) p context) ∧
      match engine.run? steps p context with
      | some (_, final) => final = Event.contextBehind context (engine.history steps p context) ∧
          ∀ more, engine.history (steps + more) p context = engine.history steps p context
      | none => (engine.history steps p context).length = steps := by
  unfold history run?
  cases hhead : p.head? with
  | none => exact ⟨dispatchSafe_nil, fun more => List.nil_prefix, rfl, fun more => rfl⟩
  | some id =>
      refine ⟨dispatchSafe_historyFrom hhead, ?_, ?_⟩
      · intro more
        exact historyFrom_prefix steps more id context
      · exact historyFrom_runFrom? engine p steps id .empty context

end Engine

end CommandScript
