import CommandScript.Proofs.History
import Mathlib.Data.List.Forall2

/-!
What the lifecycle of routes does to runs. A removed route might as well not be in the table:
without it the others are found as before, at places that have moved up. Deprecation only shows in
the warnings of a run that does not fail. Both compare the runs of one program in two languages, and
what a language has for each name is all that a run asks of it.
-/

namespace CommandScript

/-! ### Deleting entries of a table -/

section Tables

variable {α : Type} {deleted : Nat → Bool} {accepts : α → Bool} {xs : List α}

/-- The entries of a table without those at the deleted places. -/
def kept (deleted : Nat → Bool) (xs : List α) : List α :=
  (xs.zipIdx.filter fun entry => !deleted entry.2).map Prod.fst

/-- The number of deleted places before a place. -/
def deletedBefore (deleted : Nat → Bool) (index : Nat) : Nat :=
  (List.range index).countP deleted

theorem kept_cons (deleted : Nat → Bool) (x : α) (xs : List α) :
    kept deleted (x :: xs) =
      if deleted 0 then kept (fun i => deleted (i + 1)) xs
      else x :: kept (fun i => deleted (i + 1)) xs := by
  have hrest : ((xs.zipIdx 1).filter fun entry => !deleted entry.2).map Prod.fst =
      kept (fun i => deleted (i + 1)) xs := by
    rw [kept, List.zipIdx_succ, List.filter_map, List.map_map]
    rfl
  rw [kept, List.zipIdx_cons, List.filter_cons]
  cases hfirst : deleted 0 with
  | true => simpa [hfirst] using hrest
  | false => simpa [hfirst] using hrest

theorem deletedBefore_succ (deleted : Nat → Bool) (index : Nat) :
    deletedBefore deleted (index + 1) =
      (if deleted 0 then 1 else 0) + deletedBefore (fun i => deleted (i + 1)) index := by
  rw [deletedBefore, List.range_succ_eq_map, List.countP_cons, List.countP_map, Nat.add_comm]
  rfl

theorem deletedBefore_le (deleted : Nat → Bool) (index : Nat) :
    deletedBefore deleted index ≤ index := by
  simpa [deletedBefore] using List.countP_le_length (p := deleted) (l := List.range index)

/-- The first entry that is accepted is found as before. -/
theorem find?_kept (h : ∀ i x, xs[i]? = some x → deleted i = true → accepts x = false) :
    (kept deleted xs).find? accepts = xs.find? accepts := by
  induction xs generalizing deleted with
  | nil => rfl
  | cons x xs ih =>
      have hrest : (kept (fun i => deleted (i + 1)) xs).find? accepts = xs.find? accepts :=
        ih fun i y hy => h (i + 1) y hy
      rw [kept_cons]
      split
      · rename_i hfirst
        rw [hrest, List.find?_cons, h 0 x rfl hfirst]
      · rw [List.find?_cons, List.find?_cons, hrest]

/-- Its place has moved up by the number of deleted places before it. -/
theorem findIdx?_kept (h : ∀ i x, xs[i]? = some x → deleted i = true → accepts x = false) :
    (kept deleted xs).findIdx? accepts =
      (xs.findIdx? accepts).map fun index => index - deletedBefore deleted index := by
  induction xs generalizing deleted with
  | nil => rfl
  | cons x xs ih =>
      have hrest : (kept (fun i => deleted (i + 1)) xs).findIdx? accepts =
          (xs.findIdx? accepts).map fun index =>
            index - deletedBefore (fun i => deleted (i + 1)) index :=
        ih fun i y hy => h (i + 1) y hy
      rw [kept_cons]
      split
      · rename_i hfirst
        rw [hrest, List.findIdx?_cons, h 0 x rfl hfirst]
        cases xs.findIdx? accepts with
        | none => rfl
        | some index =>
            simp only [Bool.false_eq_true, if_false, Option.map_some, deletedBefore_succ, hfirst,
              if_true, Option.some.injEq]
            omega
      · rename_i hfirst
        rw [List.findIdx?_cons, List.findIdx?_cons]
        cases haccepts : accepts x with
        | true => simp [deletedBefore]
        | false =>
            rw [hrest]
            cases xs.findIdx? accepts with
            | none => rfl
            | some index =>
                have hle := deletedBefore_le (fun i => deleted (i + 1)) index
                simp only [Bool.false_eq_true, if_false, Option.map_some, deletedBefore_succ,
                  hfirst, Option.some.injEq]
                omega

end Tables

/-! ### Languages without some of their routes -/

/-- The same place in a table without the deleted routes. -/
def Resolution.without (deleted : Nat → Bool) : Resolution → Resolution
  | .route index => .route (index - deletedBefore deleted index)
  | .fallback => .fallback
  | .unknown => .unknown

/-- The same event, with the places of handlers in a table without the deleted routes. -/
def Event.without {σ π : Type} (deleted : Nat → Bool) : Event σ π → Event σ π
  | .invoke command entry start flow finish =>
    .invoke command (entry.without deleted) start flow finish
  | event => event

namespace Language

variable {σ π : Type} {language : Language σ π} {deleted : Nat → Bool}

/-- The language without the routes at the deleted places. -/
def without (language : Language σ π) (deleted : Nat → Bool) : Language σ π :=
  { language with routes := kept deleted language.routes }

/-- All routes at the deleted places are out of use. -/
def OutOfUse (language : Language σ π) (deleted : Nat → Bool) : Prop :=
  ∀ index route, language.routes[index]? = some route → deleted index = true →
    route.lifecycle = .removed

theorem OutOfUse.not_accepts (h : language.OutOfUse deleted) (name : Part) :
    ∀ index route, language.routes[index]? = some route → deleted index = true →
      route.accepts name = false := by
  intro index route hroute hdeleted
  simp [Route.accepts, h index route hroute hdeleted]

theorem resolve_without (h : language.OutOfUse deleted) (name : Part) :
    (language.without deleted).resolve name = (language.resolve name).without deleted := by
  have hindex : (language.without deleted).routes.findIdx? (·.accepts name) =
      (language.routes.findIdx? (·.accepts name)).map
        fun index => index - deletedBefore deleted index :=
    findIdx?_kept (h.not_accepts name)
  have hfallback : (language.without deleted).fallback = language.fallback := rfl
  rw [resolve, resolve, hindex, hfallback]
  cases language.routes.findIdx? (·.accepts name) with
  | some index => rfl
  | none => cases language.fallback <;> rfl

theorem handlerFor?_without (h : language.OutOfUse deleted) (name : Part) :
    (language.without deleted).handlerFor? name = language.handlerFor? name := by
  have hroute : (language.without deleted).routes.find? (·.accepts name) =
      language.routes.find? (·.accepts name) := find?_kept (h.not_accepts name)
  rw [handlerFor?_eq_find?, handlerFor?_eq_find?, hroute]
  rfl

end Language

namespace Engine

variable {σ π : Type} {engine : Engine σ π} {deleted : Nat → Bool} {p : Program}

/-- The engine with some routes deleted from its language. -/
def without (engine : Engine σ π) (deleted : Nat → Bool) : Engine σ π :=
  { engine with language := engine.language.without deleted }

theorem visit_without (h : engine.language.OutOfUse deleted) (id : CommandId) :
    (engine.without deleted).visit p id = engine.visit p id := by
  simp only [visit, without, Language.handlerFor?_without h]

theorem event_without (h : engine.language.OutOfUse deleted) (id : CommandId) (context : σ) :
    (engine.without deleted).event p id context = (engine.event p id context).without deleted := by
  rw [event, event, visit_without h]
  cases engine.visit p id with
  | invoke command handler isDeprecated =>
      exact congrArg (Event.invoke command · context _ _)
        (Language.resolve_without h command.name)
  | _ => rfl

theorem step_without (h : engine.language.OutOfUse deleted) (id : CommandId) (log : RunLog)
    (context : σ) :
    (engine.without deleted).step p id log context = engine.step p id log context := by
  rw [step, step, visit_without h]
  rfl

theorem runFrom?_without (h : engine.language.OutOfUse deleted) (steps : Nat) (id : CommandId)
    (log : RunLog) (context : σ) :
    (engine.without deleted).runFrom? p steps id log context =
      engine.runFrom? p steps id log context := by
  induction steps generalizing id log context with
  | zero => rfl
  | succ steps ih => simp only [runFrom?, step_without h, ih]

theorem historyFrom_without (h : engine.language.OutOfUse deleted) (steps : Nat) (id : CommandId)
    (context : σ) :
    (engine.without deleted).historyFrom p steps id context =
      (engine.historyFrom p steps id context).map (Event.without deleted) := by
  have hmap : ((engine.without deleted).historyFrom p steps id context).map (fun event => event) =
      (engine.historyFrom p steps id context).map (Event.without deleted) := by
    refine map_historyFrom ?_ steps id context
    intro id context
    rw [event_without h]
    cases engine.event p id context <;> exact ⟨rfl, rfl, rfl⟩
  rwa [List.map_id'] at hmap

/-- Routes that have been removed can be deleted. Every name is found where it was, with the places
of routes moved up by the number of deleted ones before them, and has the same handler. So every run
reaches the same commands, invokes the same handlers on the same contexts and has the same result,
whatever the capacity of its messages. -/
theorem run?_without (h : engine.language.OutOfUse deleted) :
    (∀ name, (engine.language.without deleted).resolve name =
        (engine.language.resolve name).without deleted ∧
      (engine.language.without deleted).handlerFor? name = engine.language.handlerFor? name) ∧
    ∀ steps p context,
      (engine.without deleted).history steps p context =
        (engine.history steps p context).map (Event.without deleted) ∧
      (engine.without deleted).run? steps p context = engine.run? steps p context := by
  refine ⟨fun name => ⟨Language.resolve_without h name, Language.handlerFor?_without h name⟩, ?_⟩
  intro steps p context
  unfold history run?
  cases p.head? with
  | none => exact ⟨rfl, rfl⟩
  | some id =>
      exact ⟨historyFrom_without h steps id context, runFrom?_without h steps id .empty context⟩

/-- Two removed routes in front of the ones that replace them: one for the same name, one for all
names. The third removed route stays. -/
theorem run?_without_shadowing :
    let next : Handler Nat := fun p count command => (.next p command, count + 1)
    let never : Handler Nat := fun _ count _ => (.halt, count + 100)
    let engine : Engine Nat := ⟨{
      name := "two"
      routes := [(Route.exact "mid" never).removed, (Route.exact "top" next).deprecated,
        (Route.predicate (fun _ => true) never).removed, .exact "mid" next,
        (Route.exact "top" never).removed] }, ⟨40⟩⟩
    let deleted : Nat → Bool := fun index => index == 0 || index == 2
    let p : Program := ⟨[⟨⟨"f", 1⟩, .owned [0x74, 0x6f, 0x70] false, [], by decide⟩,
      ⟨⟨"f", 2⟩, .owned [0x6d, 0x69, 0x64] false, [], by decide⟩]⟩
    engine.language.OutOfUse deleted ∧
      engine.language.resolve (.owned [0x6d, 0x69, 0x64] false) = .route 3 ∧
      (engine.language.without deleted).resolve (.owned [0x6d, 0x69, 0x64] false) = .route 1 ∧
      (engine.without deleted).run? 2 p 0 = engine.run? 2 p 0 ∧
      engine.run? 2 p 0 = some (.ok ⟨.handler, 2, some 1, [
        .warning .deprecatedCommand ⟨"f", 1⟩ "command `top` is deprecated"]⟩, 2) := by
  intro next never engine deleted p
  have h : engine.language.OutOfUse deleted := by
    intro index route hroute hdeleted
    match index with
    | 0 | 2 =>
        cases hroute
        rfl
    | 1 | 3 | index + 4 => simp [deleted] at hdeleted
  have hmid : engine.language.resolve (.owned [0x6d, 0x69, 0x64] false) = .route 3 := by
    decide +kernel
  obtain ⟨hnames, hruns⟩ := run?_without h
  refine ⟨h, hmid, ?_, (hruns 2 p 0).2, by decide +kernel⟩
  rw [(hnames _).1, hmid]
  rfl

end Engine

/-! ### Languages that differ in what is deprecated -/

/-- The same route, where one may be deprecated and the other active. -/
structure Route.SameUse {σ π : Type} (route other : Route σ π) : Prop where
  matcher : route.matcher = other.matcher
  handler : route.handler = other.handler
  removed : route.lifecycle = .removed ↔ other.lifecycle = .removed

theorem Route.SameUse.accepts_eq {σ π : Type} {route other : Route σ π} (h : route.SameUse other)
    (name : Part) : route.accepts name = other.accepts name := by
  have hremoved : (route.lifecycle != .removed) = (other.lifecycle != .removed) := by
    rw [Bool.eq_iff_iff, bne_iff_ne, bne_iff_ne, ne_eq, ne_eq, h.removed]
  rw [accepts, accepts, hremoved, h.matcher]

/-- The same language, where some routes of one may be deprecated and active in the other. -/
structure Language.SameUse {σ π : Type} (language other : Language σ π) : Prop where
  name : language.name = other.name
  routes : List.Forall₂ Route.SameUse language.routes other.routes
  fallback : language.fallback = other.fallback

namespace Language.SameUse

variable {σ π : Type} {language other : Language σ π}

/-- What routes of the same use agree in, their tables agree in. -/
theorem map_routes {γ : Type} {f : Route σ π → γ} (h : language.SameUse other)
    (hf : ∀ a b : Route σ π, a.SameUse b → f a = f b) :
    language.routes.map f = other.routes.map f := by
  rw [← List.forall₂_eq_eq_eq, List.forall₂_map_left_iff, List.forall₂_map_right_iff]
  exact h.routes.imp fun {a b} => hf a b

theorem resolve_eq (h : language.SameUse other) (name : Part) :
    language.resolve name = other.resolve name := by
  refine resolve_congr (h.map_routes fun a b hab => hab.accepts_eq name) ?_
  rw [h.fallback]

/-- Both languages have the same handlers at the same places. -/
theorem handlerAt?_eq (h : language.SameUse other) (entry : Resolution) :
    (language.handlerAt? entry).map Prod.fst = (other.handlerAt? entry).map Prod.fst := by
  cases entry with
  | route index =>
      have hhandler := congrArg (fun handlers => handlers[index]?)
        (h.map_routes (f := Route.handler) fun a b hab => hab.handler)
      simpa [handlerAt?, Function.comp_def] using hhandler
  | fallback => simp [handlerAt?, h.fallback]
  | unknown => rfl

theorem handlerFor?_eq (h : language.SameUse other) (name : Part) :
    (language.handlerFor? name).map Prod.fst = (other.handlerFor? name).map Prod.fst := by
  rw [handlerFor?, handlerFor?, h.resolve_eq]
  exact h.handlerAt?_eq _

end Language.SameUse

/-! ### Runs without their warnings -/

def RunLog.withoutWarnings (log : RunLog) : RunLog :=
  { log with warnings := [], warned := [] }

def Summary.withoutWarnings (summary : Summary) : Summary :=
  { summary with warnings := [] }

/-- The outcome with everything but the warnings of a summary. -/
def Outcome.withoutWarnings {π : Type} : Outcome π → Outcome π
  | .ok summary => .ok summary.withoutWarnings
  | .error d => .error d

theorem RunLog.withoutWarnings_invoke (log : RunLog) (command : Command) (isDeprecated : Bool) :
    (log.invoke command isDeprecated).withoutWarnings =
      log.withoutWarnings.invoke command false := by
  cases isDeprecated with
  | false => rfl
  | true =>
      by_cases hmem : command.id ∈ log.warned
      · rw [invoke_of_mem hmem]
        rfl
      · rw [invoke_of_notMem hmem]
        rfl

/-- The same meaning of a place, but for the mark of a deprecated command. -/
inductive Visit.SameUse {σ π : Type} : Visit σ π → Visit σ π → Prop where
  | same (visit : Visit σ π) : SameUse visit visit
  | marked {command : Command} {handler : Handler σ π} (a b : Bool) :
      SameUse (.invoke command handler a) (.invoke command handler b)

/-- Two steps that only differ in what they know of warnings. -/
abbrev RunStep.SameUse {σ π : Type} : RunStep σ π → RunStep σ π → Prop :=
  RunStep.Related (fun log log' => log.withoutWarnings = log'.withoutWarnings)
    (fun outcome outcome' => Outcome.withoutWarnings outcome = Outcome.withoutWarnings outcome')

namespace Engine

variable {σ π : Type} {language other : Language σ π} {log log' : RunLog}

theorem sameUse_visit (h : language.SameUse other) (settings : RunSettings) (p : Program)
    (id : CommandId) :
    ((⟨language, settings⟩ : Engine σ π).visit p id).SameUse
      ((⟨other, settings⟩ : Engine σ π).visit p id) := by
  unfold visit
  cases p.get? id with
  | none => exact .same _
  | some command =>
      have hhandler := h.handlerFor?_eq command.name
      dsimp only
      split
      · exact .same _
      split
      · exact .same _
      cases hfirst : language.handlerFor? command.name with
      | none =>
          rw [hfirst] at hhandler
          rw [Option.map_eq_none_iff.mp hhandler.symm]
          exact .same _
      | some found =>
          obtain ⟨handler, isDeprecated⟩ := found
          rw [hfirst] at hhandler
          obtain ⟨⟨handler', isDeprecated'⟩, hsecond, rfl⟩ :=
            Option.map_eq_some_iff.mp hhandler.symm
          rw [hsecond]
          exact .marked isDeprecated isDeprecated'

theorem event_sameUse (h : language.SameUse other) (settings : RunSettings) (p : Program)
    (id : CommandId) (context : σ) :
    (⟨language, settings⟩ : Engine σ π).event p id context =
      (⟨other, settings⟩ : Engine σ π).event p id context := by
  have hvisit := sameUse_visit h settings p id
  unfold event
  generalize (⟨language, settings⟩ : Engine σ π).visit p id = first at hvisit ⊢
  generalize (⟨other, settings⟩ : Engine σ π).visit p id = second at hvisit ⊢
  cases hvisit with
  | same => cases first <;> simp only [h.resolve_eq]
  | marked a b => simp only [h.resolve_eq]

theorem sameUse_follow {first second : Engine σ π} (hsettings : first.settings = second.settings)
    (hlog : log.withoutWarnings = log'.withoutWarnings) (command : Command)
    (answer : Flow π × σ) :
    (first.follow command log answer).SameUse (second.follow command log' answer) := by
  obtain ⟨flow, context⟩ := answer
  cases flow with
  | proceed next => exact .goOn hlog
  | halt =>
      exact .ended (congrArg (fun log : RunLog => Except.ok (log.summary .handler)) hlog)
  | fail d =>
      have hfailure : first.failure command d = second.failure command d := by
        rw [failure, failure, report, report, hsettings]
      exact .ended (congrArg Except.error hfailure)

theorem sameUse_step (h : language.SameUse other) (settings : RunSettings) (p : Program)
    (hlog : log.withoutWarnings = log'.withoutWarnings) (id : CommandId) (context : σ) :
    ((⟨language, settings⟩ : Engine σ π).step p id log context).SameUse
      ((⟨other, settings⟩ : Engine σ π).step p id log' context) := by
  have hinvoke (command : Command) (a b : Bool) :
      (log.invoke command a).withoutWarnings = (log'.invoke command b).withoutWarnings := by
    rw [RunLog.withoutWarnings_invoke, RunLog.withoutWarnings_invoke, hlog]
  have hvisit := sameUse_visit h settings p id
  unfold step
  generalize (⟨language, settings⟩ : Engine σ π).visit p id = first at hvisit ⊢
  generalize (⟨other, settings⟩ : Engine σ π).visit p id = second at hvisit ⊢
  cases hvisit with
  | marked a b => exact sameUse_follow rfl (hinvoke _ a b) _ _
  | same =>
      cases first with
      | outside =>
          have hlast := congrArg RunLog.last hlog
          refine .ended (congrArg Except.error ?_)
          rw [outsideReport, outsideReport, lastPosition, lastPosition,
            show log.last = log'.last from hlast]
          rfl
      | abort command =>
          exact .ended (congrArg
            (fun log : RunLog => Except.ok ((log.reach command).summary .abort)) hlog)
      | switch command =>
          refine .ended (congrArg Except.error ?_)
          rw [switchReport, switchReport, h.name]
          rfl
      | unknown command => exact .ended rfl
      | invoke command handler isDeprecated => exact sameUse_follow rfl (hinvoke _ _ _) _ _

/-- Deprecation only shows in the warnings of a run that does not fail. Where two languages have the
same routes, of which some are deprecated in one and active in the other, both have the same handler
at the same place for every name. Every run reaches the same commands and invokes the same handlers
on the same contexts, and it ends in both or in neither, with the same context. The diagnostics of
runs that fail are the same, and so is all of a summary but its warnings. -/
theorem run?_sameUse (h : language.SameUse other) (settings : RunSettings) :
    (∀ name, language.resolve name = other.resolve name ∧
      (language.handlerFor? name).map Prod.fst = (other.handlerFor? name).map Prod.fst) ∧
    ∀ steps p context,
      (⟨language, settings⟩ : Engine σ π).history steps p context =
        (⟨other, settings⟩ : Engine σ π).history steps p context ∧
      Option.Rel (fun a b => Outcome.withoutWarnings a.1 = Outcome.withoutWarnings b.1 ∧ a.2 = b.2)
        ((⟨language, settings⟩ : Engine σ π).run? steps p context)
        ((⟨other, settings⟩ : Engine σ π).run? steps p context) := by
  refine ⟨fun name => ⟨h.resolve_eq name, h.handlerFor?_eq name⟩, ?_⟩
  intro steps p context
  unfold history run?
  cases p.head? with
  | none => exact ⟨rfl, .some ⟨rfl, rfl⟩⟩
  | some id =>
      constructor
      · exact historyFrom_congr (event_sameUse h settings p) steps id context
      · have hstep (id : CommandId) (log log' : RunLog) (context : σ)
            (hlog : log.withoutWarnings = log'.withoutWarnings) :=
          sameUse_step h settings p hlog id context
        exact runFrom?_related hstep steps id context rfl

/-- The deprecated route of one language is active in the other, and the other way round. A removed
route stands before both. -/
theorem run?_sameUse_swapped :
    let next : Handler Nat := fun p count command => (.next p command, count + 1)
    let gone : Route Nat := (Route.exact "top" next).removed
    let language : Language Nat :=
      { name := "old", routes := [gone, (Route.exact "top" next).deprecated, .exact "mid" next] }
    let other : Language Nat :=
      { name := "old", routes := [gone, .exact "top" next, (Route.exact "mid" next).deprecated] }
    let p : Program := ⟨[⟨⟨"f", 1⟩, .owned [0x74, 0x6f, 0x70] false, [], by decide⟩,
      ⟨⟨"f", 2⟩, .owned [0x6d, 0x69, 0x64] false, [], by decide⟩]⟩
    language.SameUse other ∧
      (⟨language, {}⟩ : Engine Nat).history 2 p 0 = (⟨other, {}⟩ : Engine Nat).history 2 p 0 ∧
      ∃ summary summary', (⟨language, {}⟩ : Engine Nat).run? 2 p 0 = some (.ok summary, 2) ∧
        (⟨other, {}⟩ : Engine Nat).run? 2 p 0 = some (.ok summary', 2) ∧
        summary.withoutWarnings = summary'.withoutWarnings ∧
        summary.warnings.map (·.pos.line) = [1] ∧ summary'.warnings.map (·.pos.line) = [2] := by
  intro next gone language other p
  have h : language.SameUse other :=
    ⟨rfl, .cons ⟨rfl, rfl, Iff.rfl⟩
      (.cons ⟨rfl, rfl, by decide⟩ (.cons ⟨rfl, rfl, by decide⟩ .nil)), rfl⟩
  have hrun : (⟨language, {}⟩ : Engine Nat).run? 2 p 0 = some (.ok ⟨.handler, 2, some 1, [
      .warning .deprecatedCommand ⟨"f", 1⟩ "command `top` is deprecated"]⟩, 2) := by
    decide +kernel
  have hrun' : (⟨other, {}⟩ : Engine Nat).run? 2 p 0 = some (.ok ⟨.handler, 2, some 1, [
      .warning .deprecatedCommand ⟨"f", 2⟩ "command `mid` is deprecated"]⟩, 2) := by
    decide +kernel
  obtain ⟨hhistory, hrelated⟩ := (run?_sameUse h {}).2 2 p 0
  rw [hrun, hrun'] at hrelated
  obtain ⟨hsame, -⟩ := Option.rel_some_some.mp hrelated
  exact ⟨h, hhistory, _, _, hrun, hrun', Except.ok.inj hsame, rfl, rfl⟩

end Engine

end CommandScript
