import CommandScript.Proofs.ForwardOnly

/-!
The states of a run: the place it is about to execute, its log and the context. A run starts in one
state and gets from each to the next by a step, so what a step keeps holds all along, and a run that
ends does so by a step from a state that it has reached. Where handlers do the same in another
context as they do in this one, up to a change that they never look at, whole runs do.
-/

namespace CommandScript

namespace Engine

variable {σ π : Type} {engine : Engine σ π} {p : Program} {start final : σ} {steps : Nat}
variable {outcome : Outcome π}

/-! ### States -/

/-- The states that a run of a program gets to from a context at the start. -/
inductive Reaches (engine : Engine σ π) (p : Program) (start : σ) :
    CommandId → RunLog → σ → Prop where
  | head {id : CommandId} (hhead : p.head? = some id) : Reaches engine p start id .empty start
  | step {id next : CommandId} {log after : RunLog} {context changed : σ}
      (h : Reaches engine p start id log context)
      (hstep : engine.step p id log context = .goOn next after changed) :
      Reaches engine p start next after changed

theorem Reaches.exists_of_runFrom? {id : CommandId} {log : RunLog} {context : σ}
    (h : engine.Reaches p start id log context)
    (hrun : engine.runFrom? p steps id log context = some (outcome, final)) :
    ∃ id log context, engine.Reaches p start id log context ∧
      engine.step p id log context = .ended outcome final := by
  induction steps generalizing id log context with
  | zero => cases hrun
  | succ steps ih =>
      cases hstep : engine.step p id log context with
      | goOn next after changed =>
          rw [runFrom?_of_goOn steps hstep] at hrun
          exact ih (h.step hstep) hrun
      | ended result left =>
          rw [runFrom?_of_ended steps hstep] at hrun
          cases hrun
          exact ⟨id, log, context, h, hstep⟩

/-- A run that ends does so by a step from one of its states, unless there are no commands. -/
theorem exists_reaches_of_run? (h : engine.run? steps p start = some (outcome, final)) :
    final = start ∨ ∃ id log context, engine.Reaches p start id log context ∧
      engine.step p id log context = .ended outcome final := by
  unfold run? at h
  cases hhead : p.head? with
  | none =>
      rw [hhead] at h
      cases h
      exact Or.inl rfl
  | some id =>
      rw [hhead] at h
      exact Or.inr ((Reaches.head hhead).exists_of_runFrom? h)

end Engine

/-! ### Changes of the context -/

/-- The handler asks for the same in a changed context, and what it leaves is changed likewise. -/
def Handler.Respects {σ π : Type} (change : σ → σ) (handler : Handler σ π) : Prop :=
  ∀ p context command, handler p (change context) command =
    ((handler p context command).1, change (handler p context command).2)

/-- The step with its context changed. -/
def RunStep.change {σ π : Type} (change : σ → σ) : RunStep σ π → RunStep σ π
  | .goOn next log context => .goOn next log (change context)
  | .ended outcome context => .ended outcome (change context)

namespace Engine

variable {σ π : Type} {engine : Engine σ π} {change : σ → σ}

theorem step_change (hrespects : engine.language.AllHandlers (Handler.Respects change))
    (p : Program) (id : CommandId) (log : RunLog) (context : σ) :
    engine.step p id log (change context) = (engine.step p id log context).change change := by
  have hmeets := engine.meets_visit p id
  unfold step
  generalize engine.visit p id = visit at hmeets ⊢
  cases hmeets with
  | @invoke command handler isDeprecated hcommand habort hswitch hhandler =>
      have hsame := hrespects.of_handlerFor? hhandler p context command
      dsimp only
      rw [hsame]
      obtain ⟨flow, finish⟩ := handler p context command
      cases flow with
      | _ => rfl
  | _ => rfl

theorem runFrom?_change (hrespects : engine.language.AllHandlers (Handler.Respects change))
    (p : Program) (steps : Nat) (id : CommandId) (log : RunLog) (context : σ) :
    engine.runFrom? p steps id log (change context) =
      (engine.runFrom? p steps id log context).map fun ended => (ended.1, change ended.2) := by
  induction steps generalizing id log context with
  | zero => rfl
  | succ steps ih =>
      have hchanged := step_change hrespects p id log context
      cases hstep : engine.step p id log context with
      | goOn next after left =>
          rw [hstep] at hchanged
          rw [runFrom?_of_goOn steps hchanged, runFrom?_of_goOn steps hstep, ih]
      | ended outcome left =>
          rw [hstep] at hchanged
          rw [runFrom?_of_ended steps hchanged, runFrom?_of_ended steps hstep]
          rfl

/-- A run in a changed context ends in the same way, and what it leaves is changed likewise. -/
theorem run?_change (hrespects : engine.language.AllHandlers (Handler.Respects change))
    (steps : Nat) (p : Program) (context : σ) :
    engine.run? steps p (change context) =
      (engine.run? steps p context).map fun ended => (ended.1, change ended.2) := by
  unfold run?
  cases p.head? with
  | none => rfl
  | some id => exact runFrom?_change hrespects p steps id .empty context

end Engine

end CommandScript
