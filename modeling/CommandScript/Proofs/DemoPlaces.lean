import CommandScript.Proofs.DemoRun
import CommandScript.Proofs.Places

/-!
The demo language makes nothing of positions: its commands go by their arguments and by their places
in the program, and so does the number of steps that a run is given.
-/

namespace CommandScript.Demo

variable {p q : Program} {c d : Command}

theorem lossy_eq {a b : List Part} (h : a.map Part.detach = b.map Part.detach) :
    a.map Part.lossy = b.map Part.lossy := by
  have hlossy := congrArg (List.map Part.lossy) h
  rwa [List.map_map, List.map_map] at hlossy

theorem count?_detach (args : List Part) : count? (args.map Part.detach) = count? args := by
  match args with
  | [] => rfl
  | [arg] => rfl
  | first :: second :: rest => rfl

theorem count?_eq {a b : List Part} (h : a.map Part.detach = b.map Part.detach) :
    count? a = count? b := by
  rw [← count?_detach a, h, count?_detach]

theorem next_eq (h : p.SameContents q) (hsame : c.placeless = d.placeless) :
    (Flow.next p c : Flow) = Flow.next q d := by
  rw [Flow.next, Flow.next, h.next?_eq, Command.id_eq hsame]

theorem ignoresPlaces_echo : Handler.IgnoresPlaces echo := by
  intro p q id c d s h hc hd
  have hsame := h.placeless_eq hc hd
  have htext : echoText c.args = echoText d.args :=
    congrArg (String.intercalate " ") (lossy_eq (Command.parts_eq hsame).2)
  simp only [echo, next_eq h hsame, htext, and_self]

theorem ignoresPlaces_skip : Handler.IgnoresPlaces skip := by
  intro p q id c d s h hc hd
  have hsame := h.placeless_eq hc hd
  simp only [skip, next_eq h hsame, and_self]

theorem ignoresPlaces_repeatPrevious : Handler.IgnoresPlaces repeatPrevious := by
  intro p q id c d s h hc hd
  have hsame := h.placeless_eq hc hd
  unfold repeatPrevious
  rw [count?_eq (Command.parts_eq hsame).2, h.prev?_eq, Command.id_eq hsame, next_eq h hsame]
  cases count? d.args with
  | none => exact ⟨rfl, rfl⟩
  | some count =>
      cases q.prev? d.id with
      | none => exact ⟨rfl, rfl⟩
      | some target =>
          dsimp only
          cases (s.remaining? d.id).getD count with
          | zero => exact ⟨rfl, rfl⟩
          | succ left => exact ⟨rfl, rfl⟩

theorem ignoresPlaces_language (strict : Bool) : (language strict).IgnoresPlaces where
  matchers := by
    intro route hroute
    simp only [language, List.mem_cons, List.not_mem_nil, or_false] at hroute
    rcases hroute with rfl | rfl | rfl
    · exact Matcher.ignoresPlaces_exact "echo"
    · exact Matcher.ignoresPlaces_exact "say"
    · exact Matcher.ignoresPlaces_exact "repeat"
  handlers := by
    intro route hroute
    simp only [language, List.mem_cons, List.not_mem_nil, or_false] at hroute
    rcases hroute with rfl | rfl | rfl
    · exact ignoresPlaces_echo
    · exact ignoresPlaces_echo
    · exact ignoresPlaces_repeatPrevious
  fallback := by
    intro handler hhandler
    cases strict with
    | true => exact absurd hhandler (by simp [language])
    | false =>
        obtain rfl := Option.some.inj hhandler
        exact ignoresPlaces_skip

theorem cost_placeless (previous : Nat) (line : Line) :
    cost previous line.placeless = cost previous line := by
  have hcount : count? line.placeless.args = count? line.args := count?_detach line.args
  rw [cost, cost, hcount]
  rfl

theorem costs_placeless (previous : Nat) (lines : List Line) :
    costs previous (lines.map Line.placeless) = costs previous lines := by
  induction lines generalizing previous with
  | nil => rfl
  | cons line lines ih => rw [List.map_cons, costs, costs, cost_placeless, ih]

theorem stepBound_eq (h : p.SameContents q) : stepBound p = stepBound q := by
  have hcosts : costs 0 p.lines = costs 0 q.lines := by
    rw [← costs_placeless 0 p.lines, h.lines_eq, costs_placeless]
  rw [stepBound, stepBound, hcosts]

/-- Every run of the language ends in the steps it is given. -/
theorem exists_run? (strict : Bool) (settings : RunSettings) (p : Program) :
    ∃ outcome s, run? strict settings p = some (outcome, s) := by
  rcases Nat.eq_zero_or_pos p.size with hempty | hsize
  · have hlines : p.lines = [] := List.length_eq_zero_iff.mp hempty
    rw [run?, Engine.run?, Program.head?, hlines]
    exact ⟨_, _, rfl⟩
  obtain ⟨log, rest, -, hrun⟩ := exists_passed strict settings hsize 0
  rw [run?, ← Nat.add_zero (stepBound p), hrun, Engine.goPast?]
  split
  · rename_i hlt
    obtain ⟨command, hcommand⟩ := Program.exists_get? hlt
    obtain ⟨stop, hstop⟩ := exists_stop hcommand
    exact ⟨_, _, Engine.runFrom?_of_ended _ (step_of_stop hcommand hstop)⟩
  · exact ⟨_, _, rfl⟩

/-- Runs of programs with the same contents do the same to the session. -/
theorem exists_run?_of_sameContents (strict : Bool) (settings : RunSettings)
    (h : p.SameContents q) :
    ∃ outcome outcome' s, Outcome.placeless outcome = Outcome.placeless outcome' ∧
      run? strict settings p = some (outcome, s) ∧ run? strict settings q = some (outcome', s) := by
  obtain ⟨outcome, s, hrun⟩ := exists_run? strict settings p
  have halike : (engine strict settings).RunsAlike p q .empty :=
    Engine.runsAlike_of_sameContents (ignoresPlaces_language strict) h Session.empty
  have hrel := (halike (stepBound p)).2
  unfold run? at hrun ⊢
  rw [← stepBound_eq h]
  rw [hrun] at hrel
  cases hother : (engine strict settings).run? (stepBound p) q .empty with
  | none =>
      rw [hother] at hrel
      cases hrel
  | some result =>
      obtain ⟨outcome', s'⟩ := result
      rw [hother] at hrel
      cases hrel with
      | some hresult =>
          obtain ⟨houtcome, rfl⟩ := hresult
          exact ⟨outcome, outcome', s, houtcome, hrun, rfl⟩

end CommandScript.Demo
