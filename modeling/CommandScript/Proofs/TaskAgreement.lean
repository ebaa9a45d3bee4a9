import CommandScript.Proofs.DemoLoops
import CommandScript.Proofs.FormatFile
import CommandScript.Proofs.TaskReports
import CommandScript.Proofs.Warnings

/-!
Tasks agree about a file. All that read it take it for the same program or report the same
diagnostic, which is an error. The status of a check or of a run is that of its diagnostics, so it
matters that a run which ends well leaves warnings and no errors, and that one which fails leaves an
error, also where a handler made the report.
-/

namespace CommandScript

/-! ### Severities -/

/-- Whatever the handler fails with is an error. -/
def Handler.FailsWithErrors {σ π : Type} (handler : Handler σ π) : Prop :=
  ∀ p context command d, (handler p context command).1 = .fail d → d.severity = .error

/-- The severities tell how a run has ended: there are only warnings in a summary, and a failure is
an error. -/
def Outcome.Graded {π : Type} : Outcome π → Prop
  | .ok summary => ∀ d ∈ summary.warnings, d.severity = .warning
  | .error d => d.severity = .error

theorem Program.severity_of_parseWith {settings : ParseSettings} {source : Bytes} {d : Diagnostic}
    (h : parseWith settings source = .error d) : d.severity = .error := by
  unfold parseWith at h
  cases hsource : ofSource settings source with
  | ok p =>
      rw [hsource] at h
      cases h
  | error fault =>
      rw [hsource] at h
      obtain rfl := Except.error.inj h
      exact (fault.report_fields settings).2.1

namespace Engine

variable {σ π : Type} {engine : Engine σ π} {p : Program} {context final : σ} {steps : Nat}

theorem severity_failure {cause : Diagnostic π} (h : cause.severity = .error) (command : Command) :
    (engine.failure command cause).severity = .error := by
  have hreports := failure_reports engine command cause
  split at hreports
  · exact hreports.severity_eq
  · exact hreports.2.1.trans h

theorem graded_of_run? {outcome : Outcome π}
    (hhandlers : engine.language.AllHandlers Handler.FailsWithErrors)
    (h : engine.run? steps p context = some (outcome, final)) : Outcome.Graded outcome := by
  rcases answer_of_run? h with ⟨rfl, -⟩ | ⟨id, before, event, hhead, -, hhistory, hanswer⟩
  · exact fun d hd => absurd hd List.not_mem_nil
  cases outcome with
  | ok summary =>
      obtain ⟨commands, hwarns, -⟩ := exists_warns_of_head? engine steps context hhead
      have hwarnings := hwarns.warnings
      rw [hhistory, RunLog.behind_concat, ← warnings_of_answer hanswer] at hwarnings
      have hseverities := hwarnings.imp fun d command hwarn => And.intro hwarn.severity_eq hwarn
      exact ((List.forall₂_and_left _ _).mp hseverities).1
  | error d =>
      have hsound := (dispatchSafe_historyFrom hhead).sound before event [] hhistory
      cases event with
      | invoke command entry start flow finish =>
          obtain ⟨-, -, -, -, handler, hgives, hhandler⟩ := hsound
          cases flow with
          | fail cause =>
              cases hanswer
              have hcause : cause.severity = .error :=
                hhandlers.of_gives hgives p start command cause (by rw [hhandler])
              exact severity_failure hcause command
          | _ => cases hanswer
      | abort command => cases hanswer
      | _ =>
          cases hanswer
          exact (report_reports engine rfl _ _).severity_eq

end Engine

theorem Flow.next_ne_fail {π : Type} {p : Program} {command : Command} {d : Diagnostic π} :
    Flow.next p command ≠ .fail d := by
  unfold next
  cases p.next? command.id <;> exact nofun

/-- The demo language only fails with errors. -/
theorem Demo.failsWithErrors_language (strict : Bool) :
    (language strict).AllHandlers Handler.FailsWithErrors := by
  have hecho : Handler.FailsWithErrors echo :=
    fun p s command d hfail => absurd hfail Flow.next_ne_fail
  have hskip : Handler.FailsWithErrors skip :=
    fun p s command d hfail => absurd hfail Flow.next_ne_fail
  have hrepeat : Handler.FailsWithErrors repeatPrevious := by
    intro p s command d hfail
    unfold repeatPrevious at hfail
    cases hcount : count? command.args with
    | none =>
        rw [hcount] at hfail
        cases hfail
        rfl
    | some count =>
        cases hprevious : p.prev? command.id with
        | none =>
            rw [hcount, hprevious] at hfail
            cases hfail
            rfl
        | some target =>
            simp only [hcount, hprevious] at hfail
            cases hleft : (s.remaining? command.id).getD count with
            | zero =>
                rw [hleft] at hfail
                exact absurd hfail Flow.next_ne_fail
            | succ left =>
                rw [hleft] at hfail
                cases hfail
  exact allHandlers_language hecho hrepeat hskip strict

namespace CommandLine

/-- The file that a task reads. -/
def Task.file? : Task → Option String
  | .parse file => some file
  | .check file => some file
  | .format file _ => some file
  | .run file _ => some file
  | .explain _ => none

/-! ### What the reports of tasks say -/

namespace Result

/-- The result prints a program of so many commands, by itself or as a member of a report. -/
def DumpsCommands (result : Result) (style : OutputStyle) (count : Nat) : Prop :=
  ∃ items, items.length = count ∧
    match style with
    | .pretty => result.Says "commands" (.array items)
    | .json => ∃ program, result.Says "program" program ∧
        program.HasMember "commands" (.array items)

/-- The result tells that there are so many commands, in its notice or in a report. -/
def CountsCommands (result : Result) (style : OutputStyle) (count : Nat) : Prop :=
  match style with
  | .pretty => result.notices = [.line ("syntax ok (" ++ toString count ++ " commands)")]
  | .json => result.Says "commands" (.number (some count))

end Result

namespace Environment

variable {env : Environment} {file : String} {source : Bytes} {p : Program} {d : Diagnostic}

theorem statusOf_eq_zero_iff {diagnostics : List Diagnostic} :
    statusOf diagnostics = 0 ↔ ∀ d ∈ diagnostics, d.severity ≠ .error := by
  simp [statusOf]

/-- The status of a run tells how it has ended, since the severities do. -/
theorem statusOf_runDiagnostics {outcome : Outcome} (h : Outcome.Graded outcome) :
    statusOf (runDiagnostics outcome) = 0 ↔ outcome.isOk = true := by
  rw [statusOf_eq_zero_iff]
  cases outcome with
  | ok summary =>
      refine iff_of_true ?_ rfl
      intro d hd herror
      rw [h d hd] at herror
      cases herror
  | error d =>
      refine iff_of_false ?_ (by simp [Except.isOk, Except.toBool])
      intro hnone
      exact hnone d (List.mem_singleton_self d) h

/-! ### A source that does not parse -/

/-- The result is that of a failure with one diagnostic: it has status 1, and a report for programs
lists this diagnostic alone. -/
def FailsWith (env : Environment) (d : Diagnostic) (result : Result) : Prop :=
  result.status = 1 ∧ (env.style = .json → result.Lists [d])

theorem failsWith_parseFailure {members : List (String × Json)}
    (hmembers : ∀ m ∈ members, m.1 ≠ "diagnostics") :
    env.FailsWith d (env.parseFailure members d) := by
  unfold FailsWith parseFailure
  cases env.style with
  | pretty => exact ⟨rfl, nofun⟩
  | json =>
      refine ⟨rfl, fun _ => Result.lists_of_sortedReport rfl ?_⟩
      rw [List.filter_append, List.filter_eq_nil_iff.mpr (by simpa using hmembers)]
      rfl

theorem failsWith_checkTask (hsource : env.source? file = some source)
    (hparse : env.parse file source = .error d) : env.FailsWith d (env.checkTask file) := by
  have hstatus : statusOf [d] = 1 := by
    simp [statusOf, Program.severity_of_parseWith hparse]
  simp only [FailsWith, checkTask, hsource, hparse, parseDiagnostics, hstatus]
  cases env.style with
  | pretty => exact ⟨rfl, nofun⟩
  | json => exact ⟨rfl, fun _ => Result.lists_of_sortedReport rfl rfl⟩

/-- Every task that reads the file fails with the diagnostic of its source. -/
theorem failsWith_run (hsource : env.source? file = some source)
    (hparse : env.parse file source = .error d) {task : Task} (htask : task.file? = some file) :
    env.FailsWith d (env.run task) := by
  have hfails {members : List (String × Json)} (task : Bytes → Program → Result)
      (hmembers : ∀ m ∈ members, m.1 ≠ "diagnostics") :
      env.FailsWith d (env.withProgram file members task) := by
    rw [withProgram, hsource]
    dsimp only
    rw [hparse]
    exact failsWith_parseFailure hmembers
  cases task with
  | parse _ =>
      obtain rfl := Option.some.inj htask
      exact hfails _ (by simp)
  | check _ =>
      obtain rfl := Option.some.inj htask
      exact failsWith_checkTask hsource hparse
  | format _ mode =>
      obtain rfl := Option.some.inj htask
      exact hfails _ (by simp)
  | run _ strict =>
      obtain rfl := Option.some.inj htask
      exact hfails _ (by simp)
  | explain id => cases htask

/-! ### A source that parses -/

theorem parseTask_of_parse (hsource : env.source? file = some source)
    (hparse : env.parse file source = .ok p) :
    (env.parseTask file).status = 0 ∧ (env.parseTask file).DumpsCommands env.style p.size := by
  have hsize : p.commands.length = p.size := by
    simp [Program.commands, Program.size]
  simp only [parseTask, withProgram, hsource, hparse]
  cases env.style with
  | pretty =>
      refine ⟨rfl, Json.contents (p.commands.map Command.toJson), ?_, ?_⟩
      · rw [Json.contents_eq_map, List.length_map, List.length_map, hsize]
      · exact ⟨p.dump, p.toJson.content, rfl, Json.denotes_pretty p.toJson, _, rfl, rfl⟩
  | json =>
      refine ⟨rfl, Json.contents (Json.sortedItems (p.commands.map Command.toJson)), ?_,
        p.toJson.sorted.content, ?_, ?_⟩
      · rw [Json.contents_eq_map, Json.sortedItems_eq_map, List.length_map, List.length_map,
          List.length_map, hsize]
      · exact Result.says_of_sortedReport rfl rfl
      · have hmember : p.toJson.sorted.content.HasMember "commands"
            (Json.array (p.commands.map Command.toJson)).sorted.content :=
          Json.hasMember_sorted rfl
        exact hmember

theorem checkTask_of_parse (hsource : env.source? file = some source)
    (hparse : env.parse file source = .ok p) :
    (env.checkTask file).status = 0 ∧ (env.checkTask file).CountsCommands env.style p.size := by
  simp only [checkTask, hsource, hparse]
  cases env.style with
  | pretty => exact ⟨rfl, rfl⟩
  | json =>
      refine ⟨rfl, ?_⟩
      show Result.Says _ "commands" (Json.number p.size).sorted.content
      exact Result.says_of_sortedReport rfl rfl

/-- What formatting prints is read as a program with as many commands. -/
theorem formatTask_print_of_parse (hsource : env.source? file = some source)
    (hparse : env.parse file source = .ok p) :
    (env.formatTask file .print).status = 0 ∧
      ∃ q, env.parse file (env.formatTask file .print).output = .ok q ∧ q.size = p.size := by
  refine ⟨?_, ?_⟩
  · simp only [formatTask, withProgram, hsource, hparse]
    rfl
  · obtain ⟨q, hq, hsame⟩ :=
      Program.exists_ofSource_format (Program.parseWith_eq_ok_iff.mp hparse) _ rfl
    rw [output_formatTask hsource hparse]
    exact ⟨q, Program.parseWith_eq_ok_iff.mpr hq, hsame.size_eq.symm⟩

/-- A run ends, and both its status and its report tell how. -/
theorem runTask_of_parse (strict : Bool) (hsource : env.source? file = some source)
    (hparse : env.parse file source = .ok p) :
    ∃ outcome session, Demo.run? strict env.settings.run p = some (outcome, session) ∧
      ((env.runTask file strict).status = 0 ↔ outcome.isOk = true) ∧
      (env.style = .json → (env.runTask file strict).Says "ok" (.bool outcome.isOk)) := by
  obtain ⟨outcome, session, hrun⟩ := Demo.exists_run? strict env.settings.run p
  have hgraded : Outcome.Graded outcome :=
    Engine.graded_of_run? (Demo.failsWithErrors_language strict) hrun
  have hstatus := statusOf_runDiagnostics hgraded
  refine ⟨outcome, session, hrun, ?_⟩
  rw [runTask_eq hsource hparse hrun, runReport]
  cases env.style with
  | pretty => exact ⟨hstatus, nofun⟩
  | json =>
      refine ⟨hstatus, fun _ => ⟨_, _, rfl, Json.denotes_pretty _, ?_⟩⟩
      cases outcome <;> exact ⟨_, rfl, rfl⟩

end Environment

/-- The tasks agree about a file, whatever its bytes and the settings, in both styles of output. If
its source does not parse, every task that reads the file ends with status 1, and its report for
programs lists the diagnostic of the source and no other. If it parses, then parsing, checking and
printing the formatted text end with status 0; the check counts as many commands as the printed
program has, and as are read from the formatted text. A run ends with status 0 if and only if it
does not fail, and that is also what its report says. -/
theorem tasks_agree {env : Environment} {file : String} {source : Bytes}
    (hsource : env.source? file = some source) :
    let settings := { env.settings.parse with fileName := env.displayName file }
    (∀ d, Program.parseWith settings source = .error d →
      ∀ arguments task, Starts arguments env task → task.file? = some file →
        let result := execute arguments env.surroundings
        result.status = 1 ∧ (env.style = .json → result.Lists [d])) ∧
    ∀ p, Program.parseWith settings source = .ok p →
      ∀ arguments,
        let result := execute arguments env.surroundings
        (Starts arguments env (.parse file) →
          result.status = 0 ∧ result.DumpsCommands env.style p.size) ∧
        (Starts arguments env (.check file) →
          result.status = 0 ∧ result.CountsCommands env.style p.size) ∧
        (Starts arguments env (.format file .print) →
          result.status = 0 ∧
            ∃ q, Program.parseWith settings result.output = .ok q ∧ q.size = p.size) ∧
        ∀ strict, Starts arguments env (.run file strict) →
          ∃ outcome session, Demo.run? strict env.settings.run p = some (outcome, session) ∧
            (result.status = 0 ↔ outcome.isOk = true) ∧
            (env.style = .json → result.Says "ok" (.bool outcome.isOk)) := by
  intro settings
  refine ⟨?_, ?_⟩
  · intro d hparse arguments task hstarts htask result
    have hresult : result = env.run task := hstarts.execute_eq
    rw [hresult]
    exact Environment.failsWith_run hsource hparse htask
  intro p hparse arguments result
  have hresult {task : Task} (hstarts : Starts arguments env task) : result = env.run task :=
    hstarts.execute_eq
  refine ⟨?_, ?_, ?_, ?_⟩
  · intro hstarts
    rw [hresult hstarts]
    exact Environment.parseTask_of_parse hsource hparse
  · intro hstarts
    rw [hresult hstarts]
    exact Environment.checkTask_of_parse hsource hparse
  · intro hstarts
    rw [hresult hstarts]
    exact Environment.formatTask_print_of_parse hsource hparse
  · intro strict hstarts
    rw [hresult hstarts]
    exact Environment.runTask_of_parse strict hsource hparse

/-- A program that only runs if commands may be skipped, next to a block that is not closed. -/
theorem tasks_agree_skipping :
    let surroundings : Surroundings :=
      ⟨[("f", Bytes.ofString "say 'hi'\nstop\n"), ("g", Bytes.ofString "?begin\n")], [], false⟩
    let lenient := execute ["run", "f"] surroundings
    let strict := execute ["run", "f", "--strict"] surroundings
    let d : Diagnostic := ⟨.unclosedBlock, .error, ⟨"g", 1⟩, "unclosed `?begin` block", 512, none⟩
    ((execute ["parse", "f"] surroundings).DumpsCommands .json 2 ∧
      (execute ["check", "f"] surroundings).CountsCommands .json 2 ∧
      ∃ q, Program.parseWith (.forFile "f") (execute ["fmt", "f"] surroundings).output = .ok q ∧
        q.size = 2) ∧
    (lenient.status = 0 ∧ lenient.Says "ok" (.bool true)) ∧
    (strict.status ≠ 0 ∧ strict.Says "ok" (.bool false)) ∧
    ((execute ["check", "g"] surroundings).Lists [d] ∧
      (execute ["fmt", "g", "--check"] surroundings).Lists [d]) := by
  -- The files are read and parsed first, as long as no result is in the context.
  obtain ⟨p, hparse, hsize, hruns⟩ : ∃ p,
      Program.parseWith (.forFile "f") (Bytes.ofString "say 'hi'\nstop\n") = .ok p ∧ p.size = 2 ∧
      ∀ strict, (Demo.run? strict {} p).map (fun ended => ended.1.isOk) = some (!strict) := by
    refine ⟨⟨[
      ⟨⟨"f", 1⟩, ⟨[0x73, 0x61, 0x79], false, true⟩, [⟨[0x68, 0x69], true, true⟩], by simp⟩,
      ⟨⟨"f", 2⟩, ⟨[0x73, 0x74, 0x6f, 0x70], false, true⟩, [], by simp⟩]⟩, ?_, rfl, ?_⟩
    · decide +kernel
    · intro strict
      cases strict <;> decide +kernel
  have herror : Program.parseWith (.forFile "g") (Bytes.ofString "?begin\n") = .error
      ⟨.unclosedBlock, .error, ⟨"g", 1⟩, "unclosed `?begin` block", 512, none⟩ := by
    decide +kernel
  intro surroundings
  let env : Environment := ⟨surroundings, {}, .json⟩
  have hgood : env.source? "f" = some (Bytes.ofString "say 'hi'\nstop\n") := by decide +kernel
  have hbad : env.source? "g" = some (Bytes.ofString "?begin\n") := by decide +kernel
  intro lenient strict d
  have hstarts {arguments : List String} {task : Task}
      (h : Request.ofArguments arguments = .ok ⟨none, none, task⟩) : Starts arguments env task :=
    ⟨_, h, rfl, rfl, rfl⟩
  obtain ⟨-, hparses⟩ := tasks_agree hgood
  obtain ⟨hfails, -⟩ := tasks_agree hbad
  have hrun {strict : Bool} {arguments : List String}
      (h : Request.ofArguments arguments = .ok ⟨none, none, .run "f" strict⟩) :
      let result := execute arguments surroundings
      (result.status = 0 ↔ strict = false) ∧ result.Says "ok" (.bool !strict) := by
    obtain ⟨-, -, -, hends⟩ := hparses p hparse arguments
    obtain ⟨outcome, session, hrun, hstatus, hok⟩ := hends strict (hstarts h)
    have hended := hruns strict
    rw [show Demo.run? strict {} p = _ from hrun] at hended
    have houtcome : outcome.isOk = !strict := Option.some.inj hended
    rw [houtcome] at hstatus hok
    exact ⟨by simpa using hstatus, hok rfl⟩
  refine ⟨⟨?_, ?_, ?_⟩, ?_, ?_, ?_, ?_⟩
  · obtain ⟨hdumps, -⟩ := hparses p hparse ["parse", "f"]
    rw [hsize] at hdumps
    exact (hdumps (hstarts (by decide +kernel))).2
  · obtain ⟨-, hcounts, -⟩ := hparses p hparse ["check", "f"]
    rw [hsize] at hcounts
    exact (hcounts (hstarts (by decide +kernel))).2
  · obtain ⟨-, -, hprints, -⟩ := hparses p hparse ["fmt", "f"]
    rw [hsize] at hprints
    exact (hprints (hstarts (by decide +kernel))).2
  · have harguments : Request.ofArguments ["run", "f"] = .ok ⟨none, none, .run "f" false⟩ := by
      decide +kernel
    obtain ⟨hstatus, hok⟩ := hrun harguments
    exact ⟨hstatus.mpr rfl, hok⟩
  · have harguments : Request.ofArguments ["run", "f", "--strict"] =
        .ok ⟨none, none, .run "f" true⟩ := by decide +kernel
    obtain ⟨hstatus, hok⟩ := hrun harguments
    exact ⟨mt hstatus.mp (by decide), hok⟩
  · exact (hfails d herror ["check", "g"] (.check "g") (hstarts (by decide +kernel)) rfl).2 rfl
  · exact (hfails d herror ["fmt", "g", "--check"] (.format "g" .check)
      (hstarts (by decide +kernel)) rfl).2 rfl

end CommandLine

end CommandScript
