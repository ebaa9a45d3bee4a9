import CommandScript.CommandLine.Execution
import CommandScript.Proofs.DemoPlaces
import CommandScript.Proofs.ParseFailure

/-!
Formatting does not change what a program does. The text of a program is read as a program with the
same contents, so every language that makes nothing of positions runs both in the same way. The demo
language is one, and so the command line shows the same run for a file and for its formatted text.
-/

namespace CommandScript

/-- Whether a source is a program only depends on the limit of parts. -/
theorem Program.exists_ofSource {settings : ParseSettings} {source : Bytes} {p : Program}
    (h : ofSource settings source = .ok p) (settings' : ParseSettings)
    (hlimit : settings'.partsPerLine = settings.partsPerLine) :
    ∃ q, ofSource settings' source = .ok q := by
  cases hsource : ofSource settings' source with
  | ok q => exact ⟨q, rfl⟩
  | error fault =>
      have hfault := ofSource_eq_error_iff.mp hsource
      rw [hlimit] at hfault
      rw [ofSource_eq_error_iff.mpr hfault] at h
      cases h

/-- The text of a program is read as one with the same contents, also in another file. -/
theorem Program.exists_ofSource_format {settings : ParseSettings} {source : Bytes} {p : Program}
    (h : ofSource settings source = .ok p) (settings' : ParseSettings)
    (hlimit : settings'.partsPerLine = settings.partsPerLine) :
    ∃ q, ofSource settings' p.format = .ok q ∧ p.SameContents q := by
  have hpositive : 0 < settings'.partsPerLine := by
    rw [hlimit]
    exact (Grouping.of_ofSource h).1
  have hwritable : p.Writable settings' := by
    unfold Writable
    rw [hlimit]
    exact writable_of_ofSource h
  obtain ⟨q, hq, hsame⟩ := exists_sameContents hpositive hwritable
  exact ⟨q, hq, hsame.symm⟩

namespace CommandLine.Environment

variable {env env' : Environment} {file file' : String} {source : Bytes} {p : Program}

/-- What the command line says of a run that has ended. -/
def runReport (env : Environment) (outcome : Outcome) (session : Demo.Session) : Result :=
  let diagnostics := runDiagnostics outcome
  match env.style with
  | .json => env.result (statusOf diagnostics) (textLine (runJson outcome session).pretty) []
  | .pretty =>
    env.result (statusOf diagnostics) (session.output.toList.flatMap textLine)
      (findings diagnostics)

theorem runTask_eq {strict : Bool} {outcome : Outcome} {session : Demo.Session}
    (hsource : env.source? file = some source) (hparse : env.parse file source = .ok p)
    (hrun : Demo.run? strict env.settings.run p = some (outcome, session)) :
    env.runTask file strict = env.runReport outcome session := by
  simp only [runTask, withProgram, hsource, hparse, hrun]
  rfl

theorem output_formatTask (hsource : env.source? file = some source)
    (hparse : env.parse file source = .ok p) : (env.formatTask file .print).output = p.format := by
  simp only [formatTask, withProgram, hsource, hparse]
  rfl

/-- A file and its formatted text are run in the same way. -/
theorem runTask_of_format (strict : Bool) (hsource : env.source? file = some source)
    (hparse : env.parse file source = .ok p) (hsettings : env'.settings = env.settings)
    (hformat : env'.source? file' = some (env.formatTask file .print).output) :
    ∃ outcome outcome' session, Outcome.placeless outcome = Outcome.placeless outcome' ∧
      env.runTask file strict = env.runReport outcome session ∧
      env'.runTask file' strict = env'.runReport outcome' session := by
  rw [output_formatTask hsource hparse] at hformat
  have hlimit : env'.settings.parse.partsPerLine = env.settings.parse.partsPerLine := by
    rw [hsettings]
  obtain ⟨q, hq, hsame⟩ := Program.exists_ofSource_format (Program.parseWith_eq_ok_iff.mp hparse)
    { env'.settings.parse with fileName := env'.displayName file' } hlimit
  have hparse' : env'.parse file' p.format = .ok q := Program.parseWith_eq_ok_iff.mpr hq
  obtain ⟨outcome, outcome', session, houtcome, hrun, hrun'⟩ :=
    Demo.exists_run?_of_sameContents strict env.settings.run hsame
  rw [← hsettings] at hrun'
  exact ⟨outcome, outcome', session, houtcome, runTask_eq hsource hparse hrun,
    runTask_eq hformat hparse' hrun'⟩

end CommandLine.Environment

/-- A program and what is read from its text run alike in every language that makes nothing of
positions, from every context. The demo language is such a language, strict or not. So for a file
and for a file with its formatted text, under the same settings, the command line reports one and
the same session, with outcomes that only differ in positions. -/
theorem runsAlike_format {source : Bytes} {limit : Nat} {p : Program}
    (h : Program.parse source limit = .ok p) :
    ∃ q, Program.parse p.format limit = .ok q ∧
      (∀ (σ π : Type) (engine : Engine σ π) (context : σ), engine.language.IgnoresPlaces →
        engine.RunsAlike p q context) ∧
      (∀ strict, (Demo.language strict).IgnoresPlaces) ∧
      ∀ (env env' : CommandLine.Environment) (file file' : String) (strict : Bool),
        env.source? file = some source → env.settings.parse.partsPerLine = limit →
        env'.settings = env.settings →
        env'.source? file' = some (env.formatTask file .print).output →
          ∃ outcome outcome' session, Outcome.placeless outcome = Outcome.placeless outcome' ∧
            env.runTask file strict = env.runReport outcome session ∧
            env'.runTask file' strict = env'.runReport outcome' session := by
  have hsource := Program.parseWith_eq_ok_iff.mp h
  obtain ⟨q, hq, hsame⟩ := Program.exists_ofSource_format hsource _ rfl
  refine ⟨q, Program.parseWith_eq_ok_iff.mpr hq, ?_, Demo.ignoresPlaces_language, ?_⟩
  · intro σ π engine context hlanguage
    exact Engine.runsAlike_of_sameContents hlanguage hsame context
  · intro env env' file file' strict hfile hlimit hsettings hformat
    obtain ⟨read, hread⟩ := Program.exists_ofSource hsource
      { env.settings.parse with fileName := env.displayName file } hlimit
    exact CommandLine.Environment.runTask_of_format strict hfile
      (Program.parseWith_eq_ok_iff.mpr hread) hsettings hformat

/-- A deprecated command below a comment, and a loop in a block. -/
theorem runsAlike_format_block :
    ∃ p q, Program.parse (Bytes.ofString "# twice\nsay 'hi'\n?begin\nrepeat\n1\n?end\n") 2 = .ok p ∧
      Program.parse p.format 2 = .ok q ∧
      Engine.RunsAlike ⟨Demo.language true, {}⟩ p q .empty ∧
      let source := Bytes.ofString "# twice\nsay 'hi'\n?begin\nrepeat\n1\n?end\n"
      let settings : Settings := { parse := { partsPerLine := 2 } }
      let env : CommandLine.Environment := ⟨⟨[("a", source)], [], false⟩, settings, .json⟩
      let env' : CommandLine.Environment :=
        ⟨⟨[("b", (env.formatTask "a" .print).output)], [], true⟩, settings, .pretty⟩
      ∃ outcome outcome' session, Outcome.placeless outcome = Outcome.placeless outcome' ∧
        env.runTask "a" true = env.runReport outcome session ∧
        env'.runTask "b" true = env'.runReport outcome' session := by
  have h : Program.parse (Bytes.ofString "# twice\nsay 'hi'\n?begin\nrepeat\n1\n?end\n") 2 =
      .ok ⟨[
        ⟨⟨unknownFile, 2⟩, ⟨[0x73, 0x61, 0x79], false, true⟩,
          [⟨[0x68, 0x69], true, true⟩], by simp⟩,
        ⟨⟨unknownFile, 4⟩, ⟨[0x72, 0x65, 0x70, 0x65, 0x61, 0x74], false, true⟩,
          [⟨[0x31], false, true⟩], by simp⟩]⟩ := by
    decide +kernel
  obtain ⟨q, hq, halike, hdemo, hshown⟩ := runsAlike_format h
  refine ⟨_, q, h, hq, halike _ _ _ _ (hdemo true), ?_⟩
  exact hshown _ _ "a" "b" true rfl rfl rfl rfl

end CommandScript
