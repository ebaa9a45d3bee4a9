import CommandScript.Proofs.FormatFile

/-!
Which files a command line changes. Formatting with `--write` is the one task that writes, and what
it writes is the text of a program under the name it was given. That is the file the source was read
from, unless the name is a dash: the source then comes from standard input, but the text still goes
to a file.
-/

namespace CommandScript.CommandLine

/-- The content of one file has been replaced. No file is new or gone, and no other has changed. -/
structure Files.Replaces (before after : Files) (name : String) (content : Bytes) : Prop where
  names : after.map (·.1) = before.map (·.1)
  content : after.read? name = some content
  others : ∀ other, sameName other name = false → after.read? other = before.read? other

/-- A command line keeps to its file. It leaves all files as they were, or it formats in place: then
the file that the source was read from, which is not standard input, holds the text of its program
instead, and this is not what it held before. -/
inductive KeepsFiles (arguments : List String) (surroundings : Surroundings) : Prop where
  | unchanged (hfiles : (execute arguments surroundings).files = surroundings.files) :
      KeepsFiles arguments surroundings
  | formatted (env : Environment) (file : String) (source : Bytes) (p : Program)
      (henv : env.surroundings = surroundings)
      (hstarts : Starts arguments env (.format file .write)) (hdash : file ≠ "-")
      (hread : surroundings.files.read? file = some source) (hparse : env.parse file source = .ok p)
      (hdiffers : p.format ≠ source)
      (hfiles : surroundings.files.Replaces (execute arguments surroundings).files file p.format) :
      KeepsFiles arguments surroundings

/-! ### Writing one file -/

theorem Files.replaces_write {files : Files} {name : String} {old : Bytes}
    (h : files.read? name = some old) (content : Bytes) :
    files.Replaces (files.write name content) name content where
  names := by
    obtain ⟨file, hfind, -⟩ := Option.map_eq_some_iff.mp h
    have hname : sameName file.1 name = true := by simpa using List.find?_some hfind
    have hany : (files.any fun file => sameName file.1 name) = true :=
      List.any_eq_true.mpr ⟨file, List.mem_of_find?_eq_some hfind, hname⟩
    rw [write, if_pos hany, List.map_map]
    refine List.map_congr_left fun file _ => ?_
    dsimp only [Function.comp_apply]
    split <;> rfl
  content := read?_write_self files name content
  others := fun _ hother => read?_write_of_ne hother content

/-! ### Files behind a task -/

namespace Environment

variable {env : Environment} {file : String} {source : Bytes} {p : Program}

theorem files_withProgram {members : List (String × Json)} {task : Bytes → Program → Result}
    (h : ∀ source p, (task source p).files = env.surroundings.files) :
    (env.withProgram file members task).files = env.surroundings.files := by
  unfold withProgram
  split
  · rfl
  · split
    · unfold parseFailure
      split <;> rfl
    · exact h _ _

theorem files_parseTask : (env.parseTask file).files = env.surroundings.files := by
  refine files_withProgram fun source p => ?_
  cases env.style <;> rfl

theorem files_checkTask : (env.checkTask file).files = env.surroundings.files := by
  unfold checkTask
  cases env.source? file with
  | none => rfl
  | some source => cases env.style <;> rfl

theorem files_runTask (strict : Bool) :
    (env.runTask file strict).files = env.surroundings.files := by
  refine files_withProgram fun source p => ?_
  cases Demo.run? strict env.settings.run p with
  | none => rfl
  | some ended => cases env.style <;> rfl

theorem files_explainTask (id : String) :
    (env.explainTask id).files = env.surroundings.files := by
  unfold explainTask
  dsimp only
  split <;> rfl

theorem files_formatTask_of_ne_write {mode : FormatMode} (hmode : mode ≠ .write) :
    (env.formatTask file mode).files = env.surroundings.files := by
  refine files_withProgram fun source p => ?_
  cases mode with
  | print => rfl
  | check =>
      dsimp only
      split <;> exact files_statusResult ..
  | write => exact absurd rfl hmode

/-- Only a program whose text differs from its source is written. -/
theorem files_formatTask_write (hsource : env.source? file = some source)
    (hparse : env.parse file source = .ok p) :
    (env.formatTask file .write).files =
      if p.format = source then env.surroundings.files
      else env.surroundings.files.write file p.format := by
  simp only [formatTask, withProgram, hsource, hparse]
  split <;> exact files_statusResult ..

/-- Formatting in place leaves the files alone unless there is a program whose text differs. -/
theorem files_formatTask_write_cases (env : Environment) (file : String) :
    (env.formatTask file .write).files = env.surroundings.files ∨
    ∃ source p, env.source? file = some source ∧ env.parse file source = .ok p ∧
      p.format ≠ source ∧
      (env.formatTask file .write).files = env.surroundings.files.write file p.format := by
  cases hsource : env.source? file with
  | none =>
      refine .inl ?_
      simp only [formatTask, withProgram, hsource]
      rfl
  | some source =>
      cases hparse : env.parse file source with
      | error d =>
          refine .inl ?_
          simp only [formatTask, withProgram, hsource, hparse, parseFailure]
          cases env.style <;> rfl
      | ok p =>
          have hfiles := files_formatTask_write hsource hparse
          by_cases hformat : p.format = source
          · rw [if_pos hformat] at hfiles
            exact .inl hfiles
          · rw [if_neg hformat] at hfiles
            exact .inr ⟨source, p, rfl, hparse, hformat, hfiles⟩

/-- A task leaves the files alone or writes the text of a program. -/
theorem files_run_cases (env : Environment) (task : Task) :
    (env.run task).files = env.surroundings.files ∨
    ∃ file source p, task = .format file .write ∧ env.source? file = some source ∧
      env.parse file source = .ok p ∧ p.format ≠ source ∧
      (env.run task).files = env.surroundings.files.write file p.format := by
  cases task with
  | parse file => exact .inl files_parseTask
  | check file => exact .inl files_checkTask
  | run file strict => exact .inl (files_runTask strict)
  | explain id => exact .inl (files_explainTask id)
  | format file mode =>
      by_cases hmode : mode = .write
      · subst hmode
        rcases files_formatTask_write_cases env file with hfiles | ⟨source, p, hwritten⟩
        · exact .inl hfiles
        · exact .inr ⟨file, source, p, rfl, hwritten⟩
      · exact .inl (files_formatTask_of_ne_write hmode)

end Environment

/-! ### Files behind a command line -/

/-- Arguments that start two tasks start one. -/
theorem Starts.unique {arguments : List String} {env env' : Environment} {task task' : Task}
    (h : Starts arguments env task) (h' : Starts arguments env' task') : task = task' := by
  obtain ⟨request, harguments, rfl, -⟩ := h
  obtain ⟨request', harguments', rfl, -⟩ := h'
  rw [Except.ok.inj (harguments.symm.trans harguments')]

/-- A command line that starts no task leaves all files alone. -/
theorem files_execute_cases (arguments : List String) (surroundings : Surroundings) :
    (execute arguments surroundings).files = surroundings.files ∨
    ∃ env task, env.surroundings = surroundings ∧ Starts arguments env task := by
  cases harguments : Request.ofArguments arguments with
  | error stop =>
      refine .inl ?_
      rw [execute, harguments]
      cases stop <;> rfl
  | ok request =>
      cases hsettings : loadSettings surroundings.files request.config with
      | none =>
          refine .inl ?_
          rw [execute, harguments]
          dsimp only
          rw [Request.run, hsettings]
      | some settings =>
          let style := request.output.getD (if surroundings.isTerminal then .pretty else .json)
          exact .inr ⟨⟨surroundings, settings, style⟩, request.task, rfl, request, harguments, rfl,
            hsettings, rfl⟩

/-- A command line keeps to its file unless it formats standard input in place and there is
something to format: the text of the program is then written to a file that is named like the dash.
So the law holds there only if writing changes nothing, since the file has this content already. -/
theorem keepsFiles_iff (arguments : List String) (surroundings : Surroundings) :
    KeepsFiles arguments surroundings ↔
      ∀ env p, env.surroundings = surroundings → Starts arguments env (.format "-" .write) →
        env.parse "-" surroundings.input = .ok p → p.format ≠ surroundings.input →
        surroundings.files.write "-" p.format = surroundings.files := by
  constructor
  · rintro h env p rfl hstarts hparse hdiffers
    have hwritten : (execute arguments env.surroundings).files =
        env.surroundings.files.write "-" p.format := by
      have hfiles := Environment.files_formatTask_write rfl hparse
      rw [if_neg hdiffers] at hfiles
      rw [hstarts.execute_eq]
      exact hfiles
    cases h with
    | unchanged hfiles => exact hwritten.symm.trans hfiles
    | formatted env' file source p' henv hstarts' hdash =>
        obtain ⟨rfl, -⟩ := Task.format.inj (hstarts.unique hstarts')
        exact absurd rfl hdash
  · intro h
    rcases files_execute_cases arguments surroundings with hfiles | ⟨env, task, rfl, hstarts⟩
    · exact .unchanged hfiles
    have hresult := congrArg Result.files hstarts.execute_eq
    rcases env.files_run_cases task with hfiles |
      ⟨file, source, p, rfl, hsource, hparse, hdiffers, hfiles⟩
    · exact .unchanged (hresult.trans hfiles)
    by_cases hdash : file = "-"
    · subst hdash
      obtain rfl : env.surroundings.input = source := Option.some.inj hsource
      exact .unchanged ((hresult.trans hfiles).trans (h env p rfl hstarts hparse hdiffers))
    · have hread : env.surroundings.files.read? file = some source := by
        rw [← hsource, Environment.source?, if_neg (by simpa using hdash)]
      refine .formatted env file source p rfl hstarts hdash hread hparse hdiffers ?_
      rw [hresult, hfiles]
      exact Files.replaces_write hread p.format

/-- Standard input that is formatted in place overwrites the file with the name of the dash, or
makes one. -/
theorem not_keepsFiles_dash :
    let arguments := ["fmt", "-", "--write"]
    let surroundings : Surroundings :=
      ⟨[("-", Bytes.ofString "old\n")], Bytes.ofString "a  b\n", false⟩
    (execute arguments surroundings).files = [("-", Bytes.ofString "a b\n")] ∧
      ¬ KeepsFiles arguments surroundings ∧
      (execute arguments { surroundings with files := [] }).files =
        [("-", Bytes.ofString "a b\n")] := by
  intro arguments surroundings
  have hwritten : (execute arguments surroundings).files = [("-", Bytes.ofString "a b\n")] := by
    decide +kernel
  refine ⟨hwritten, ?_, by decide +kernel⟩
  intro h
  cases h with
  | unchanged hfiles => exact absurd (hwritten.symm.trans hfiles) (by decide)
  | formatted env file source p henv hstarts hdash =>
      obtain ⟨request, harguments, htask, -⟩ := hstarts
      have hdashed : Request.ofArguments arguments = .ok ⟨none, none, .format "-" .write⟩ := by
        decide +kernel
      obtain rfl := Except.ok.inj (hdashed.symm.trans harguments)
      exact hdash (Task.format.inj htask).1.symm

end CommandScript.CommandLine
