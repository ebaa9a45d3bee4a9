import CommandScript.Proofs.CanonicalText

/-!
Formatting files in place. The text of a program is its own text, so a file that was written back is
found formatted, is written without a change and is printed as it is. A file that does not parse is
left alone, and so are all other files.
-/

namespace CommandScript

namespace CommandLine

/-! ### Files -/

namespace Files

variable {files : Files} {name other : String}

@[simp] theorem sameName_self (name : String) : sameName name name = true :=
  beq_self_eq_true _

theorem sameName_comm (a b : String) : sameName a b = sameName b a :=
  Bool.beq_comm

theorem sameName_eq_false {a : String} (ha : sameName a other = true)
    (h : sameName other name = false) : sameName a name = false := by
  have hpath : path a = path other := eq_of_beq ha
  rwa [sameName, hpath]

/-- Replacing the content of a file keeps the names, by which files are found. -/
theorem find?_replace (files : Files) (name other : String) (content : Bytes) :
    (files.map fun file => if sameName file.1 name then (file.1, content) else file).find?
        (fun file => sameName file.1 other) =
      (files.find? fun file => sameName file.1 other).map fun file =>
        if sameName file.1 name then (file.1, content) else file := by
  rw [List.find?_map]
  congr 2
  funext file
  dsimp only [Function.comp_apply]
  split <;> rfl

@[simp] theorem read?_write_self (files : Files) (name : String) (content : Bytes) :
    (files.write name content).read? name = some content := by
  unfold write read?
  split
  · rename_i hany
    obtain ⟨file, hmem, hname⟩ := List.any_eq_true.mp hany
    rw [find?_replace]
    cases hfind : files.find? fun file => sameName file.1 name with
    | none => exact absurd hname (List.find?_eq_none.mp hfind file hmem)
    | some found =>
        have hfound : sameName found.1 name = true := by simpa using List.find?_some hfind
        rw [Option.map_some, if_pos hfound, Option.map_some]
  · rename_i hany
    have hnone : files.find? (fun file => sameName file.1 name) = none :=
      List.find?_eq_none.mpr fun file hmem hname => hany (List.any_eq_true.mpr ⟨file, hmem, hname⟩)
    rw [List.find?_append, hnone, Option.none_or, List.find?_singleton, sameName_self, if_pos rfl,
      Option.map_some]

theorem read?_write_of_ne (h : sameName other name = false) (content : Bytes) :
    (files.write name content).read? other = files.read? other := by
  unfold write read?
  split
  · rw [find?_replace]
    cases hfind : files.find? fun file => sameName file.1 other with
    | none => rfl
    | some found =>
        have hfound : sameName found.1 other = true := by simpa using List.find?_some hfind
        rw [Option.map_some, sameName_eq_false hfound h, if_neg Bool.false_ne_true]
  · rw [List.find?_append, List.find?_singleton, sameName_comm, h, if_neg Bool.false_ne_true,
      Option.or_none]

end Files

namespace Environment

variable {env : Environment} {file : String} {source : Bytes} {p : Program}

@[simp] theorem files_statusResult (env : Environment) (status : Nat) (message file : String)
    (files : Files) : (env.statusResult status message file files).files = files := by
  unfold statusResult
  cases env.style <;> rfl

end Environment

/-! ### Formatting from the command line -/

/-- The arguments ask for the task, and it is carried out in this environment. -/
def Starts (arguments : List String) (env : Environment) (task : Task) : Prop :=
  ∃ request, Request.ofArguments arguments = .ok request ∧ request.task = task ∧
    loadSettings env.surroundings.files request.config = some env.settings ∧
    env.style = request.output.getD (if env.surroundings.isTerminal then .pretty else .json)

theorem Starts.execute_eq {arguments : List String} {env : Environment} {task : Task}
    (h : Starts arguments env task) : execute arguments env.surroundings = env.run task := by
  obtain ⟨request, harguments, rfl, hsettings, hstyle⟩ := h
  rw [execute, harguments]
  dsimp only
  rw [Request.run, hsettings]
  dsimp only
  rw [← hstyle]

end CommandLine

end CommandScript
