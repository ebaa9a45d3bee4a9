import CommandScript.Demo
import CommandScript.Proofs.Running
import Mathlib.Algebra.GroupWithZero.Nat
import Mathlib.Tactic.SplitIfs

/-!
What programs of the demo language mean. Getting past a command for good prints lines, skips
commands and takes invocations, and for `repeat` all this is a multiple of what the command before
it does. A run gets past the commands in order up to the first one that stops it, and has then done
the sum of their meanings.
-/

namespace CommandScript.Demo

/-- What a name is to a run of the language. -/
inductive Kind where
  | abort
  | switch
  | print
  | loop
  | other
deriving DecidableEq, Repr

def kind (name : Part) : Kind :=
  if name.text == abortName then .abort
  else if name.text == languageName then .switch
  else if name.text == Bytes.ofString "echo" || name.text == Bytes.ofString "say" then .print
  else if name.text == Bytes.ofString "repeat" then .loop
  else .other

/-- True for the deprecated name of `echo`. -/
def isDeprecated (name : Part) : Bool :=
  name.text == Bytes.ofString "say"

/-- What it does to get past a command for good: the lines it prints, the commands it skips, and the
invocations it takes. Both numbers are exact; a run counts them in 64 bits. -/
structure Meaning where
  output : List String
  skipped : Nat
  cost : Nat
deriving DecidableEq, Repr

namespace Meaning

/-- The meaning of no command. -/
def nothing : Meaning :=
  ⟨[], 0, 0⟩

/-- The meaning of jumping back for a number of times and going on at last: each jump takes an
invocation, and so does going on. -/
def times (before : Meaning) (count : Nat) : Meaning :=
  ⟨(List.replicate count before.output).flatten, count * before.skipped,
    1 + count * (before.cost + 1)⟩

/-- The meaning of commands of some meanings in a row. -/
def total (passed : List Meaning) : Meaning :=
  ⟨passed.flatMap output, (passed.map skipped).sum, (passed.map cost).sum⟩

/-- One meaning after another. -/
def andThen (first second : Meaning) : Meaning :=
  ⟨first.output ++ second.output, first.skipped + second.skipped, first.cost + second.cost⟩

/-- The meaning of a line behind a command of some meaning. -/
def ofLine (before : Meaning) (line : Line) : Meaning :=
  match kind line.name with
  | .print => ⟨[echoText line.args], 0, 1⟩
  | .loop => before.times ((count? line.args).getD 0)
  | _ => ⟨[], 1, 1⟩

end Meaning

/-- The meaning of each line in turn, the first one behind a command of some meaning. -/
def meanings (previous : Meaning) : List Line → List Meaning
  | [] => []
  | line :: rest => .ofLine previous line :: meanings (.ofLine previous line) rest

/-- Why a run does not get past a command. -/
inductive Stop where
  | abort
  | switch
  | noCount
  | noTarget
  | unknown
deriving DecidableEq, Repr

/-- What keeps a run from getting past a line at a place. -/
def stop? (strict : Bool) (id : CommandId) (line : Line) : Option Stop :=
  match kind line.name with
  | .abort => some .abort
  | .switch => some .switch
  | .print => none
  | .loop =>
    if count? line.args = none then some .noCount
    else if id = 0 then some .noTarget
    else none
  | .other => if strict then some .unknown else none

/-- The first place that a run does not get past, or the size of the program. -/
def stopIndex (strict : Bool) (p : Program) : Nat :=
  p.lines.zipIdx.findIdx fun (line, id) => (stop? strict id line).isSome

/-- The command that stops a run, and why it does. -/
def stopping? (strict : Bool) (p : Program) : Option (Command × Stop) :=
  (p.get? (stopIndex strict p)).bind fun command =>
    (stop? strict command.id command.toLine).map fun stop => (command, stop)

/-- How a run ends at a command that stops it, where a summary is due for `abort`. -/
def Stop.outcome (settings : RunSettings) (command : Command) (summary : Summary) : Stop → Outcome
  | .abort => .ok summary
  | .switch => fails .languageCommand
    ["the `language` command is not supported; `", "demo", "` is bound for the whole run"]
  | .noCount => fails .firstHost ["repeat expects exactly one count"]
  | .noTarget => fails .firstHost ["repeat has no command to repeat"]
  | .unknown => fails .unknownCommand ["unknown command `", command.name.lossy, "`"]
where
  fails (code : Code) (pieces : List String) : Outcome :=
    .error ((Diagnostic.withCapacity settings.messageCapacity).report code command.pos pieces)

/-- One warning for each deprecated command. -/
def deprecations (commands : List Command) : List Diagnostic :=
  (commands.filter fun command => isDeprecated command.name).map fun command =>
    .warning .deprecatedCommand command.pos ("command `" ++ command.name.lossy ++ "` is deprecated")

/-- The session after doing what a meaning says. -/
def Session.ofMeaning (meaning : Meaning) : Session :=
  ⟨meaning.output.toArray, [], .ofNat meaning.skipped⟩

/-- The meaning of all commands before a place. -/
def meaningBefore (p : Program) (k : Nat) : Meaning :=
  .total ((meanings .nothing p.lines).take k)

/-- The result of a run: the sum of the meanings before the place that stops it, with the numbers in
64 bits, and the end that this place gives it. -/
def result (strict : Bool) (settings : RunSettings) (p : Program) : Outcome × Session :=
  let k := stopIndex strict p
  let invocations := .ofNat (meaningBefore p k).cost
  let warnings := deprecations (p.commands.take k)
  let outcome := match stopping? strict p with
    | none => .ok ⟨if p.size = 0 then .empty else .handler, invocations, p.last?, warnings⟩
    | some (command, stop) => stop.outcome settings command ⟨.abort, invocations, some k, warnings⟩
  (outcome, .ofMeaning (meaningBefore p k))

/-! ### Meanings and costs -/

theorem length_meanings (previous : Meaning) (lines : List Line) :
    (meanings previous lines).length = lines.length := by
  induction lines generalizing previous with
  | nil => rfl
  | cons line lines ih => simp [meanings, ih]

theorem meanings_getElem?_succ {previous before : Meaning} {lines : List Line} {line : Line}
    {i : Nat} (hbefore : (meanings previous lines)[i]? = some before)
    (hline : lines[i + 1]? = some line) :
    (meanings previous lines)[i + 1]? = some (.ofLine before line) := by
  induction lines generalizing previous i with
  | nil => simp at hline
  | cons first lines ih =>
      rw [meanings] at hbefore ⊢
      rw [List.getElem?_cons_succ] at hline ⊢
      cases i with
      | zero =>
          obtain rfl : Meaning.ofLine previous first = before := by simpa using hbefore
          cases lines with
          | nil => simp at hline
          | cons second lines =>
              obtain rfl : second = line := by simpa using hline
              rfl
      | succ i =>
          rw [List.getElem?_cons_succ] at hbefore
          exact ih hbefore hline

/-- A meaning is that of its line behind the meaning before it. -/
theorem exists_previous {first meaning : Meaning} {lines : List Line} {line : Line} {i : Nat}
    (hmeaning : (meanings first lines)[i]? = some meaning) (hline : lines[i]? = some line) :
    ∃ previous, meaning = .ofLine previous line ∧
      ∀ j, i = j + 1 → (meanings first lines)[j]? = some previous := by
  cases i with
  | zero =>
      cases lines with
      | nil => simp at hline
      | cons head lines =>
          obtain rfl : head = line := by simpa using hline
          exact ⟨first, (Option.some.inj hmeaning).symm, by simp⟩
  | succ i =>
      have hlt : i < (meanings first lines).length :=
        Nat.lt_of_succ_lt (List.getElem?_eq_some_iff.mp hmeaning).1
      have hprevious := List.getElem?_eq_getElem hlt
      have hsame := (meanings_getElem?_succ hprevious hline).symm.trans hmeaning
      refine ⟨_, (Option.some.inj hsame).symm, ?_⟩
      intro j hj
      obtain rfl := Nat.succ.inj hj
      exact hprevious

theorem isLoop_iff {name : Part} :
    name.text = Bytes.ofString "repeat" ↔ kind name = .loop := by
  have hnames : Bytes.ofString "repeat" ≠ abortName ∧ Bytes.ofString "repeat" ≠ languageName ∧
      Bytes.ofString "repeat" ≠ Bytes.ofString "echo" ∧
      Bytes.ofString "repeat" ≠ Bytes.ofString "say" := by
    decide
  obtain ⟨habort, hlanguage, hecho, hsay⟩ := hnames
  constructor
  · intro hname
    simp [kind, hname, habort, hlanguage, hecho, hsay]
  · intro hkind
    unfold kind at hkind
    split_ifs at hkind with _ _ _ hname
    exact eq_of_beq hname

/-- The cost of a line in its meaning is the one that bounds a run. -/
theorem cost_ofLine (previous : Meaning) (line : Line) :
    (Meaning.ofLine previous line).cost = cost previous.cost line := by
  unfold cost
  by_cases hname : line.name.text = Bytes.ofString "repeat"
  · simp [Meaning.ofLine, Meaning.times, isLoop_iff.mp hname, hname]
  · have hkind : kind line.name ≠ .loop := fun hkind => hname (isLoop_iff.mpr hkind)
    cases hcase : kind line.name with
    | loop => exact absurd hcase hkind
    | _ => simp [Meaning.ofLine, hcase, hname]

theorem costs_eq (previous : Meaning) (lines : List Line) :
    (meanings previous lines).map Meaning.cost = costs previous.cost lines := by
  induction lines generalizing previous with
  | nil => rfl
  | cons line lines ih => rw [meanings, List.map_cons, costs, ih, cost_ofLine]

/-! ### Adding meanings up -/

theorem meaningBefore_succ {p : Program} {k : Nat} {meaning : Meaning}
    (hmeaning : (meanings .nothing p.lines)[k]? = some meaning) :
    meaningBefore p (k + 1) = (meaningBefore p k).andThen meaning := by
  rw [meaningBefore, List.take_add_one, hmeaning]
  simp [meaningBefore, Meaning.total, Meaning.andThen]

theorem Meaning.cost_times_zero (before : Meaning) : (before.times 0).cost = 1 := by
  simp [Meaning.times]

theorem Meaning.cost_times_succ (before : Meaning) (count : Nat) :
    (before.times (count + 1)).cost = before.cost + (before.times count).cost + 1 := by
  simp only [Meaning.times, Nat.add_mul, Nat.one_mul]
  omega

-- Loops nest: each round of the outer loop takes both jumps of the inner one again.
example : (Meaning.times ⟨["a"], 0, 1⟩ 2).times 3 =
    ⟨["a", "a", "a", "a", "a", "a"], 0, 19⟩ := rfl

namespace Session

/-- The session with what a meaning adds to it. -/
def add (s : Session) (meaning : Meaning) : Session :=
  { s with
    output := s.output ++ meaning.output.toArray
    skipped := s.skipped + .ofNat meaning.skipped }

theorem ofMeaning_andThen (first second : Meaning) :
    ofMeaning (first.andThen second) = (ofMeaning first).add second := by
  simp [ofMeaning, add, Meaning.andThen]

theorem add_times_zero (s : Session) (before : Meaning) : s.add (before.times 0) = s := by
  simp [add, Meaning.times]

/-- One more jump does what the command before does once more. -/
theorem add_times_succ (s : Session) (before : Meaning) (count : Nat) :
    (s.add before).add (before.times count) = s.add (before.times (count + 1)) := by
  have houtput : s.output ++ before.output.toArray ++
      (List.replicate count before.output).flatten.toArray =
      s.output ++ (List.replicate (count + 1) before.output).flatten.toArray := by
    simp [List.replicate_succ]
  have hskipped : s.skipped + .ofNat before.skipped + .ofNat (count * before.skipped) =
      s.skipped + .ofNat ((count + 1) * before.skipped) := by
    rw [Nat.succ_mul, UInt64.ofNat_add]
    ac_rfl
  simp only [add, Meaning.times, houtput, hskipped]

end Session

theorem ofLine_of_loop {line : Line} {count : Nat} (previous : Meaning)
    (hkind : kind line.name = .loop) (hcount : count? line.args = some count) :
    Meaning.ofLine previous line = previous.times count := by
  simp [Meaning.ofLine, hkind, hcount]

/-! ### The place that stops a run -/

section

variable {strict : Bool} {p : Program} {i : Nat} {command : Command}

/-- A loop that does not stop a run has a count and a command before it. -/
theorem exists_count {line : Line} (hkind : kind line.name = .loop)
    (hstop : stop? strict i line = none) : i ≠ 0 ∧ ∃ count, count? line.args = some count := by
  unfold stop? at hstop
  rw [hkind] at hstop
  dsimp only at hstop
  split_ifs at hstop with hcount hplace
  exact ⟨hplace, Option.ne_none_iff_exists'.mp hcount⟩

theorem stopIndex_le (strict : Bool) (p : Program) : stopIndex strict p ≤ p.size := by
  have hle : stopIndex strict p ≤ p.lines.zipIdx.length := List.findIdx_le_length
  rw [List.length_zipIdx] at hle
  exact hle

/-- Nothing stops a run before the first place that does. -/
theorem stop?_of_lt_stopIndex (hlt : i < stopIndex strict p) (hcommand : p.get? i = some command) :
    stop? strict i command.toLine = none := by
  have hnot := List.not_of_lt_findIdx hlt
  have hline := (List.getElem?_eq_some_iff.mp (Program.line_of_get? hcommand)).2
  simpa [hline] using hnot

theorem exists_stop (hcommand : p.get? (stopIndex strict p) = some command) :
    ∃ stop, stop? strict (stopIndex strict p) command.toLine = some stop := by
  obtain ⟨hlt, hline⟩ := List.getElem?_eq_some_iff.mp (Program.line_of_get? hcommand)
  have hlt' : p.lines.zipIdx.findIdx (fun (line, id) => (stop? strict id line).isSome) <
      p.lines.zipIdx.length := by
    simpa [stopIndex] using hlt
  have hstops := List.findIdx_getElem (w := hlt')
  apply Option.isSome_iff_exists.mp
  simpa [stopIndex, ← hline] using hstops

end

end CommandScript.Demo
