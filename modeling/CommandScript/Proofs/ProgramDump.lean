import CommandScript.Program.Json
import CommandScript.Proofs.JsonUnique
import CommandScript.Proofs.ValidText

/-!
The JSON text of a program says what the program is. JSON text is read in one way only, so the text
gives back the value that was printed, and every field of a command is a member of that value. Only
bytes that are no text are lost, where the value has replacement characters in their place.
-/

namespace CommandScript

/-! ### Lossy texts -/

namespace Utf8

variable {state : State} {bytes : Bytes}

/-- A byte that completes no item belongs to a sequence that goes on. -/
theorem step_ne_ready {b : UInt8} (h : (step state b).1 = []) : (step state b).2 ≠ .ready := by
  have hstart : (start b).1 = [] → (start b).2 ≠ .ready := by
    unfold start
    repeat' split
    all_goals simp
  cases state with
  | ready => exact hstart h
  | within bits low high more =>
      revert h
      rw [step]
      split
      · cases more <;> simp
      · simp

/-- Only nothing at all is read as nothing. -/
theorem scanFrom_ne_nil (h : state ≠ .ready ∨ bytes ≠ []) : scanFrom state bytes ≠ [] := by
  induction bytes generalizing state with
  | nil =>
      cases state with
      | ready => simp at h
      | within => simp [scanFrom]
  | cons b rest ih =>
      rw [scanFrom_cons]
      intro hnil
      obtain ⟨hitems, hrest⟩ := List.append_eq_nil_iff.mp hnil
      exact ih (Or.inl (step_ne_ready hitems)) hrest

theorem lossy_ne_nil (h : bytes ≠ []) : bytes.lossy ≠ [] := by
  intro hnil
  have hempty : lossy bytes = "" := by
    rw [← lossy_ofString (lossy bytes)]
    exact congrArg lossy hnil
  have hscan : scan bytes = [] := by simpa [lossy] using hempty
  exact scanFrom_ne_nil (Or.inr h) hscan

end Utf8

/-- The part with its lossy text. -/
def Part.lossyText (part : Part) : Part :=
  { part with text := part.text.lossy }

/-- The line with the lossy texts of its parts. -/
def Line.lossyTexts (line : Line) : Line :=
  { line with
    name := line.name.lossyText
    args := line.args.map Part.lossyText
    name_ne := Utf8.lossy_ne_nil line.name_ne }

/-- The program with the lossy texts of its parts. -/
def Program.lossyTexts (p : Program) : Program :=
  ⟨p.lines.map Line.lossyTexts⟩

theorem Program.lossyTexts_eq {p : Program} (h : p.IsText) : p.lossyTexts = p := by
  have hpart {part : Part} (hvalid : Utf8.isValid part.text = true) : part.lossyText = part := by
    rw [Part.lossyText, Utf8.lossy_of_isValid hvalid]
  have hline : ∀ line ∈ p.lines, line.lossyTexts = line := by
    intro line hline
    have hname : line.name.lossyText = line.name := hpart (h line hline _ (List.mem_cons_self ..))
    have hargs : line.args.map Part.lossyText = line.args :=
      (List.map_congr_left fun part hmem =>
        hpart (h line hline part (List.mem_cons_of_mem _ hmem))).trans (List.map_id _)
    simp only [Line.lossyTexts, hname, hargs]
  rw [lossyTexts, (List.map_congr_left hline).trans (List.map_id' _)]

/-! ### Reading a program back -/

open Json (Content)

/-- A position that a value says. -/
def Position.ofContent? : Content → Option Position
  | .object [(some "file", .string (some file)), (some "line", .number (some line))] =>
    some ⟨file, UInt32.ofNat line⟩
  | _ => none

/-- A part that a value says. -/
def Part.ofContent? : Content → Option Part
  | .object [(some "text", .string (some text)), (some "quoted", .bool quoted)] =>
    some (.owned (Bytes.ofString text) quoted)
  | _ => none

/-- A command that a value says, which has a name. -/
def Command.ofContent? : Content → Option Command
  | .object [(some "id", .number (some id)), (some "pos", pos), (some "name", name),
      (some "args", .array args)] => do
    let pos ← Position.ofContent? pos
    let name ← Part.ofContent? name
    let args ← args.mapM Part.ofContent?
    if h : name.text = [] then none else some ⟨⟨pos, name, args, h⟩, id⟩
  | _ => none

/-- The commands of the program that a value says. -/
def Program.commandsOfContent? : Content → Option (List Command)
  | .object [(some "commands", .array commands)] => commands.mapM Command.ofContent?
  | _ => none

/-- A list is read back if its items are. -/
theorem mapM_map_eq_some {α β γ : Type} {write : α → β} {read : β → Option γ} {back : α → γ}
    {items : List α} (h : ∀ item ∈ items, read (write item) = some (back item)) :
    (items.map write).mapM read = some (items.map back) := by
  induction items with
  | nil => rfl
  | cons item items ih =>
      obtain ⟨hitem, hitems⟩ := List.forall_mem_cons.mp h
      simp [List.mapM_cons, hitem, ih hitems]

theorem Position.ofContent?_toJson (pos : Position) :
    ofContent? pos.toJson.content = some pos := by
  simp [Position.toJson, Json.content, Json.memberContents, ofContent?]

theorem Part.ofContent?_toJson (part : Part) :
    ofContent? part.toJson.content = some part.lossyText.detach :=
  rfl

/-- A command is read back with the lossy texts of its parts. -/
theorem Command.ofContent?_toJson (command : Command) :
    ofContent? command.toJson.content =
      some ⟨command.toLine.lossyTexts.detach, command.id⟩ := by
  have hargs : (Json.contents (command.args.map Part.toJson)).mapM Part.ofContent? =
      some (command.args.map fun part => part.lossyText.detach) := by
    rw [Json.contents_eq_map, List.map_map]
    exact mapM_map_eq_some fun part _ => part.ofContent?_toJson
  have hname : command.name.lossyText.detach.text ≠ [] := Utf8.lossy_ne_nil command.name_ne
  simp only [toJson, Json.content, Json.memberContents, ofContent?, hargs,
    Position.ofContent?_toJson, Part.ofContent?_toJson, Option.bind_eq_bind, Option.bind_some,
    dif_neg hname]
  rw [Line.lossyTexts, Line.detach]
  simp only [List.map_map]
  rfl

namespace Program

theorem commands_lossyTexts (p : Program) :
    p.lossyTexts.detach.commands =
      p.commands.map fun command => ⟨command.toLine.lossyTexts.detach, command.id⟩ := by
  simp only [commands, lossyTexts, detach, List.zipIdx_map, List.map_map]
  rfl

theorem commandsOfContent?_toJson (p : Program) :
    commandsOfContent? p.toJson.content = some p.lossyTexts.detach.commands := by
  rw [commands_lossyTexts, toJson, Json.content, Json.memberContents, Json.memberContents,
    Json.content, Json.contents_eq_map, List.map_map]
  exact mapM_map_eq_some fun command _ => command.ofContent?_toJson

theorem commands_inj {p q : Program} (h : p.commands = q.commands) : p = q := by
  have hlines (p : Program) : p.commands.map Command.toLine = p.lines := by
    rw [commands, List.map_map]
    exact List.zipIdx_map_fst 0 p.lines
  exact congrArg Program.mk ((hlines p).symm.trans ((congrArg _ h).trans (hlines q)))

/-- What is printed is the same for the lossy texts. -/
theorem toJson_lossyTexts (p : Program) : p.lossyTexts.detach.toJson = p.toJson := by
  have hpart (part : Part) : part.lossyText.detach.toJson = part.toJson := by
    have htext : part.lossyText.detach.lossy = part.lossy := Utf8.lossy_ofString part.lossy
    rw [Part.toJson, Part.toJson, htext]
    rfl
  have hcommand (command : Command) :
      Command.toJson ⟨command.toLine.lossyTexts.detach, command.id⟩ = command.toJson := by
    simp only [Command.toJson, Line.detach, Line.lossyTexts, List.map_map, Function.comp_def, hpart]
  simp only [toJson, commands_lossyTexts, List.map_map, Function.comp_def, hcommand]

/-- The texts of two programs are the same if and only if the programs are, up to bytes that are no
text. -/
theorem dump_eq_iff (p q : Program) : p.dump = q.dump ↔ p.lossyTexts.Agrees q.lossyTexts := by
  constructor
  · intro hdump
    have hp := Json.denotes_pretty p.toJson
    have hq := Json.denotes_pretty q.toJson
    rw [show p.toJson.pretty = q.toJson.pretty from hdump] at hp
    have hread := p.commandsOfContent?_toJson
    rw [hp.unique hq, q.commandsOfContent?_toJson] at hread
    exact commands_inj (Option.some.inj hread).symm
  · intro hagrees
    rw [dump, dump, ← toJson_lossyTexts p, ← toJson_lossyTexts q, hagrees]

/-- The JSON text of a program is faithful. Programs whose parts are all text have the same one if
and only if they agree, and what it says, which is one value only, are the commands with their ids,
positions, texts and quotes. Of any two programs the same holds with the lossy texts of their
parts. -/
theorem dump_faithful :
    (∀ p q : Program, p.IsText → q.IsText → (p.dump = q.dump ↔ p.Agrees q)) ∧
    (∀ p : Program, p.IsText → ∃ v, Json.Denotes p.dump v ∧ (∀ w, Json.Denotes p.dump w → w = v) ∧
      commandsOfContent? v = some p.detach.commands) ∧
    ∀ p q : Program, p.dump = q.dump ↔ p.lossyTexts.Agrees q.lossyTexts := by
  refine ⟨?_, ?_, dump_eq_iff⟩
  · intro p q hp hq
    have hdump := dump_eq_iff p q
    rwa [lossyTexts_eq hp, lossyTexts_eq hq] at hdump
  · intro p hp
    have hdenotes := Json.denotes_pretty p.toJson
    have hread := p.commandsOfContent?_toJson
    rw [lossyTexts_eq hp] at hread
    exact ⟨p.toJson.content, hdenotes, fun w hw => hw.unique hdenotes, hread⟩

/-- In front of a string with a quote, a backslash and a line feed, a word is told from a string
with the same text, but not one byte that is no text from another. -/
theorem dump_faithful_quotes :
    let single (name : UInt8) (quoted : Bool) : Program :=
      ⟨[⟨⟨"f", 1⟩, .owned [name] quoted, [.owned [0x22, 0x5c, 0x0a] true], List.cons_ne_nil _ _⟩]⟩
    (single 0x61 false).dump ≠ (single 0x61 true).dump ∧
      (single 0xfe true).dump = (single 0xff true).dump ∧
      ¬ (single 0xfe true).Agrees (single 0xff true) := by
  obtain ⟨htext, -, hany⟩ := dump_faithful
  intro single
  refine ⟨?_, ?_, by decide⟩
  · rw [ne_eq, htext _ _ (by unfold IsText; decide) (by unfold IsText; decide)]
    decide
  · rw [hany]
    decide

end Program

end CommandScript
