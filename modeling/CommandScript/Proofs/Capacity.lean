import CommandScript.Proofs.BoundedText
import CommandScript.Proofs.Grouping
import CommandScript.Proofs.History

/-!
The capacity of messages only shortens them. Neither parsing nor running asks for it but to write a
report, and whatever is reported, the message under less capacity is the longest beginning that fits
of the one under more. Warnings are not bounded at all.
-/

namespace CommandScript

/-! ### Records with less room -/

/-- The record is the other one with as much of its message as so many bytes hold. -/
structure Diagnostic.ClippedFrom {π : Type} (room : Nat) (d other : Diagnostic π) : Prop where
  code_eq : d.code = other.code
  severity_eq : d.severity = other.severity
  pos_eq : d.pos = other.pos
  payload_eq : d.payload = other.payload
  message : IsClip room other.message d.message

/-- Both results are the same value, or they are records of which the first is clipped. -/
inductive ClippedResult {π α : Type} (room : Nat) :
    Except (Diagnostic π) α → Except (Diagnostic π) α → Prop where
  | ok (value : α) : ClippedResult room (.ok value) (.ok value)
  | error {d other : Diagnostic π} (h : d.ClippedFrom room other) :
      ClippedResult room (.error d) (.error other)

namespace Diagnostic

variable {π : Type} {room roomier : Nat}

theorem clippedFrom_report (hle : room ≤ roomier) (code : Code) (pos : Position)
    (pieces : List String) :
    ((withCapacity room : Diagnostic π).report code pos pieces).ClippedFrom room
      ((withCapacity roomier).report code pos pieces) :=
  ⟨rfl, rfl, rfl, rfl, BoundedText.isClip_ofPieces hle pieces⟩

theorem clippedFrom_absorb (hle : room ≤ roomier) {other : Diagnostic π}
    (herror : other.isError = true) :
    ((withCapacity room).absorb other).ClippedFrom room ((withCapacity roomier).absorb other) := by
  obtain ⟨hcode, hseverity, hpos, hpayload⟩ := absorb_fields (withCapacity room) herror
  obtain ⟨hcode', hseverity', hpos', hpayload'⟩ := absorb_fields (withCapacity roomier) herror
  refine ⟨hcode.trans hcode'.symm, hseverity.trans hseverity'.symm, hpos.trans hpos'.symm,
    hpayload.trans hpayload'.symm, ?_⟩
  rw [message_absorb, message_absorb]
  exact BoundedText.isClip_ofPieces hle _

end Diagnostic

/-! ### Parsing -/

/-- The same settings with another capacity of messages. -/
def ParseSettings.withCapacity (settings : ParseSettings) (capacity : Nat) : ParseSettings :=
  { settings with messageCapacity := capacity }

theorem Grouping.addTokens_withCapacity (settings : ParseSettings) (capacity : Nat) (g : Grouping)
    (tokens : List Token) :
    g.addTokens (settings.withCapacity capacity) tokens = g.addTokens settings tokens := by
  induction tokens generalizing g with
  | nil => rfl
  | cons t tokens ih =>
      have hstep : g.addToken (settings.withCapacity capacity) t = g.addToken settings t := rfl
      simp only [addTokens, hstep, ih]

theorem Program.ofSource_withCapacity (settings : ParseSettings) (capacity : Nat) (source : Bytes) :
    ofSource (settings.withCapacity capacity) source = ofSource settings source := by
  simp only [ofSource, Grouping.addTokens_withCapacity]
  rfl

theorem Program.clippedResult_parseWith {room roomier : Nat} (hle : room ≤ roomier)
    (settings : ParseSettings) (source : Bytes) :
    ClippedResult room (parseWith (settings.withCapacity room) source)
      (parseWith (settings.withCapacity roomier) source) := by
  unfold parseWith
  rw [ofSource_withCapacity, ofSource_withCapacity]
  cases ofSource settings source with
  | ok p => exact .ok p
  | error fault => exact .error (Diagnostic.clippedFrom_report hle _ _ _)

/-! ### Running -/

/-- Each of the warnings is of a command of the program and says it in full. -/
def WarnsInFull (p : Program) (warnings : List Diagnostic) : Prop :=
  ∀ d ∈ warnings, ∃ command ∈ p.commands,
    d = .warning .deprecatedCommand command.pos
      ("command `" ++ command.name.lossy ++ "` is deprecated")

theorem WarnsInFull.invoke {p : Program} {id : CommandId} {log : RunLog} {command : Command}
    (h : WarnsInFull p log.warnings) (hcommand : p.get? id = some command) (isDeprecated : Bool) :
    WarnsInFull p (log.invoke command isDeprecated).warnings := by
  cases isDeprecated with
  | false => exact h
  | true =>
      by_cases hmem : command.id ∈ log.warned
      · rw [RunLog.invoke_of_mem hmem]
        exact h
      · rw [RunLog.invoke_of_notMem hmem]
        intro d hd
        rcases List.mem_append.mp hd with hd | hd
        · exact h d hd
        · obtain rfl := List.mem_singleton.mp hd
          exact ⟨command, List.mem_of_getElem? ((p.commands_getElem? id).trans hcommand), rfl⟩

/-- Two outcomes of a program where the first has less room for messages. -/
structure Outcome.ClippedFrom {π : Type} (room : Nat) (p : Program) (outcome other : Outcome π) :
    Prop where
  result : ClippedResult room outcome other
  warnings : ∀ summary, outcome = .ok summary → WarnsInFull p summary.warnings

namespace Engine

variable {σ π : Type} {language : Language σ π} {p : Program} {room roomier : Nat}

theorem clippedFrom_failure (hle : room ≤ roomier) (command : Command) (d : Diagnostic π) :
    ((⟨language, ⟨room⟩⟩ : Engine σ π).failure command d).ClippedFrom room
      ((⟨language, ⟨roomier⟩⟩ : Engine σ π).failure command d) := by
  unfold failure
  split
  · rename_i herror
    exact Diagnostic.clippedFrom_absorb hle herror
  · exact Diagnostic.clippedFrom_report hle _ _ _

/-- Steps with more and with less room for messages do the same, and the log stays the same. -/
theorem step_clipped (hle : room ≤ roomier) (id : CommandId) {log log' : RunLog} (context : σ)
    (hlogs : log = log' ∧ WarnsInFull p log.warnings) :
    RunStep.Related (fun log log' => log = log' ∧ WarnsInFull p log.warnings)
      (Outcome.ClippedFrom room p)
      ((⟨language, ⟨room⟩⟩ : Engine σ π).step p id log context)
      ((⟨language, ⟨roomier⟩⟩ : Engine σ π).step p id log' context) := by
  obtain ⟨rfl, hlog⟩ := hlogs
  have hfailed {d other : Diagnostic π} (h : d.ClippedFrom room other) :
      Outcome.ClippedFrom room p (.error d) (.error other) :=
    ⟨.error h, fun summary hsummary => nomatch hsummary⟩
  have hmeets := (⟨language, ⟨room⟩⟩ : Engine σ π).meets_visit p id
  have hvisit : (⟨language, ⟨roomier⟩⟩ : Engine σ π).visit p id =
      (⟨language, ⟨room⟩⟩ : Engine σ π).visit p id := rfl
  unfold step
  rw [hvisit]
  generalize (⟨language, ⟨room⟩⟩ : Engine σ π).visit p id = visit at hmeets ⊢
  cases hmeets with
  | outside hnone => exact .ended (hfailed (Diagnostic.clippedFrom_report hle _ _ _))
  | abort hcommand hname =>
      refine .ended ⟨.ok _, ?_⟩
      rintro summary ⟨⟩
      exact hlog
  | switch hcommand hname => exact .ended (hfailed (Diagnostic.clippedFrom_report hle _ _ _))
  | unknown hcommand habort hswitch hnone =>
      exact .ended (hfailed (Diagnostic.clippedFrom_report hle _ _ _))
  | @invoke command handler isDeprecated hcommand habort hswitch hhandler =>
      have hwarns := hlog.invoke hcommand isDeprecated
      dsimp only
      obtain ⟨flow, final⟩ := handler p context command
      cases flow with
      | proceed next => exact .goOn ⟨rfl, hwarns⟩
      | halt =>
          refine .ended ⟨.ok _, ?_⟩
          rintro summary ⟨⟩
          exact hwarns
      | fail d => exact .ended (hfailed (clippedFrom_failure hle command d))

theorem clippedFrom_run? (hle : room ≤ roomier) (steps : Nat) (p : Program) (context : σ) :
    Option.Rel (fun a b => Outcome.ClippedFrom room p a.1 b.1 ∧ a.2 = b.2)
      ((⟨language, ⟨room⟩⟩ : Engine σ π).run? steps p context)
      ((⟨language, ⟨roomier⟩⟩ : Engine σ π).run? steps p context) := by
  have hnone : WarnsInFull p RunLog.empty.warnings := by
    intro d hd
    exact nomatch hd
  unfold run?
  cases p.head? with
  | none =>
      refine .some ⟨⟨.ok _, ?_⟩, rfl⟩
      rintro summary ⟨⟩
      exact hnone
  | some id =>
      exact runFrom?_related (fun id _ _ context hlogs => step_clipped hle id context hlogs)
        steps id context ⟨rfl, hnone⟩

end Engine

/-- The capacity of messages only shortens them. Under less and under more of it, parsing gives the
same program or records that differ in the message alone, the one with less room being the longest
beginning that fits of the other. A run invokes the same handlers on the same contexts. It ends with
the same context, and with the same summary, whose warnings are complete, or with records that
differ in this way. -/
theorem clippedResult_of_le {room roomier : Nat} (hle : room ≤ roomier) :
    (∀ (settings : ParseSettings) (source : Bytes),
      ClippedResult room (Program.parseWith (settings.withCapacity room) source)
        (Program.parseWith (settings.withCapacity roomier) source)) ∧
    ∀ (σ π : Type) (language : Language σ π) (steps : Nat) (p : Program) (context : σ),
      (⟨language, ⟨room⟩⟩ : Engine σ π).history steps p context =
        (⟨language, ⟨roomier⟩⟩ : Engine σ π).history steps p context ∧
      Option.Rel (fun a b => Outcome.ClippedFrom room p a.1 b.1 ∧ a.2 = b.2)
        ((⟨language, ⟨room⟩⟩ : Engine σ π).run? steps p context)
        ((⟨language, ⟨roomier⟩⟩ : Engine σ π).run? steps p context) := by
  refine ⟨Program.clippedResult_parseWith hle, ?_⟩
  intro σ π language steps p context
  refine ⟨?_, Engine.clippedFrom_run? hle steps p context⟩
  have hevent (id : CommandId) (context : σ) :
      (⟨language, ⟨room⟩⟩ : Engine σ π).event p id context =
        (⟨language, ⟨roomier⟩⟩ : Engine σ π).event p id context := rfl
  unfold Engine.history
  cases p.head? with
  | none => rfl
  | some id => exact Engine.historyFrom_congr hevent steps id context

/-- A string that is not closed, and an unknown command whose name would be cut in the middle of its
only character. -/
theorem clippedResult_of_le_within_character :
    let p : Program := ⟨[⟨⟨"f", 7⟩, .owned [0xc3, 0xa9] false, [], by decide⟩]⟩
    let language : Language Nat := { name := "none" }
    (∃ d other, Program.parseWith { messageCapacity := 18 } (Bytes.ofString "a\n'b") = .error d ∧
      Program.parseWith { messageCapacity := 30 } (Bytes.ofString "a\n'b") = .error other ∧
      d.ClippedFrom 18 other ∧ d.message = "unclosed quoted st" ∧
      other.message = "unclosed quoted string") ∧
    ∃ d other, (⟨language, ⟨18⟩⟩ : Engine Nat).run? 1 p 0 = some (.error d, 0) ∧
      (⟨language, ⟨30⟩⟩ : Engine Nat).run? 1 p 0 = some (.error other, 0) ∧
      d.ClippedFrom 18 other ∧ d.message = "unknown command `" ∧
      other.message = "unknown command `é`" := by
  intro p language
  obtain ⟨hparse, hrun⟩ := clippedResult_of_le (by decide : 18 ≤ 30)
  have hparsed := hparse {} (Bytes.ofString "a\n'b")
  have hended := (hrun Nat Unit language 1 p 0).2
  have hsmall : Program.parseWith (({} : ParseSettings).withCapacity 18) (Bytes.ofString "a\n'b") =
      .error ⟨.unclosedString, .error, ⟨unknownFile, 2⟩, "unclosed quoted st", 18, none⟩ := by
    decide +kernel
  have hlarge : Program.parseWith (({} : ParseSettings).withCapacity 30) (Bytes.ofString "a\n'b") =
      .error ⟨.unclosedString, .error, ⟨unknownFile, 2⟩, "unclosed quoted string", 30, none⟩ := by
    decide +kernel
  have hshort : (⟨language, ⟨18⟩⟩ : Engine Nat).run? 1 p 0 =
      some (.error ⟨.unknownCommand, .error, ⟨"f", 7⟩, "unknown command `", 18, none⟩, 0) := by
    decide +kernel
  have hlong : (⟨language, ⟨30⟩⟩ : Engine Nat).run? 1 p 0 =
      some (.error ⟨.unknownCommand, .error, ⟨"f", 7⟩, "unknown command `é`", 30, none⟩, 0) := by
    decide +kernel
  rw [hsmall, hlarge] at hparsed
  rw [hshort, hlong] at hended
  obtain ⟨⟨hresult, -⟩, -⟩ := Option.rel_some_some.mp hended
  refine ⟨⟨_, _, hsmall, hlarge, ?_, rfl, rfl⟩, _, _, hshort, hlong, ?_, rfl, rfl⟩
  · cases hparsed with
    | error h => exact h
  · cases hresult with
    | error h => exact h

end CommandScript
