import CommandScript.Program.Grouping
import CommandScript.Proofs.JsonReading
import CommandScript.Proofs.SourceLines

/-!
Settings load back from any text that is written from them. Such a text may leave out members and
sections with their defaults, put the rest in any order and hold members that no setting has, on
both levels. What is refused is decided by the values, wherever they come from, and settings that
are not refused leave room for a part on every line.
-/

namespace CommandScript

open Json (Entry)

namespace ParseSettings

/-- The members that settings are written with. Each may be left out where it has its default. -/
def entries (settings : ParseSettings) : List Entry :=
  let default : ParseSettings := {}
  [⟨"file_name", .string (some settings.fileName), settings.fileName = default.fileName⟩,
    ⟨"parts_per_line", .number (some settings.partsPerLine),
      settings.partsPerLine = default.partsPerLine⟩,
    ⟨"message_capacity", .number (some settings.messageCapacity),
      settings.messageCapacity = default.messageCapacity⟩]

/-- All numbers have 64 bits. -/
def Fits (settings : ParseSettings) : Prop :=
  settings.partsPerLine < UInt64.size ∧ settings.messageCapacity < UInt64.size

end ParseSettings

namespace RunSettings

/-- The member that settings are written with. -/
def entries (settings : RunSettings) : List Entry :=
  [⟨"message_capacity", .number (some settings.messageCapacity),
    settings.messageCapacity = ({} : RunSettings).messageCapacity⟩]

/-- The number has 64 bits. -/
def Fits (settings : RunSettings) : Prop :=
  settings.messageCapacity < UInt64.size

end RunSettings

namespace Settings

/-- The sections that settings are written with, given what each of them says. -/
def entries (settings : Settings) (parse run : Json.Content) : List Entry :=
  [⟨"parse", parse, settings.parse = {}⟩, ⟨"run", run, settings.run = {}⟩]

/-- An object that is written from settings. On both levels members with their defaults may be
missing, the others stand in any order, and members of other names may stand among them. -/
def Write (settings : Settings) (v : Json.Content) : Prop :=
  ∃ parse run, Entry.Write settings.parse.entries parse ∧ Entry.Write settings.run.entries run ∧
    Entry.Write (settings.entries parse run) v

/-- All numbers have 64 bits. -/
def Fits (settings : Settings) : Prop :=
  settings.parse.Fits ∧ settings.run.Fits

end Settings

/-- The error is about the value of this field. -/
def SettingsError.Names (error : SettingsError) (field : String) : Prop :=
  ∃ reason, error.message? = some ("invalid " ++ field ++ ": " ++ reason)

/-! ### Drafts -/

/-- What was read is the value, and what was not has its default. -/
theorem getD_of_or {α : Type} {p : Prop} [Decidable p] {value default : α}
    (h : p ∨ value = default) : (if p then some value else none).getD default = value := by
  by_cases hp : p
  · rw [if_pos hp, Option.getD_some]
  · rw [if_neg hp, Option.getD_none, h.resolve_left hp]

namespace ParseSettings

/-- The draft of settings after members of these names. -/
def Draft.of (settings : ParseSettings) (names : List String) : Draft :=
  ⟨if "file_name" ∈ names then some settings.fileName else none,
    if "parts_per_line" ∈ names then some settings.partsPerLine else none,
    if "message_capacity" ∈ names then some settings.messageCapacity else none⟩

variable {settings : ParseSettings} {v : Json.Content}

theorem fills_fields (hfits : settings.Fits) :
    Json.Fills Draft.fields settings.entries (Draft.of settings) where
  names_nodup := by
    simp [entries]
  isRead := by
    simp [Draft.fields, Draft.of]
  read := by
    have hparts : settings.partsPerLine ≤ Json.largestWord := Nat.le_pred_of_lt hfits.1
    have hcapacity : settings.messageCapacity ≤ Json.largestWord := Nat.le_pred_of_lt hfits.2
    intro f hf
    simp only [Draft.fields, List.mem_cons, List.not_mem_nil, or_false] at hf
    obtain rfl | rfl | rfl := hf
    · exact ⟨_, .head _, rfl, _, (Json.takes_readText _).map _, fun names => by simp [Draft.of]⟩
    · exact ⟨_, .tail _ (.head _), rfl, _, (Json.takes_readNatural hparts hparts).map _,
        fun names => by simp [Draft.of]⟩
    · exact ⟨_, .tail _ (.tail _ (.head _)), rfl, _,
        (Json.takes_readNatural hcapacity hcapacity).map _, fun names => by simp [Draft.of]⟩
  skip := by
    intro name hname names
    simp only [Draft.fields, List.forall_mem_cons] at hname
    simp [Draft.of, hname]

theorem takes_reader (hfits : settings.Fits) (hv : Entry.Write settings.entries v) :
    reader.Takes v settings := by
  obtain ⟨names, htakes, hread⟩ := (fills_fields hfits).takes_readRecord hv
  have hfinish : (Draft.of settings names).finish = settings := by
    simp only [entries, List.forall_mem_cons] at hread
    obtain ⟨hname, hparts, hcapacity, -⟩ := hread
    simp only [Draft.of, Draft.finish, getD_of_or hname, getD_of_or hparts, getD_of_or hcapacity]
  rw [← hfinish]
  exact htakes.map _

end ParseSettings

namespace RunSettings

/-- The draft of settings after members of these names. -/
def Draft.of (settings : RunSettings) (names : List String) : Draft :=
  ⟨if "message_capacity" ∈ names then some settings.messageCapacity else none⟩

variable {settings : RunSettings} {v : Json.Content}

theorem fills_fields (hfits : settings.Fits) :
    Json.Fills Draft.fields settings.entries (Draft.of settings) where
  names_nodup := by
    simp [entries]
  isRead := by
    simp [Draft.fields, Draft.of]
  read := by
    have hcapacity : settings.messageCapacity ≤ Json.largestWord := Nat.le_pred_of_lt hfits
    intro f hf
    obtain rfl := List.mem_singleton.mp hf
    exact ⟨_, .head _, rfl, _, (Json.takes_readNatural hcapacity hcapacity).map _,
      fun names => by simp [Draft.of]⟩
  skip := by
    intro name hname names
    simp only [Draft.fields, List.forall_mem_cons] at hname
    simp [Draft.of, hname]

theorem takes_reader (hfits : settings.Fits) (hv : Entry.Write settings.entries v) :
    reader.Takes v settings := by
  obtain ⟨names, htakes, hread⟩ := (fills_fields hfits).takes_readRecord hv
  have hfinish : (Draft.of settings names).finish = settings := by
    simp only [entries, List.forall_mem_singleton] at hread
    simp only [Draft.of, Draft.finish, getD_of_or hread]
  rw [← hfinish]
  exact htakes.map _

end RunSettings

namespace Settings

/-- The draft of settings after sections of these names. -/
def Draft.of (settings : Settings) (names : List String) : Draft :=
  ⟨if "parse" ∈ names then some settings.parse else none,
    if "run" ∈ names then some settings.run else none⟩

variable {settings : Settings} {v : Json.Content} {text : String}

theorem fills_fields {parse run : Json.Content}
    (hparse : ParseSettings.reader.Takes parse settings.parse)
    (hrun : RunSettings.reader.Takes run settings.run) :
    Json.Fills Draft.fields (settings.entries parse run) (Draft.of settings) where
  names_nodup := by
    simp [entries]
  isRead := by
    simp [Draft.fields, Draft.of]
  read := by
    intro f hf
    simp only [Draft.fields, List.mem_cons, List.not_mem_nil, or_false] at hf
    obtain rfl | rfl := hf
    · exact ⟨_, .head _, rfl, _, hparse.map _, fun names => by simp [Draft.of]⟩
    · exact ⟨_, .tail _ (.head _), rfl, _, hrun.map _, fun names => by simp [Draft.of]⟩
  skip := by
    intro name hname names
    simp only [Draft.fields, List.forall_mem_cons] at hname
    simp [Draft.of, hname]

theorem takes_reader (hfits : settings.Fits) (hv : settings.Write v) : reader.Takes v settings := by
  obtain ⟨parse, run, hparse, hrun, hv⟩ := hv
  have hfills := fills_fields (ParseSettings.takes_reader hfits.1 hparse)
    (RunSettings.takes_reader hfits.2 hrun)
  obtain ⟨names, htakes, hread⟩ := hfills.takes_readRecord hv
  have hfinish : (Draft.of settings names).finish = settings := by
    simp only [entries, List.forall_mem_cons] at hread
    obtain ⟨hparse, hrun, -⟩ := hread
    simp only [Draft.of, Draft.finish, getD_of_or hparse, getD_of_or hrun]
  rw [← hfinish]
  exact htakes.map _

/-- Whatever the settings are written as, they are read and then checked. -/
theorem ofJson_of_write (hfits : settings.Fits) (hv : settings.Write v)
    (htext : Json.Denotes text v) : ofJson text = settings.validate := by
  rw [ofJson, (takes_reader hfits hv).read_eq htext]

theorem write_toJson (settings : Settings) : settings.Write settings.toJson.content :=
  ⟨_, _, Entry.write_all settings.parse.entries, Entry.write_all settings.run.entries,
    Entry.write_all _⟩

/-! ### What is refused -/

theorem validate_of_valid (hparts : 1 ≤ settings.parse.partsPerLine)
    (hname : settings.parse.fileName ≠ "") : settings.validate = .ok settings := by
  rw [validate, if_neg (Nat.ne_of_gt hparts), if_neg hname]

theorem valid_of_validate {checked : Settings} (h : settings.validate = .ok checked) :
    1 ≤ checked.parse.partsPerLine ∧ checked.parse.fileName ≠ "" := by
  unfold validate at h
  split at h
  · cases h
  · rename_i hparts
    split at h
    · cases h
    · rename_i hname
      cases h
      exact ⟨Nat.one_le_iff_ne_zero.mpr hparts, hname⟩

/-- Settings that are not valid are refused for their limit of parts, or else for their name. -/
theorem exists_error_of_not_valid
    (h : ¬ (1 ≤ settings.parse.partsPerLine ∧ settings.parse.fileName ≠ "")) :
    ∃ error, settings.validate = .error error ∧
      error.Names (if settings.parse.partsPerLine = 0 then "parse.parts_per_line"
        else "parse.file_name") := by
  by_cases hparts : settings.parse.partsPerLine = 0
  · rw [if_pos hparts]
    exact ⟨.noParts, by rw [validate, if_pos hparts], "must be at least 1", rfl⟩
  · have hname : settings.parse.fileName = "" := by
      by_contra hne
      exact h ⟨Nat.one_le_iff_ne_zero.mpr hparts, hne⟩
    rw [if_neg hparts]
    exact ⟨.noFileName, by rw [validate, if_neg hparts, if_pos hname], "must not be empty", rfl⟩

/-- Only valid settings are read. -/
theorem valid_of_ofJson (h : ofJson text = .ok settings) :
    1 ≤ settings.parse.partsPerLine ∧ settings.parse.fileName ≠ "" := by
  unfold ofJson at h
  split at h
  · cases h
  · exact valid_of_validate h

end Settings

/-- With room for a part no source is reported like one that no line may have parts. Every other
fault has a line, also where the message is cut off. -/
theorem Program.parseWith_ne_noParts {settings : ParseSettings}
    (hlimit : 0 < settings.partsPerLine) (source : Bytes) :
    parseWith settings source ≠ .error (Fault.noParts.diagnostic settings) := by
  intro herror
  obtain ⟨fault, hfault, hdiagnostic⟩ := parseWith_error_iff.mp herror
  have hline : fault.line = 0 := congrArg (·.pos.line) hdiagnostic.symm
  obtain ⟨offset, hoffset⟩ := exists_lineNumberAt_of_error hlimit hfault
  have hzero : (source.lineNumberAt offset).toNat = 0 := by rw [← hoffset, hline]; rfl
  rw [Bytes.lineNumberAt, toNat_lineNumber] at hzero
  have hsize : UInt32.size = 4294967296 := rfl
  omega

namespace Settings

/-- Settings load back from every text that is written from them, whatever it leaves out, reorders
or adds, and those that are not valid are refused for one field. The compact text of valid settings
is such a text, and no settings that load make a source fail for want of parts. -/
theorem loads_back :
    (∀ (settings : Settings) (text : String) (v : Json.Content), settings.Fits →
      settings.Write v → Json.Denotes text v →
      if 1 ≤ settings.parse.partsPerLine ∧ settings.parse.fileName ≠ "" then
        ofJson text = .ok settings
      else ∃ error, ofJson text = .error error ∧
        error.Names (if settings.parse.partsPerLine = 0 then "parse.parts_per_line"
          else "parse.file_name")) ∧
    (∀ settings : Settings, settings.Fits → 1 ≤ settings.parse.partsPerLine →
      settings.parse.fileName ≠ "" → ofJson settings.toJson.compact = .ok settings) ∧
    ∀ (settings : Settings) (text : String), ofJson text = .ok settings → ∀ source,
      Program.ofSource settings.parse source ≠ .error .noParts ∧
      Program.parseWith settings.parse source ≠
        .error (Fault.noParts.diagnostic settings.parse) := by
  refine ⟨?_, ?_, ?_⟩
  · intro settings text v hfits hv htext
    rw [ofJson_of_write hfits hv htext]
    split
    · rename_i hvalid
      exact validate_of_valid hvalid.1 hvalid.2
    · rename_i hvalid
      exact exists_error_of_not_valid hvalid
  · intro settings hfits hparts hname
    rw [ofJson_of_write hfits settings.write_toJson (Json.denotes_compact _)]
    exact validate_of_valid hparts hname
  · intro settings text htext source
    have hparts := (valid_of_ofJson htext).1
    refine ⟨fun hfault => ?_, Program.parseWith_ne_noParts hparts source⟩
    exact Program.parseWith_ne_noParts hparts source
      (Program.parseWith_error_iff.mpr ⟨_, hfault, rfl⟩)

/-- A limit and two members that no setting has, one on either level. The members with their
defaults and the section for running are left out. Where no parts are allowed and the file has no
name, the limit is what is refused. -/
theorem loads_back_other_members :
    ofJson "\x7b\"depth\":[null,\x7b\x7d],\"parse\":\x7b\"x\":true,\"parts_per_line\":8\x7d\x7d" =
      .ok ⟨{ partsPerLine := 8 }, {}⟩ ∧
    (∀ source, Program.ofSource { partsPerLine := 8 } source ≠ .error .noParts) ∧
    ∃ error, ofJson (toJson ⟨⟨"", 0, 512⟩, {}⟩).compact = .error error ∧
      error.Names "parse.parts_per_line" := by
  have hparse : Entry.Write ({ partsPerLine := 8 } : ParseSettings).entries
      (.object (Json.named [("x", .bool true), ("parts_per_line", .number (some 8))])) := by
    refine .object [⟨"parts_per_line", .number (some 8), 8 = 512⟩] [("x", .bool true)] ?_ ?_ ?_
      (List.Perm.swap ..)
    · exact .cons _ (.cons_cons _ (.cons _ .slnil))
    · simp [ParseSettings.entries]
    · simp [ParseSettings.entries]
  have hwrite : Settings.Write ⟨{ partsPerLine := 8 }, {}⟩ (Json.content (.object
      [("depth", .array [.null, .object []]),
        ("parse", .object [("x", .bool true), ("parts_per_line", .number 8)])])) := by
    refine ⟨_, _, hparse, Entry.write_all _, .object [⟨"parse", _, _⟩]
      [("depth", .array [.null, .object []])] (.cons_cons _ (.cons _ .slnil)) ?_ ?_
      (List.Perm.swap ..)⟩
    · simp
    · simp
  have hcapacity : 512 < UInt64.size := by decide
  have hfits : Settings.Fits ⟨{ partsPerLine := 8 }, {}⟩ :=
    ⟨⟨by decide, hcapacity⟩, hcapacity⟩
  have hloaded := loads_back.1 _ _ _ hfits hwrite (Json.denotes_compact _)
  rw [if_pos (by decide)] at hloaded
  have hrefused := loads_back.1 ⟨⟨"", 0, 512⟩, {}⟩ _ _ ⟨⟨by decide, hcapacity⟩, hcapacity⟩
    (write_toJson _) (Json.denotes_compact _)
  rw [if_neg (by decide), if_pos rfl] at hrefused
  exact ⟨hloaded, fun source => (loads_back.2.2 _ _ hloaded source).1, hrefused⟩

end Settings

end CommandScript
