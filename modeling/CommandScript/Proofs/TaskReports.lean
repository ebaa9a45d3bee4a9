import CommandScript.CommandLine.Execution
import CommandScript.Proofs.Decoding
import CommandScript.Proofs.DiagnosticJson
import CommandScript.Proofs.JsonUnique

/-!
What the reports of tasks say. A report is one line of JSON, and mostly its members are sorted.
Sorting moves members but neither adds nor drops any, so a report still has each of its members
once, and each record in it has its fields.
-/

namespace CommandScript

/-! ### Members of objects -/

namespace Json

variable {members : List (String × Json)} {name : String} {value : Json}

/-- The value is an object in which one member has this name, and this is what its value says. -/
def Content.HasMember (v : Content) (name : String) (value : Content) : Prop :=
  ∃ members, v = .object members ∧
    members.filter (fun m => m.1 = some name) = [(some name, value)]

theorem Content.HasMember.unique {v a b : Content} (ha : v.HasMember name a)
    (hb : v.HasMember name b) : a = b := by
  obtain ⟨members, rfl, ha⟩ := ha
  obtain ⟨others, hsame, hb⟩ := hb
  obtain rfl := Content.object.inj hsame
  have hmember := List.singleton_inj.mp (ha.symm.trans hb)
  exact (Prod.mk.inj hmember).2

theorem memberContents_eq_map (members : List (String × Json)) :
    memberContents members = members.map fun m => (some m.1, m.2.content) := by
  induction members with
  | nil => rfl
  | cons member members ih => rw [memberContents, ih, List.map_cons]

/-! ### Sorted members -/

theorem sortedItems_eq_map (items : List Json) : sortedItems items = items.map sorted := by
  induction items with
  | nil => rfl
  | cons item items ih => rw [sortedItems, ih, List.map_cons]

theorem perm_insertByName (member : String × Json) (members : List (String × Json)) :
    (insertByName member members).Perm (member :: members) := by
  induction members with
  | nil => exact .refl _
  | cons other members ih =>
      unfold insertByName
      split
      · exact .refl _
      · exact (ih.cons other).trans (.swap member other members)

/-- Sorting keeps all members. -/
theorem perm_sortedMembers (members : List (String × Json)) :
    (sortedMembers members).Perm (members.map fun m => (m.1, m.2.sorted)) := by
  induction members with
  | nil => exact .refl _
  | cons member members ih => exact (perm_insertByName _ _).trans (ih.cons _)

/-- So does the text of an object whose members are sorted. -/
theorem perm_memberContents_sorted (members : List (String × Json)) :
    (memberContents (sortedMembers members)).Perm
      (members.map fun m => (some m.1, m.2.sorted.content)) := by
  have hperm := (perm_sortedMembers members).map fun m => (some m.1, m.2.content)
  rwa [List.map_map, ← memberContents_eq_map] at hperm

theorem hasMember_sorted (h : members.filter (·.1 = name) = [(name, value)]) :
    (Json.object members).sorted.content.HasMember name value.sorted.content := by
  refine ⟨_, rfl, List.perm_singleton.mp ?_⟩
  refine ((perm_memberContents_sorted members).filter _).trans ?_
  rw [List.filter_map]
  have hfilter : members.filter ((fun m => decide (m.1 = some name)) ∘
      fun m => (some m.1, m.2.sorted.content)) = [(name, value)] := by
    simpa [Function.comp_def] using h
  rw [hfilter]
  exact .refl _

end Json

/-! ### Records in a report -/

namespace Diagnostic

/-- The value is an object that says this diagnostic: its members are those of the record, in any
order. -/
def SaidBy (d : Diagnostic) (v : Json.Content) : Prop :=
  ∃ members, v = .object members ∧ members.Perm (d.entries.map fun e => (some e.name, e.value))

theorem saidBy_sorted (d : Diagnostic) : d.SaidBy d.toJson.sorted.content := by
  have hpos : d.pos.toJson.sorted = d.pos.toJson := by
    have hnames : "file" ≤ "line" := by decide
    simp [Position.toJson, Json.sorted, Json.sortedMembers, Json.insertByName, hnames]
  refine ⟨_, rfl, (Json.perm_memberContents_sorted _).trans ?_⟩
  simp [entries, hpos, Json.sorted, Json.content]

end Diagnostic

/-! ### Reports -/

namespace CommandLine

namespace Result

variable {result : Result} {members : List (String × Json)} {name : String} {value : Json}
  {diagnostics : List Diagnostic}

/-- The output is a line of JSON, an object in which one member has this name and says this. -/
def Says (result : Result) (name : String) (value : Json.Content) : Prop :=
  ∃ text v, result.output = textLine text ∧ Json.Denotes text v ∧ v.HasMember name value

/-- The output is a line of JSON that reports just these diagnostics, in this order. -/
def Lists (result : Result) (diagnostics : List Diagnostic) : Prop :=
  ∃ items, result.Says "diagnostics" (.array items) ∧
    List.Forall₂ Diagnostic.SaidBy diagnostics items

/-- An output says one thing under a name. -/
theorem Says.unique {a b : Json.Content} (ha : result.Says name a) (hb : result.Says name b) :
    a = b := by
  obtain ⟨text, v, houtput, hv, ha⟩ := ha
  obtain ⟨text', w, houtput', hw, hb⟩ := hb
  have hbytes : Bytes.ofString text = Bytes.ofString text' :=
    List.append_cancel_right (houtput.symm.trans houtput')
  have htext : text = text' := by
    rw [← Utf8.lossy_ofString text, hbytes, Utf8.lossy_ofString]
  subst htext
  obtain rfl := hv.unique hw
  exact ha.unique hb

theorem says_of_sortedReport (houtput : result.output = sortedReport (.object members))
    (h : members.filter (·.1 = name) = [(name, value)]) :
    result.Says name value.sorted.content :=
  ⟨_, _, houtput, Json.denotes_pretty _, Json.hasMember_sorted h⟩

theorem lists_of_sortedReport (houtput : result.output = sortedReport (.object members))
    (h : members.filter (·.1 = "diagnostics") =
      [("diagnostics", diagnosticsJson diagnostics)]) : result.Lists diagnostics := by
  have hsays := says_of_sortedReport houtput h
  rw [diagnosticsJson, Json.sorted, Json.content, Json.sortedItems_eq_map, Json.contents_eq_map,
    List.map_map, List.map_map] at hsays
  refine ⟨_, hsays, ?_⟩
  rw [List.forall₂_map_right_iff]
  exact List.forall₂_same.mpr fun d _ => d.saidBy_sorted

end Result

end CommandLine

end CommandScript
