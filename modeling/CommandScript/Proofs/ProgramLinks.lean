import CommandScript.Proofs.Running
import Mathlib.Data.List.Basic

/-!
Programs as linked lists. A host builds a program by pushes, of which some may fail, and may detach
it from its source in between. Whatever it does, each id that a push answered with finds what was
pushed, the places before and after a command are inverse to each other, and the way from the first
command along the next ones leads through all of them, in the order in which they were pushed.
-/

namespace CommandScript

theorem Line.detach_detach (line : Line) : line.detach.detach = line.detach := by
  simp [detach, Part.detach]

namespace Program

/-! ### Links -/

section Links

variable {p : Program} {i j : Nat}

theorem isEmpty_lines_iff : p.lines.isEmpty = true ↔ p.size = 0 := by
  rw [List.isEmpty_iff, size, List.length_eq_zero_iff]

theorem next?_eq_some_iff : p.next? i = some j ↔ j = i + 1 ∧ j < p.size := by
  rw [next?, Option.ite_some_none_eq_some]
  constructor
  · rintro ⟨hlt, rfl⟩
    exact ⟨rfl, hlt⟩
  · rintro ⟨rfl, hlt⟩
    exact ⟨hlt, rfl⟩

theorem prev?_eq_some_iff : p.prev? j = some i ↔ j = i + 1 ∧ j < p.size := by
  rw [prev?, Option.ite_some_none_eq_some]
  constructor
  · rintro ⟨⟨hpos, hlt⟩, rfl⟩
    exact ⟨(Nat.sub_add_cancel hpos).symm, hlt⟩
  · rintro ⟨rfl, hlt⟩
    exact ⟨⟨Nat.succ_pos i, hlt⟩, Nat.add_sub_cancel ..⟩

theorem next?_eq_none_iff : p.next? i = none ↔ p.size ≤ i + 1 := by
  simp [next?]

theorem prev?_eq_none_iff : p.prev? i = none ↔ i = 0 ∨ p.size ≤ i := by
  rw [prev?, ite_eq_right_iff]
  simp only [reduceCtorEq, imp_false]
  rw [not_and_or, Nat.not_lt, Nat.not_lt, Nat.le_zero]

theorem head?_eq_some_iff : p.head? = some i ↔ i = 0 ∧ 0 < p.size := by
  rw [head?, Option.ite_none_left_eq_some, isEmpty_lines_iff, Option.some_inj, Nat.pos_iff_ne_zero]
  constructor
  · rintro ⟨hsize, rfl⟩
    exact ⟨rfl, hsize⟩
  · rintro ⟨rfl, hsize⟩
    exact ⟨hsize, rfl⟩

theorem last?_eq_some_iff : p.last? = some i ↔ p.size = i + 1 := by
  rw [last?, Option.ite_none_left_eq_some, isEmpty_lines_iff, Option.some_inj]
  constructor
  · rintro ⟨hne, rfl⟩
    exact (Nat.sub_add_cancel (Nat.pos_of_ne_zero hne)).symm
  · intro hsize
    rw [hsize]
    exact ⟨Nat.succ_ne_zero i, Nat.add_sub_cancel ..⟩

/-- The ids from one on along the next ones. -/
def walkFrom (p : Program) (id : CommandId) : List CommandId :=
  match _hnext : p.next? id with
  | some following => id :: p.walkFrom following
  | none => [id]
termination_by p.size - id
decreasing_by
  obtain ⟨rfl, hlt⟩ := next?_eq_some_iff.mp _hnext
  omega

/-- The ids from the first command on along the next ones. -/
def walk (p : Program) : List CommandId :=
  match p.head? with
  | some id => p.walkFrom id
  | none => []

theorem walkFrom_eq (h : i < p.size) : p.walkFrom i = List.range' i (p.size - i) := by
  fun_induction walkFrom p i with
  | case1 i following hnext ih =>
      obtain ⟨rfl, hlt⟩ := next?_eq_some_iff.mp hnext
      have hsize : p.size - i = p.size - (i + 1) + 1 := by omega
      rw [ih hlt, hsize, List.range'_succ]
  | case2 i hnext =>
      have hle := next?_eq_none_iff.mp hnext
      have hsize : p.size - i = 1 := by omega
      rw [hsize, List.range'_one]

theorem walk_eq_range (p : Program) : p.walk = List.range p.size := by
  unfold walk
  cases hhead : p.head? with
  | some id =>
      obtain ⟨rfl, hpos⟩ := head?_eq_some_iff.mp hhead
      rw [List.range_eq_range']
      exact walkFrom_eq hpos
  | none =>
      rw [head?_eq_none_iff.mp hhead]
      rfl

/-- The law of a doubly linked list. Each command is met once on the way from the first one, which
alone has none before it, to the last one, which alone has none behind it. -/
structure Linked (p : Program) : Prop where
  next?_iff_prev? : ∀ i j, p.next? i = some j ↔ p.prev? j = some i
  head?_iff : ∀ i, p.head? = some i ↔ i < p.size ∧ p.prev? i = none
  last?_iff : ∀ i, p.last? = some i ↔ i < p.size ∧ p.next? i = none
  nodup_walk : p.walk.Nodup
  mem_walk_iff : ∀ i, i ∈ p.walk ↔ i < p.size
  getLast?_walk : p.walk.getLast? = p.last?

theorem linked (p : Program) : p.Linked where
  next?_iff_prev? i j := next?_eq_some_iff.trans prev?_eq_some_iff.symm
  head?_iff i := by
    rw [head?_eq_some_iff, prev?_eq_none_iff]
    constructor
    · rintro ⟨rfl, hpos⟩
      exact ⟨hpos, Or.inl rfl⟩
    · rintro ⟨hlt, rfl | hle⟩
      · exact ⟨rfl, hlt⟩
      · exact absurd hlt (Nat.not_lt_of_le hle)
  last?_iff i := by
    rw [last?_eq_some_iff, next?_eq_none_iff]
    constructor
    · intro hsize
      exact ⟨hsize ▸ Nat.lt_succ_self i, Nat.le_of_eq hsize⟩
    · rintro ⟨hlt, hle⟩
      exact Nat.le_antisymm hle hlt
  nodup_walk := by
    rw [walk_eq_range]
    exact List.nodup_range
  mem_walk_iff i := by
    rw [walk_eq_range]
    exact List.mem_range
  getLast?_walk := by
    apply Option.ext
    intro i
    rw [walk_eq_range, List.getLast?_range, Option.ite_none_left_eq_some, Option.some_inj,
      last?_eq_some_iff]
    omega

end Links

/-! ### Edits -/

/-- What a host does to a program. -/
inductive Edit where
  | push (pos : Position) (name : Part) (args : List Part)
  | detach
deriving DecidableEq, Repr

/-- The program after an edit. -/
def edited (p : Program) : Edit → Program
  | .push pos name args => (p.push pos name args).2
  | .detach => p.detach

/-- The id that an edit answers with, if it is a push that succeeds. -/
def answer? (p : Program) : Edit → Option CommandId
  | .push pos name args => (p.push pos name args).1.toOption
  | .detach => none

/-- The program after edits in a row. -/
def editedBy (p : Program) (edits : List Edit) : Program :=
  edits.foldl edited p

/-- The program that edits in a row make of the empty one. -/
def ofEdits (edits : List Edit) : Program :=
  empty.editedBy edits

/-- The ids that edits in a row answer with. -/
def answers (p : Program) : List Edit → List CommandId
  | [] => []
  | edit :: edits => (p.answer? edit).toList ++ (p.edited edit).answers edits

/-- Among the edits is a push of these contents, and it answers with this id. -/
def Issued (p : Program) (edits : List Edit) (pos : Position) (name : Part) (args : List Part)
    (id : CommandId) : Prop :=
  ∃ before after, edits = before ++ .push pos name args :: after ∧
    (p.editedBy before).answer? (.push pos name args) = some id

variable {p q : Program} {edit : Edit} {edits : List Edit} {pos : Position} {name : Part}
  {args : List Part} {id : CommandId}

theorem editedBy_append (p : Program) (edits more : List Edit) :
    p.editedBy (edits ++ more) = (p.editedBy edits).editedBy more :=
  List.foldl_append

theorem push_of_empty (p : Program) (pos : Position) (args : List Part) (hname : name.text = []) :
    p.push pos name args = (.error (.error .emptyCommand pos "command name is empty"), p) :=
  dif_pos hname

theorem push_of_ne (p : Program) (pos : Position) (args : List Part) (hname : name.text ≠ []) :
    p.push pos name args = (.ok p.size, ⟨p.lines ++ [⟨pos, name, args, hname⟩]⟩) :=
  dif_neg hname

/-- All that an edit can do: add a line behind the others, fail, or detach the program. It goes with
what the edit answers and with the program after it. -/
inductive Does (p : Program) : Edit → Option CommandId → Program → Prop where
  | pushed (line : Line) :
    Does p (.push line.pos line.name line.args) (some p.size) ⟨p.lines ++ [line]⟩
  | failed {name : Part} (hname : name.text = []) (pos : Position) (args : List Part) :
    Does p (.push pos name args) none p
  | detached : Does p .detach none p.detach

theorem does_edited (p : Program) (edit : Edit) :
    p.Does edit (p.answer? edit) (p.edited edit) := by
  cases edit with
  | detach => exact .detached
  | push pos name args =>
      by_cases hname : name.text = []
      · rw [answer?, edited, push_of_empty p pos args hname]
        exact .failed hname pos args
      · rw [answer?, edited, push_of_ne p pos args hname]
        exact .pushed ⟨pos, name, args, hname⟩

theorem size_detach (p : Program) : p.detach.size = p.size :=
  List.length_map _

theorem detach_detach (p : Program) : p.detach.detach = p.detach := by
  have hlines : p.lines.map (Line.detach ∘ Line.detach) = p.lines.map Line.detach :=
    List.map_congr_left fun line _ => line.detach_detach
  rw [detach, detach, List.map_map, hlines]

/-! ### What the pushes answer -/

/-- The answers go on where the program ends. -/
theorem range_append_answers (p : Program) (edits : List Edit) :
    List.range p.size ++ p.answers edits = List.range (p.editedBy edits).size := by
  induction edits generalizing p with
  | nil => exact List.append_nil _
  | cons edit edits ih =>
      have hdoes := p.does_edited edit
      rw [answers, editedBy, List.foldl_cons, ← editedBy, ← ih (p.edited edit)]
      generalize p.answer? edit = answer, p.edited edit = q at hdoes
      cases hdoes with
      | pushed line =>
          have hsize : size ⟨p.lines ++ [line]⟩ = p.size + 1 := List.length_append
          rw [hsize, List.range_succ, List.append_assoc]
          rfl
      | failed => rfl
      | detached =>
          rw [size_detach]
          rfl

theorem issued_of_mem_answers (h : id ∈ p.answers edits) :
    ∃ pos name args, p.Issued edits pos name args id := by
  induction edits generalizing p with
  | nil => cases h
  | cons edit edits ih =>
      rcases List.mem_append.mp h with hhere | hlater
      · have hanswer : p.answer? edit = some id := Option.mem_toList.mp hhere
        cases edit with
        | detach => cases hanswer
        | push pos name args => exact ⟨pos, name, args, [], edits, rfl, hanswer⟩
      · obtain ⟨pos, name, args, before, after, rfl, hanswer⟩ := ih hlater
        exact ⟨pos, name, args, edit :: before, after, rfl, hanswer⟩

/-! ### What the edits keep -/

/-- The lines of the program are the first ones of the other, up to the source they are shared
with. -/
def Begins (p q : Program) : Prop :=
  p.detach.lines <+: q.detach.lines

theorem begins_edited (p : Program) (edit : Edit) : p.Begins (p.edited edit) := by
  have hdoes := p.does_edited edit
  unfold Begins
  generalize p.answer? edit = answer, p.edited edit = q at hdoes
  cases hdoes with
  | pushed line =>
      rw [detach, detach, List.map_append]
      exact List.prefix_append ..
  | failed => exact List.prefix_rfl
  | detached =>
      have hsame : p.detach.lines = p.detach.detach.lines := congrArg lines p.detach_detach.symm
      exact hsame ▸ List.prefix_rfl

theorem begins_editedBy (p : Program) (edits : List Edit) : p.Begins (p.editedBy edits) := by
  induction edits generalizing p with
  | nil => exact List.prefix_rfl
  | cons edit edits ih => exact (p.begins_edited edit).trans (ih (p.edited edit))

theorem lines_prefix_edited (p : Program) (hpush : edit ≠ .detach) :
    p.lines <+: (p.edited edit).lines := by
  have hdoes := p.does_edited edit
  generalize p.answer? edit = answer, p.edited edit = q at hdoes
  cases hdoes with
  | pushed line => exact List.prefix_append ..
  | failed => exact List.prefix_rfl
  | detached => exact absurd rfl hpush

theorem lines_prefix_editedBy (p : Program) (hpushes : ∀ edit ∈ edits, edit ≠ .detach) :
    p.lines <+: (p.editedBy edits).lines := by
  induction edits generalizing p with
  | nil => exact List.prefix_rfl
  | cons edit edits ih =>
      obtain ⟨hpush, hrest⟩ := List.forall_mem_cons.mp hpushes
      exact (p.lines_prefix_edited hpush).trans (ih (p.edited edit) hrest)

theorem get?_of_prefix (h : p.lines <+: q.lines) (hid : id < p.size) : q.get? id = p.get? id := by
  obtain ⟨rest, hrest⟩ := h
  rw [get?, get?, ← hrest, List.getElem?_append_left hid]

theorem Begins.get?_detach (h : p.Begins q) (hid : id < p.size) :
    q.detach.get? id = p.detach.get? id := by
  apply get?_of_prefix h
  rwa [size_detach]

/-- A detached program holds the same commands, detached. -/
theorem get?_detach (p : Program) (id : CommandId) :
    p.detach.get? id = (p.get? id).map fun command => ⟨command.toLine.detach, command.id⟩ := by
  rw [get?, get?, detach, List.getElem?_map, Option.map_map, Option.map_map]
  rfl

/-- Right behind the push the id finds exactly what was pushed. -/
theorem exists_get?_of_answer? (h : p.answer? (.push pos name args) = some id) :
    ∃ command, (p.edited (.push pos name args)).get? id = some command ∧ command.id = id ∧
      command.pos = pos ∧ command.name = name ∧ command.args = args := by
  have hdoes := p.does_edited (.push pos name args)
  rw [h] at hdoes
  generalize p.edited (.push pos name args) = q at hdoes
  cases hdoes with
  | pushed line =>
      refine ⟨⟨line, p.size⟩, ?_, rfl, rfl, rfl, rfl⟩
      rw [get?, size, List.getElem?_concat_length]
      rfl

/-- Whatever comes later, the id finds what was pushed. -/
theorem Issued.exists_get? (h : p.Issued edits pos name args id) :
    ∃ command, (p.editedBy edits).get? id = some command ∧ command.id = id ∧ command.pos = pos ∧
      command.name.detach = name.detach ∧
      command.args.map Part.detach = args.map Part.detach := by
  obtain ⟨before, after, rfl, hanswer⟩ := h
  obtain ⟨pushed, hpushed, hpushedId, hpos, hname, hargs⟩ := exists_get?_of_answer? hanswer
  -- The later edits may detach, so only the detached programs are compared.
  have hkept := (begins_editedBy _ after).get?_detach (lt_of_get? hpushed)
  rw [get?_detach, get?_detach, hpushed, Option.map_some] at hkept
  obtain ⟨command, hcommand, hsame⟩ := Option.map_eq_some_iff.mp hkept
  obtain ⟨hline, hid⟩ := Command.mk.inj hsame
  refine ⟨command, ?_, hid.trans hpushedId, (congrArg Line.pos hline).trans hpos,
    (congrArg Line.name hline).trans (congrArg Part.detach hname),
    (congrArg Line.args hline).trans (congrArg (List.map Part.detach) hargs)⟩
  rw [editedBy_append]
  exact hcommand

theorem isSome_get?_iff (p : Program) (id : CommandId) :
    (p.get? id).isSome = true ↔ id < p.size := by
  rw [get?, Option.isSome_map, isSome_getElem?]
  rfl

/-! ### Programs built by edits -/

theorem range_size_ofEdits (edits : List Edit) :
    List.range (ofEdits edits).size = empty.answers edits :=
  (range_append_answers empty edits).symm

/-- A program that was built by pushes, of which some may have failed, and by detaching is a linked
list of what was pushed. The way from the first command along the next ones meets the ids in the
order in which the pushes answered with them. An id finds a command exactly when a push answered
with it, and this command has that id, the position and, up to the source they are shared with, the
name and the arguments of the push. Right behind the push they are the very ones. A push with a name
succeeds and adds its line at the end; one with an empty name fails and leaves the program as it
was. Later edits keep the commands there are, and unless the program is detached they keep them
unchanged. -/
theorem linked_ofEdits (edits : List Edit) :
    (ofEdits edits).Linked ∧
    (ofEdits edits).walk = empty.answers edits ∧
    (∀ id, ((ofEdits edits).get? id).isSome = true ↔ id < (ofEdits edits).size) ∧
    (∀ id, id < (ofEdits edits).size ↔ ∃ pos name args, empty.Issued edits pos name args id) ∧
    (∀ pos name args id, empty.Issued edits pos name args id →
      ∃ command, (ofEdits edits).get? id = some command ∧ command.id = id ∧ command.pos = pos ∧
        command.name.detach = name.detach ∧
        command.args.map Part.detach = args.map Part.detach) ∧
    (∀ pos name args id, (ofEdits edits).answer? (.push pos name args) = some id →
      ∃ command, (ofEdits (edits ++ [.push pos name args])).get? id = some command ∧
        command.id = id ∧ command.pos = pos ∧ command.name = name ∧ command.args = args) ∧
    (∀ pos name args (hname : name.text ≠ []), (ofEdits edits).push pos name args =
      (.ok (ofEdits edits).size, ⟨(ofEdits edits).lines ++ [⟨pos, name, args, hname⟩]⟩)) ∧
    (∀ pos name args, name.text = [] →
      (ofEdits edits).push pos name args =
        (.error (.error .emptyCommand pos "command name is empty"), ofEdits edits) ∧
      ofEdits (edits ++ [.push pos name args]) = ofEdits edits) ∧
    ∀ later id, id < (ofEdits edits).size →
      (ofEdits (edits ++ later)).detach.get? id = (ofEdits edits).detach.get? id ∧
      ((∀ edit ∈ later, edit ≠ .detach) →
        (ofEdits (edits ++ later)).get? id = (ofEdits edits).get? id) := by
  have hlater (later : List Edit) : ofEdits (edits ++ later) = (ofEdits edits).editedBy later :=
    editedBy_append empty edits later
  refine ⟨linked _, ?_, isSome_get?_iff _, ?_, fun _ _ _ _ => Issued.exists_get?, ?_,
    fun pos _ args hname => push_of_ne _ pos args hname, ?_, ?_⟩
  · rw [walk_eq_range, range_size_ofEdits]
  · intro id
    constructor
    · intro hid
      apply issued_of_mem_answers
      rw [← range_size_ofEdits]
      exact List.mem_range.mpr hid
    · rintro ⟨pos, name, args, hissued⟩
      obtain ⟨command, hcommand, -⟩ := hissued.exists_get?
      exact lt_of_get? hcommand
  · intro pos name args id hanswer
    rw [hlater]
    exact exists_get?_of_answer? hanswer
  · intro pos name args hname
    have hpush := push_of_empty (ofEdits edits) pos args hname
    refine ⟨hpush, ?_⟩
    rw [hlater, editedBy, List.foldl_cons, List.foldl_nil, edited, hpush]
  · intro later id hid
    rw [hlater]
    refine ⟨(begins_editedBy _ later).get?_detach hid, ?_⟩
    intro hpushes
    exact get?_of_prefix (lines_prefix_editedBy _ hpushes) hid

/-- A push that fails and a detaching between two pushes: the second one answers with 1, and a third
one answers with 2 and leaves both as they are. -/
theorem linked_ofEdits_failed_push :
    let word (b : UInt8) : Part := ⟨[b], false, true⟩
    let blank : Part := ⟨[], true, true⟩
    let edits : List Edit :=
      [.push ⟨"f", 1⟩ (word 0x61) [blank], .push ⟨"f", 2⟩ blank [], .detach,
        .push ⟨"f", 3⟩ (word 0x62) []]
    let third : Edit := .push ⟨"f", 4⟩ (word 0x63) []
    empty.Issued edits ⟨"f", 3⟩ (word 0x62) [] 1 ∧ (ofEdits edits).walk = [0, 1] ∧
      (∃ command, (ofEdits edits).get? 1 = some command ∧ command.pos = ⟨"f", 3⟩ ∧
        command.name.detach = .owned [0x62] false) ∧
      (ofEdits edits).answer? third = some 2 ∧
      (∃ command, (ofEdits (edits ++ [third])).get? 2 = some command ∧
        command.name = word 0x63) ∧
      blank.text = [] ∧ ofEdits (edits ++ [.push ⟨"f", 4⟩ blank []]) = ofEdits edits ∧
      1 < (ofEdits edits).size ∧ (∀ edit ∈ [third], edit ≠ .detach) ∧
      (ofEdits (edits ++ [third])).get? 1 = (ofEdits edits).get? 1 := by
  intro word blank edits third
  obtain ⟨-, hwalk, -, -, hget, hnew, -, hfail, hlater⟩ := linked_ofEdits edits
  have hissued : empty.Issued edits ⟨"f", 3⟩ (word 0x62) [] 1 := ⟨edits.take 3, [], rfl, rfl⟩
  have hanswer : (ofEdits edits).answer? third = some 2 := rfl
  obtain ⟨command, hcommand, -, hpos, hname, -⟩ := hget _ _ _ _ hissued
  obtain ⟨last, hlast, -, -, hlastName, -⟩ := hnew _ _ _ _ hanswer
  have hsize : 1 < (ofEdits edits).size := Nat.lt_succ_self 1
  have hpushes : ∀ edit ∈ [third], edit ≠ .detach := by
    simp [third]
  exact ⟨hissued, hwalk, ⟨command, hcommand, hpos, hname⟩, hanswer, ⟨last, hlast, hlastName⟩, rfl,
    (hfail _ _ _ rfl).2, hsize, hpushes, (hlater _ 1 hsize).2 hpushes⟩

end Program

end CommandScript
