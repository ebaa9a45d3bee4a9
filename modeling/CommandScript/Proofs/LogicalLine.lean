import CommandScript.Program.Grouping
import Mathlib.Data.List.Induction

/-!
Logical lines told from the tokens alone. Whether a token ends its line depends on the last `?begin`
or `?end` before it, and the open line is all that follows the last token that ended one. `Tracks`
says that a state of grouping agrees with this, and every token keeps it so.
-/

namespace CommandScript

namespace Token

/-- A word or a string. -/
def isPart (t : Token) : Bool :=
  t.kind == .word || t.kind == .string

/-- What a word or a string adds to its line. -/
def part (t : Token) : Part :=
  ⟨t.text, t.kind == .string, t.isShared⟩

def isBegin (t : Token) : Bool :=
  t.kind == .directive && t.text == Bytes.ofString "begin"

def isEnd (t : Token) : Bool :=
  t.kind == .directive && t.text == Bytes.ofString "end"

/-- A directive that is neither `?begin` nor `?end`. -/
def IsUnknown (t : Token) : Prop :=
  t.kind = .directive ∧ t.isBegin = false ∧ t.isEnd = false

/-- Every token has one of five parts to play. -/
theorem role_cases (t : Token) :
    t.isPart = true ∨ t.isBegin = true ∨ t.isEnd = true ∨ t.kind = .newline ∨ t.IsUnknown := by
  cases hkind : t.kind with
  | word => simp [isPart, hkind]
  | string => simp [isPart, hkind]
  | newline => simp
  | directive =>
      by_cases hbegin : t.isBegin = true
      · simp [hbegin]
      by_cases hend : t.isEnd = true
      · simp [hend]
      simp [IsUnknown, hkind, hbegin, hend]

theorem not_block_of_isPart {t : Token} (h : t.isPart = true) :
    t.isBegin = false ∧ t.isEnd = false ∧ t.kind ≠ .newline := by
  cases hkind : t.kind <;> simp_all [isPart, isBegin, isEnd]

theorem not_part_of_isBegin {t : Token} (h : t.isBegin = true) :
    t.isPart = false ∧ t.isEnd = false ∧ t.kind ≠ .newline := by
  obtain ⟨hkind, htext⟩ : t.kind = .directive ∧ t.text = Bytes.ofString "begin" := by
    simpa [isBegin] using h
  have hne : Bytes.ofString "begin" ≠ Bytes.ofString "end" := by decide
  simp [isPart, isEnd, hkind, htext, hne]

theorem not_part_of_isEnd {t : Token} (h : t.isEnd = true) :
    t.isPart = false ∧ t.isBegin = false ∧ t.kind ≠ .newline := by
  obtain ⟨hkind, htext⟩ : t.kind = .directive ∧ t.text = Bytes.ofString "end" := by
    simpa [isEnd] using h
  have hne : Bytes.ofString "end" ≠ Bytes.ofString "begin" := by decide
  simp [isPart, isBegin, hkind, htext, hne]

theorem not_part_of_newline {t : Token} (h : t.kind = .newline) :
    t.isPart = false ∧ t.isBegin = false ∧ t.isEnd = false := by
  simp [isPart, isBegin, isEnd, h]

end Token

/-- The words and strings among the tokens. -/
def partTokens (tokens : List Token) : List Token :=
  tokens.filter Token.isPart

@[simp] theorem partTokens_nil : partTokens [] = [] := rfl

@[simp] theorem partTokens_append (tokens others : List Token) :
    partTokens (tokens ++ others) = partTokens tokens ++ partTokens others :=
  List.filter_append ..

theorem partTokens_singleton {t : Token} (h : t.isPart = true) : partTokens [t] = [t] := by
  simp [partTokens, h]

theorem partTokens_singleton_of_not {t : Token} (h : t.isPart = false) : partTokens [t] = [] := by
  simp [partTokens, h]

namespace LogicalLine

/-! ### Blocks and line ends -/

/-- True when the last `?begin` or `?end` of the tokens is a `?begin`. -/
def inBlock (tokens : List Token) : Bool :=
  (tokens.filter fun t => t.isBegin || t.isEnd).getLast?.any Token.isBegin

/-- True when a token ends the logical line that is open behind the tokens before it. -/
def endsLine (before : List Token) (t : Token) : Bool :=
  t.isEnd || (t.kind == .newline && !inBlock before)

theorem inBlock_concat (before : List Token) (t : Token) :
    inBlock (before ++ [t]) = (t.isBegin || (!t.isEnd && inBlock before)) := by
  cases hbegin : t.isBegin with
  | true => simp [inBlock, List.filter_append, hbegin]
  | false =>
      cases hend : t.isEnd <;> simp [inBlock, List.filter_append, hbegin, hend]

/-- The `?begin` that opened the block which is open behind the tokens: nothing was open before it,
and no `?end` has come since. A further `?begin` changes nothing. -/
def OpenedBy (before : List Token) (opener : Token) : Prop :=
  ∃ earlier since, before = earlier ++ opener :: since ∧ opener.isBegin = true ∧
    inBlock earlier = false ∧ ∀ t ∈ since, t.isEnd = false

theorem inBlock_append_of_begin {opener : Token} (earlier : List Token) {since : List Token}
    (hbegin : opener.isBegin = true) (hsince : ∀ t ∈ since, t.isEnd = false) :
    inBlock (earlier ++ opener :: since) = true := by
  induction since using List.reverseRecOn with
  | nil => rw [inBlock_concat, hbegin, Bool.true_or]
  | append_singleton since t ih =>
      have hend : t.isEnd = false := hsince t (by simp)
      have hblock := ih fun t ht => hsince t (by simp [ht])
      rw [← List.cons_append, ← List.append_assoc, inBlock_concat, hend, hblock]
      simp

theorem OpenedBy.mem {before : List Token} {opener : Token} (h : OpenedBy before opener) :
    opener ∈ before := by
  obtain ⟨earlier, since, rfl, -⟩ := h
  simp

theorem OpenedBy.inBlock {before : List Token} {opener : Token} (h : OpenedBy before opener) :
    inBlock before = true := by
  obtain ⟨earlier, since, rfl, hbegin, -, hsince⟩ := h
  exact inBlock_append_of_begin earlier hbegin hsince

/-- Only one token opened the block. -/
theorem OpenedBy.unique {before : List Token} {opener other : Token} (h : OpenedBy before opener)
    (hother : OpenedBy before other) : opener = other := by
  -- Behind the earlier of the two a block is open, which is not so in front of the later one.
  have hle {earlier since earlier' since' : List Token} {opener other : Token}
      (heq : earlier ++ opener :: since = earlier' ++ other :: since')
      (hbegin : opener.isBegin = true) (hsince : ∀ t ∈ since, t.isEnd = false)
      (hclosed : LogicalLine.inBlock earlier' = false) : earlier'.length ≤ earlier.length := by
    by_contra hlt
    rcases List.append_eq_append_iff.mp heq with ⟨mid, rfl, hmid⟩ | ⟨mid, rfl, hmid⟩
    · cases mid with
      | nil => simp at hlt
      | cons t mid =>
          obtain ⟨rfl, rfl⟩ := List.cons.inj hmid
          rw [inBlock_append_of_begin earlier hbegin fun t ht => hsince t (by simp [ht])] at hclosed
          cases hclosed
    · simp at hlt
  obtain ⟨earlier, since, rfl, hbegin, hclosed, hsince⟩ := h
  obtain ⟨earlier', since', heq, hbegin', hclosed', hsince'⟩ := hother
  have hlength : earlier.length = earlier'.length :=
    Nat.le_antisymm (hle heq.symm hbegin' hsince' hclosed) (hle heq hbegin hsince hclosed')
  have hcons := (List.append_inj heq hlength).2
  exact (List.cons.inj hcons).1

theorem OpenedBy.concat {before : List Token} {opener t : Token} (h : OpenedBy before opener)
    (ht : t.isEnd = false) : OpenedBy (before ++ [t]) opener := by
  obtain ⟨earlier, since, rfl, hbegin, hclosed, hsince⟩ := h
  refine ⟨earlier, since ++ [t], by simp, hbegin, hclosed, ?_⟩
  intro other hother
  rcases List.mem_append.mp hother with hother | hother
  · exact hsince other hother
  · exact List.mem_singleton.mp hother ▸ ht

/-! ### The open line -/

/-- The tokens of the logical line that is open behind the tokens before: a token in front of them
ended a line, or the source begins there, and none of them ends one. -/
def IsOpen (before line : List Token) : Prop :=
  ∃ earlier, before = earlier ++ line ∧
    (∀ init last, earlier = init ++ [last] → endsLine init last = true) ∧
    ∀ init t rest, line = init ++ t :: rest → endsLine (earlier ++ init) t = false

theorem isOpen_nil : IsOpen [] [] := by
  refine ⟨[], rfl, ?_, ?_⟩
  · intro init last h
    simp at h
  · intro init t rest h
    simp at h

theorem isOpen_of_endsLine {before : List Token} {t : Token} (h : endsLine before t = true) :
    IsOpen (before ++ [t]) [] := by
  refine ⟨before ++ [t], by simp, ?_, ?_⟩
  · intro init last heq
    obtain ⟨rfl, hlast⟩ := List.append_inj' heq rfl
    obtain rfl : t = last := List.singleton_inj.mp hlast
    exact h
  · intro init t rest heq
    simp at heq

theorem IsOpen.concat {before line : List Token} {t : Token} (h : IsOpen before line)
    (ht : endsLine before t = false) : IsOpen (before ++ [t]) (line ++ [t]) := by
  obtain ⟨earlier, rfl, hstart, hnone⟩ := h
  refine ⟨earlier, by simp, hstart, ?_⟩
  intro init other rest heq
  rcases List.eq_nil_or_concat rest with rfl | ⟨rest, last, rfl⟩
  · obtain ⟨rfl, hother⟩ := List.append_inj' heq rfl
    obtain rfl : t = other := List.singleton_inj.mp hother
    exact ht
  · refine hnone init other rest ?_
    rw [List.concat_eq_append, ← List.cons_append, ← List.append_assoc] at heq
    exact (List.append_inj' heq rfl).1

/-- There is only one open line. -/
theorem IsOpen.unique {before line other : List Token} (h : IsOpen before line)
    (hother : IsOpen before other) : line = other := by
  -- Of two lines the one that starts later starts right behind a token of the other that ends it.
  have hle {earlier line earlier' other : List Token} (heq : earlier ++ line = earlier' ++ other)
      (hnone : ∀ init t rest, line = init ++ t :: rest → endsLine (earlier ++ init) t = false)
      (hstart : ∀ init last, earlier' = init ++ [last] → endsLine init last = true) :
      earlier'.length ≤ earlier.length := by
    by_contra hlt
    rcases List.append_eq_append_iff.mp heq with ⟨mid, rfl, rfl⟩ | ⟨mid, rfl, rfl⟩
    · rcases List.eq_nil_or_concat mid with rfl | ⟨mid, last, rfl⟩
      · simp at hlt
      · have hends := hstart (earlier ++ mid) last (by simp)
        rw [hnone mid last other (by simp)] at hends
        cases hends
    · simp at hlt
  obtain ⟨earlier, rfl, hstart, hnone⟩ := h
  obtain ⟨earlier', heq, hstart', hnone'⟩ := hother
  have hlength : earlier.length = earlier'.length :=
    Nat.le_antisymm (hle heq.symm hnone' hstart) (hle heq hnone hstart')
  exact (List.append_inj heq hlength).2

theorem IsOpen.mem_of_head? {before line : List Token} {first : Token} (h : IsOpen before line)
    (hfirst : (partTokens line).head? = some first) : first ∈ before := by
  obtain ⟨earlier, rfl, -⟩ := h
  exact List.mem_append_right _ (List.mem_filter.mp (List.mem_of_head? hfirst)).1

end LogicalLine

/-! ### Grouping one token -/

namespace Grouping

open LogicalLine

variable {settings : ParseSettings} {g : Grouping} {t : Token}

/-- The state with its logical line begun by a token, unless it has begun already. -/
def begunBy (g : Grouping) (t : Token) : Grouping :=
  if g.parts.isEmpty then { g with lineStart := t.line } else g

@[simp] theorem begunBy_mode (g : Grouping) (t : Token) : (g.begunBy t).mode = g.mode := by
  unfold begunBy
  split <;> rfl

@[simp] theorem begunBy_parts (g : Grouping) (t : Token) : (g.begunBy t).parts = g.parts := by
  unfold begunBy
  split <;> rfl

@[simp] theorem begunBy_program (g : Grouping) (t : Token) : (g.begunBy t).program = g.program := by
  unfold begunBy
  split <;> rfl

theorem begunBy_of_nil (hparts : g.parts = []) : (g.begunBy t).lineStart = t.line := by
  simp [begunBy, hparts]

theorem begunBy_of_ne (hparts : g.parts ≠ []) : g.begunBy t = g := by
  simp [begunBy, hparts]

/-- A token ends the line of a state: `?end` always does, and a line feed outside a block. -/
def EndedBy (g : Grouping) (t : Token) : Prop :=
  t.isEnd = true ∨ (t.kind = .newline ∧ g.mode = .single)

theorem addPart_eq (limit : Nat) (g : Grouping) (t : Token) (quoted : Bool) :
    g.addPart limit t quoted =
      if g.parts.length < limit then
        .ok { g.begunBy t with parts := g.parts ++ [⟨t.text, quoted, t.isShared⟩] }
      else .error (.tooManyParts limit (g.begunBy t).lineStart) := by
  have hbegun : g.addPart limit t quoted =
      if (g.begunBy t).parts.length < limit then
        .ok { g.begunBy t with
          parts := (g.begunBy t).parts ++ [⟨t.text, quoted, t.isShared⟩] }
      else .error (.tooManyParts limit (g.begunBy t).lineStart) := rfl
  rw [hbegun, begunBy_parts]

theorem addToken_of_isPart (ht : t.isPart = true) :
    g.addToken settings t =
      if g.parts.length < settings.partsPerLine then
        .ok { g.begunBy t with parts := g.parts ++ [t.part] }
      else .error (.tooManyParts settings.partsPerLine (g.begunBy t).lineStart) := by
  cases hkind : t.kind with
  | word =>
      have hword : (TokenKind.word == TokenKind.string) = false := rfl
      simp [addToken, hkind, addPart_eq, Token.part, hword]
  | string => simp [addToken, hkind, addPart_eq, Token.part]
  | newline => simp [Token.isPart, hkind] at ht
  | directive => simp [Token.isPart, hkind] at ht

theorem addToken_of_isBegin (ht : t.isBegin = true) :
    g.addToken settings t = .ok (g.openBlock t.line) := by
  obtain ⟨hkind, htext⟩ : t.kind = .directive ∧ t.text = Bytes.ofString "begin" := by
    simpa [Token.isBegin] using ht
  simp [addToken, hkind, htext]

theorem addToken_of_unknown (ht : t.IsUnknown) :
    g.addToken settings t = .error (.unknownDirective t.text t.line) := by
  obtain ⟨hkind, hbegin, hend⟩ := ht
  simp only [Token.isBegin, Token.isEnd, hkind, beq_self_eq_true, Bool.true_and] at hbegin hend
  simp [addToken, hkind, hbegin, hend]

theorem addToken_of_newline_block {openedAt : UInt32} (ht : t.kind = .newline)
    (hmode : g.mode = .block openedAt) : g.addToken settings t = .ok g := by
  simp [addToken, ht, hmode]

theorem addToken_of_endedBy (ht : g.EndedBy t) :
    g.addToken settings t = { g with mode := .single }.endLine settings.fileName := by
  rcases ht with hend | ⟨hkind, hmode⟩
  · obtain ⟨hkind, htext⟩ : t.kind = .directive ∧ t.text = Bytes.ofString "end" := by
      simpa [Token.isEnd] using hend
    have hne : Bytes.ofString "end" ≠ Bytes.ofString "begin" := by decide
    simp [addToken, hkind, htext, hne]
  · have hg : { g with mode := .single } = g := by rw [← hmode]
    simp [addToken, hkind, hmode, hg]

theorem endLine_nil {file : String} (hparts : g.parts = []) : g.endLine file = .ok g := by
  unfold endLine
  split
  · rfl
  · simp_all

/-- A line whose first part is empty is refused. -/
theorem endLine_unnamed {file : String} {name : Part} {args : List Part}
    (hparts : g.parts = name :: args) (hname : name.text = []) :
    g.endLine file = .error (.emptyName g.lineStart) := by
  unfold endLine
  split
  · simp_all
  · rename_i hcons
    obtain ⟨rfl, rfl⟩ := List.cons.inj (hparts.symm.trans hcons)
    rw [dif_pos hname]

theorem endLine_named {file : String} {name : Part} {args : List Part}
    (hparts : g.parts = name :: args) (hname : name.text ≠ []) :
    g.endLine file = .ok { g with
      parts := []
      program := ⟨g.program.lines ++ [⟨⟨file, g.lineStart⟩, name, args, hname⟩]⟩ } := by
  unfold endLine
  split
  · simp_all
  · rename_i hcons
    obtain ⟨rfl, rfl⟩ := List.cons.inj (hparts.symm.trans hcons)
    rw [dif_neg hname]

/-- Ending a line does nothing where there is none, and else adds it to the program. -/
theorem endLine_cases {file : String} {g' : Grouping} (h : g.endLine file = .ok g') :
    (g.parts = [] ∧ g' = g) ∨
    ∃ name args hname, g.parts = name :: args ∧ g' = { g with
      parts := []
      program := ⟨g.program.lines ++ [⟨⟨file, g.lineStart⟩, name, args, hname⟩]⟩ } := by
  cases hparts : g.parts with
  | nil =>
      rw [endLine_nil hparts] at h
      exact Or.inl ⟨rfl, (Except.ok.inj h).symm⟩
  | cons name args =>
      by_cases hname : name.text = []
      · rw [endLine_unnamed hparts hname] at h
        cases h
      · rw [endLine_named hparts hname] at h
        exact Or.inr ⟨name, args, hname, rfl, (Except.ok.inj h).symm⟩

theorem endLine_ok {file : String} {g' : Grouping} (h : g.endLine file = .ok g') :
    g'.parts = [] ∧ g'.mode = g.mode := by
  obtain ⟨hparts, rfl⟩ | ⟨name, args, hname, -, rfl⟩ := endLine_cases h
  · exact ⟨hparts, rfl⟩
  · exact ⟨rfl, rfl⟩

/-- All that taking a token in can do when nothing is wrong with it. -/
inductive Takes (settings : ParseSettings) (g : Grouping) (t : Token) : Grouping → Prop
  | part (ht : t.isPart = true) (hroom : g.parts.length < settings.partsPerLine) :
      Takes settings g t { g.begunBy t with parts := g.parts ++ [t.part] }
  | opened (ht : t.isBegin = true) : Takes settings g t (g.openBlock t.line)
  | merged {openedAt : UInt32} (ht : t.kind = .newline) (hmode : g.mode = .block openedAt) :
      Takes settings g t g
  | ended {g' : Grouping} (ht : g.EndedBy t)
      (hend : { g with mode := .single }.endLine settings.fileName = .ok g') :
      Takes settings g t g'

theorem takes_of_addToken {g' : Grouping} (h : g.addToken settings t = .ok g') :
    Takes settings g t g' := by
  rcases t.role_cases with hpart | hbegin | hend | hnewline | hunknown
  · rw [addToken_of_isPart hpart] at h
    split at h
    · cases h
      exact .part hpart ‹_›
    · cases h
  · rw [addToken_of_isBegin hbegin] at h
    cases h
    exact .opened hbegin
  · rw [addToken_of_endedBy (Or.inl hend)] at h
    exact .ended (Or.inl hend) h
  · cases hmode : g.mode with
    | single =>
        rw [addToken_of_endedBy (Or.inr ⟨hnewline, hmode⟩)] at h
        exact .ended (Or.inr ⟨hnewline, hmode⟩) h
    | block openedAt =>
        rw [addToken_of_newline_block hnewline hmode] at h
        cases h
        exact .merged hnewline hmode
  · rw [addToken_of_unknown hunknown] at h
    cases h

theorem EndedBy.not_isPart (h : g.EndedBy t) : t.isPart = false := by
  rcases h with hend | ⟨hkind, -⟩
  · exact (Token.not_part_of_isEnd hend).1
  · exact (Token.not_part_of_newline hkind).1

/-- What one token keeps of a state, many tokens keep. -/
theorem addTokens_induction {I : List Token → Grouping → Prop}
    (hstep : ∀ before g t g', I before g → g.addToken settings t = .ok g' →
      I (before ++ [t]) g')
    (before : List Token) {tokens : List Token} {g' : Grouping} (h : I before g)
    (hadd : g.addTokens settings tokens = .ok g') : I (before ++ tokens) g' := by
  induction tokens generalizing before g with
  | nil =>
      cases hadd
      simpa using h
  | cons t tokens ih =>
      rw [addTokens] at hadd
      cases ht : g.addToken settings t with
      | ok next =>
          rw [ht] at hadd
          simpa using ih (before ++ [t]) (hstep before g t next h ht) hadd
      | error fault =>
          rw [ht] at hadd
          cases hadd

/-- A state of grouping agrees with the tokens it has taken in: on the block and its opening, and on
the open line and its first part. -/
structure Tracks (limit : Nat) (before : List Token) (g : Grouping) : Prop where
  mode : (g.mode = .single ∧ inBlock before = false) ∨
    ∃ opener, g.mode = .block opener.line ∧ OpenedBy before opener
  line : ∃ line, IsOpen before line ∧ g.parts = (partTokens line).map Token.part ∧
    ∀ first ∈ (partTokens line).head?, g.lineStart = first.line
  length_le : g.parts.length ≤ limit

theorem tracks_start (limit : Nat) : Tracks limit [] start where
  mode := Or.inl ⟨rfl, rfl⟩
  line := ⟨[], isOpen_nil, rfl, by simp⟩
  length_le := Nat.zero_le _

namespace Tracks

variable {limit : Nat} {before : List Token}

theorem inBlock_eq_false (h : Tracks limit before g) (hmode : g.mode = .single) :
    inBlock before = false := by
  rcases h.mode with ⟨-, hclosed⟩ | ⟨opener, hblock, -⟩
  · exact hclosed
  · rw [hmode] at hblock
    cases hblock

/-- The state ends its line at the tokens that end the open line. -/
theorem endedBy_iff (h : Tracks limit before g) :
    g.EndedBy t ↔ endsLine before t = true := by
  simp only [EndedBy, endsLine, Bool.or_eq_true, Bool.and_eq_true, beq_iff_eq,
    Bool.not_eq_true']
  rcases h.mode with ⟨hmode, hclosed⟩ | ⟨opener, hmode, hopened⟩
  · simp [hmode, hclosed]
  · simp [hmode, hopened.inBlock]

/-- The first part of the open line in state and tokens. -/
theorem exists_first {name : Part} {args : List Part} (h : Tracks limit before g)
    (hparts : g.parts = name :: args) :
    ∃ line first, IsOpen before line ∧ (partTokens line).head? = some first ∧
      first.part = name ∧ g.lineStart = first.line := by
  obtain ⟨line, hopen, hline, hstart⟩ := h.line
  rw [hparts] at hline
  cases hpart : partTokens line with
  | nil => simp [hpart] at hline
  | cons first others =>
      rw [hpart] at hline
      exact ⟨line, first, hopen, by rw [hpart]; rfl, (List.cons.inj hline).1.symm,
        hstart first (by simp [hpart])⟩

theorem concat_part (h : Tracks limit before g) (ht : t.isPart = true)
    (hroom : g.parts.length < limit) :
    Tracks limit (before ++ [t]) { g.begunBy t with parts := g.parts ++ [t.part] } := by
  obtain ⟨hbegin, hend, hkind⟩ := Token.not_block_of_isPart ht
  have hends : endsLine before t = false := by simp [endsLine, hend, hkind]
  obtain ⟨line, hopen, hparts, hstart⟩ := h.line
  refine ⟨?_, ⟨line ++ [t], hopen.concat hends, ?_, ?_⟩, ?_⟩
  · rcases h.mode with ⟨hmode, hclosed⟩ | ⟨opener, hmode, hopened⟩
    · exact Or.inl ⟨by simp [hmode], by simp [inBlock_concat, hbegin, hclosed]⟩
    · exact Or.inr ⟨opener, by simp [hmode], hopened.concat hend⟩
  · simp [partTokens_singleton ht, hparts]
  · intro first hfirst
    rw [partTokens_append, partTokens_singleton ht] at hfirst
    cases hline : partTokens line with
    | nil =>
        obtain rfl : t = first := by simpa [hline] using hfirst
        exact begunBy_of_nil (by simp [hparts, hline])
    | cons other others =>
        obtain rfl : other = first := by simpa [hline] using hfirst
        rw [begunBy_of_ne (by simp [hparts, hline])]
        exact hstart other (by simp [hline])
  · simp only [List.length_append, List.length_singleton]
    omega

theorem concat_begin (h : Tracks limit before g) (ht : t.isBegin = true) :
    Tracks limit (before ++ [t]) (g.openBlock t.line) := by
  obtain ⟨hpart, hend, hkind⟩ := Token.not_part_of_isBegin ht
  have hends : endsLine before t = false := by simp [endsLine, hend, hkind]
  obtain ⟨line, hopen, hparts, hstart⟩ := h.line
  have hline : partTokens (line ++ [t]) = partTokens line := by
    simp [partTokens_singleton_of_not hpart]
  rcases h.mode with ⟨hmode, hclosed⟩ | ⟨opener, hmode, hopened⟩
  · have hblock : g.openBlock t.line = { g with mode := .block t.line } := by
      simp [openBlock, hmode]
    rw [hblock]
    exact ⟨Or.inr ⟨t, rfl, before, [], rfl, ht, hclosed, by simp⟩,
      ⟨line ++ [t], hopen.concat hends, by rw [hline]; exact hparts, by rw [hline]; exact hstart⟩,
      h.length_le⟩
  · have hblock : g.openBlock t.line = g := by simp [openBlock, hmode]
    rw [hblock]
    exact ⟨Or.inr ⟨opener, hmode, hopened.concat hend⟩,
      ⟨line ++ [t], hopen.concat hends, by rw [hline]; exact hparts, by rw [hline]; exact hstart⟩,
      h.length_le⟩

/-- A line feed inside a block adds nothing and ends nothing. -/
theorem concat_newline {openedAt : UInt32} (h : Tracks limit before g) (ht : t.kind = .newline)
    (hblock : g.mode = .block openedAt) : Tracks limit (before ++ [t]) g := by
  obtain ⟨hpart, -, hend⟩ := Token.not_part_of_newline ht
  obtain ⟨line, hopen, hparts, hstart⟩ := h.line
  rcases h.mode with ⟨hmode, -⟩ | ⟨opener, hmode, hopened⟩
  · rw [hblock] at hmode
    cases hmode
  · have hends : endsLine before t = false := by simp [endsLine, hend, hopened.inBlock]
    have hline : partTokens (line ++ [t]) = partTokens line := by
      simp [partTokens_singleton_of_not hpart]
    exact ⟨Or.inr ⟨opener, hmode, hopened.concat hend⟩,
      ⟨line ++ [t], hopen.concat hends, by rw [hline]; exact hparts, by rw [hline]; exact hstart⟩,
      h.length_le⟩

theorem concat_ended {file : String} {g' : Grouping} (h : Tracks limit before g)
    (ht : g.EndedBy t) (hg' : { g with mode := .single }.endLine file = .ok g') :
    Tracks limit (before ++ [t]) g' := by
  obtain ⟨hparts, hmode⟩ := endLine_ok hg'
  refine ⟨Or.inl ⟨hmode, ?_⟩, ⟨[], isOpen_of_endsLine (h.endedBy_iff.mp ht), by simp [hparts],
    by simp⟩, by simp [hparts]⟩
  rcases ht with hend | ⟨hkind, hsingle⟩
  · simp [inBlock_concat, hend, (Token.not_part_of_isEnd hend).2.1]
  · simp [inBlock_concat, Token.not_part_of_newline hkind, h.inBlock_eq_false hsingle]

/-- Taking a token in keeps a state in agreement with the tokens. -/
theorem concat {g' : Grouping} (h : Tracks settings.partsPerLine before g)
    (hadd : g.addToken settings t = .ok g') : Tracks settings.partsPerLine (before ++ [t]) g' := by
  cases takes_of_addToken hadd with
  | part ht hroom => exact h.concat_part ht hroom
  | opened ht => exact h.concat_begin ht
  | merged ht hmode => exact h.concat_newline ht hmode
  | ended ht hend => exact h.concat_ended ht hend

theorem addTokens {tokens : List Token} {g' : Grouping} (h : Tracks settings.partsPerLine before g)
    (hadd : g.addTokens settings tokens = .ok g') :
    Tracks settings.partsPerLine (before ++ tokens) g' :=
  addTokens_induction (fun _ _ _ _ h hadd => h.concat hadd) before h hadd

end Tracks

end Grouping

end CommandScript
