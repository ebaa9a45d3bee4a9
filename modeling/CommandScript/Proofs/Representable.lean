import CommandScript.Proofs.RoundTrip
import Mathlib.Algebra.Ring.Parity
import Mathlib.Data.List.DropRight

/-!
Which programs survive their own text. A host may build programs of any parts, also of such as no
source could hold. `Representable` says from the bytes alone which parts a source can hold: a word,
or a value whose runs of backslashes have the right parity in front of one kind of quote and at the
end. A program comes back from its text exactly when all its parts are of this kind.
-/

namespace CommandScript

namespace Escape

/-- The length of the run of backslashes at the end. -/
def backslashRun (value : Bytes) : Nat :=
  (value.rtakeWhile (· == Byte.backslash)).length

/-- The values of strings. No backslash may stand before a letter that would be read with it, none
may be left over for the closing quote, and the backslashes in front of each quote of one kind have
to pair up in the way that this kind of string needs. -/
structure Representable (value : Bytes) : Prop where
  no_escape : ∀ before letter after, value = before ++ Byte.backslash :: letter :: after →
    letter ∉ controlLetters
  even_end : Even (backslashRun value)
  quotes :
    (∀ before after, value = before ++ Byte.doubleQuote :: after → Even (backslashRun before)) ∨
    (∀ before after, value = before ++ Byte.singleQuote :: after → Odd (backslashRun before))

/-! ### Runs of backslashes -/

@[simp] theorem backslashRun_nil : backslashRun [] = 0 := by
  simp [backslashRun]

theorem backslashRun_concat_backslash (value : Bytes) :
    backslashRun (value ++ [Byte.backslash]) = backslashRun value + 1 := by
  simp [backslashRun]

theorem backslashRun_concat_of_ne {b : UInt8} (hb : b ≠ Byte.backslash) (value : Bytes) :
    backslashRun (value ++ [b]) = 0 := by
  simp [backslashRun, hb]

/-- What holds at each place of a byte in a list, told from the first place on. -/
theorem forall_split_cons {b first : UInt8} {rest : Bytes} {P : Bytes → Prop} :
    (∀ before after, first :: rest = before ++ b :: after → P before) ↔
      (first = b → P []) ∧ ∀ before after, rest = before ++ b :: after → P (first :: before) := by
  constructor
  · intro h
    refine ⟨?_, ?_⟩
    · rintro rfl
      exact h [] rest rfl
    · rintro before after rfl
      exact h (first :: before) after rfl
  · rintro ⟨hfirst, hrest⟩ before after heq
    cases before with
    | nil =>
        obtain ⟨rfl, -⟩ := List.cons.inj heq
        exact hfirst rfl
    | cons head before =>
        obtain ⟨rfl, htail⟩ := List.cons.inj heq
        exact hrest before after htail

/-- The parity that `Fits` follows is that of the run of backslashes behind all bytes so far. -/
theorem fits_iff {quote : UInt8} {value : Bytes} (hquote : quote ≠ Byte.backslash)
    (earlier : Bytes) :
    Fits quote (decide (Odd (backslashRun earlier))) value ↔
      Even (backslashRun (earlier ++ value)) ∧
      ∀ before after, value = before ++ quote :: after →
        (Odd (backslashRun (earlier ++ before)) ↔ quote = Byte.singleQuote) := by
  induction value generalizing earlier with
  | nil =>
      have hnone (before after : Bytes) : ([] : Bytes) ≠ before ++ quote :: after := by simp
      simp [Fits, hnone]
  | cons b rest ih =>
      have hrest := ih (earlier ++ [b])
      have hshift (before : Bytes) : earlier ++ [b] ++ before = earlier ++ b :: before := by simp
      simp only [hshift] at hrest
      rw [forall_split_cons]
      by_cases hb : b = Byte.backslash
      · subst hb
        have hodd : decide (Odd (backslashRun (earlier ++ [Byte.backslash]))) =
            !decide (Odd (backslashRun earlier)) := by
          rw [backslashRun_concat_backslash, ← decide_not]
          simp only [Nat.odd_add_one]
        rw [hodd] at hrest
        rw [fits_backslash, hrest]
        simp [hquote.symm]
      · have heven : decide (Odd (backslashRun (earlier ++ [b]))) = false := by
          rw [backslashRun_concat_of_ne hb]
          rfl
        rw [heven] at hrest
        have hhere : (b = quote → decide (Odd (backslashRun earlier)) = (b == Byte.singleQuote)) ↔
            (b = quote → (Odd (backslashRun (earlier ++ [])) ↔ quote = Byte.singleQuote)) := by
          rw [List.append_nil]
          apply imp_congr_right
          rintro rfl
          rw [Bool.eq_iff_iff, decide_eq_true_iff, beq_iff_eq]
        rw [fits_cons hb, hrest, hhere]
        exact and_left_comm

theorem fits_doubleQuote_iff {value : Bytes} :
    Fits Byte.doubleQuote false value ↔
      Even (backslashRun value) ∧
      ∀ before after, value = before ++ Byte.doubleQuote :: after → Even (backslashRun before) := by
  have hne : Byte.doubleQuote ≠ Byte.singleQuote := by decide
  have hbackslash : Byte.doubleQuote ≠ Byte.backslash := by decide
  have hfits := @fits_iff _ value hbackslash []
  simpa [hne] using hfits

theorem fits_singleQuote_iff {value : Bytes} :
    Fits Byte.singleQuote false value ↔
      Even (backslashRun value) ∧
      ∀ before after, value = before ++ Byte.singleQuote :: after → Odd (backslashRun before) := by
  have hbackslash : Byte.singleQuote ≠ Byte.backslash := by decide
  have hfits := @fits_iff _ value hbackslash []
  simpa using hfits

/-- The representable values are those that some kind of string holds and that come back from their
written form. -/
theorem representable_iff {value : Bytes} :
    Representable value ↔
      HasNoEscape value ∧ ∃ quote, Byte.isQuote quote = true ∧ Fits quote false value := by
  rw [hasNoEscape_iff]
  constructor
  · rintro ⟨hescape, heven, hdouble | hsingle⟩
    · exact ⟨hescape, Byte.doubleQuote, rfl, fits_doubleQuote_iff.mpr ⟨heven, hdouble⟩⟩
    · exact ⟨hescape, Byte.singleQuote, rfl, fits_singleQuote_iff.mpr ⟨heven, hsingle⟩⟩
  · rintro ⟨hescape, quote, hquote, hfits⟩
    obtain ⟨rfl | rfl, -, -⟩ := quote_bytes hquote
    · obtain ⟨heven, hdouble⟩ := fits_doubleQuote_iff.mp hfits
      exact ⟨hescape, heven, Or.inl hdouble⟩
    · obtain ⟨heven, hsingle⟩ := fits_singleQuote_iff.mp hfits
      exact ⟨hescape, heven, Or.inr hsingle⟩

end Escape

/-! ### Parts and programs -/

/-- The parts that a source can hold: the words, and the values of strings. -/
def Part.Representable (part : Part) : Prop :=
  if part.quoted then Escape.Representable part.text
  else part.text ≠ [] ∧ (∀ b ∈ part.text, Byte.isWord b = true) ∧
    ∀ b ∈ part.text.head?, Byte.isQuote b = false

theorem Part.representable_iff_writable {part : Part} : part.Representable ↔ part.Writable := by
  cases hquoted : part.quoted with
  | true =>
      rw [Part.writable_quoted hquoted]
      simp only [Part.Representable, hquoted, if_true]
      exact Escape.representable_iff
  | false =>
      rw [Part.writable_bare hquoted]
      simp only [Part.Representable, hquoted, Bool.false_eq_true, if_false]
      exact isBareWord_iff.symm

/-- A part is representable by what it says. -/
theorem Part.representable_detach {part : Part} :
    part.detach.Representable ↔ part.Representable :=
  Iff.rfl

namespace Program

theorem forall_representable_iff (p : Program) :
    (∀ line ∈ p.lines, ∀ part ∈ line.parts, part.Representable) ↔
      ∀ parts ∈ p.contents, ∀ part ∈ parts, part.Representable := by
  simp only [contents, List.forall_mem_map, Part.representable_detach]

/-- Whether the parts are representable is a matter of the contents. -/
theorem SameContents.forall_representable {p q : Program} (h : p.SameContents q)
    (hp : ∀ line ∈ p.lines, ∀ part ∈ line.parts, part.Representable) :
    ∀ line ∈ q.lines, ∀ part ∈ line.parts, part.Representable := by
  have hcontents := (forall_representable_iff p).mp hp
  rw [h] at hcontents
  exact (forall_representable_iff q).mpr hcontents

/-- Whatever a source holds is representable. -/
theorem representable_of_ofSource {settings : ParseSettings} {source : Bytes} {p : Program}
    (h : ofSource settings source = .ok p) :
    ∀ line ∈ p.lines, ∀ part ∈ line.parts, part.Representable := by
  intro line hline part hpart
  have hwritable := (writable_of_ofSource h line hline).2 part hpart
  exact Part.representable_iff_writable.mpr hwritable

end Program

/-- A program of any parts, under a limit that has room for its lines, is read back from its text
with the same names, arguments and quotes exactly when all its parts are representable, and also
exactly when any source at all holds a program with these parts. -/
theorem parse_format_iff_representable {p : Program} {limit : Nat} (hlimit : 0 < limit)
    (hroom : ∀ line ∈ p.lines, line.parts.length ≤ limit) :
    ((∃ q, Program.parse p.format limit = .ok q ∧ q.SameContents p) ↔
      ∀ line ∈ p.lines, ∀ part ∈ line.parts, part.Representable) ∧
    ((∃ q, Program.parse p.format limit = .ok q ∧ q.SameContents p) ↔
      ∃ settings source q, Program.parseWith settings source = .ok q ∧ q.SameContents p) := by
  have hheld {settings : ParseSettings} {source : Bytes} {q : Program}
      (hq : Program.parseWith settings source = .ok q) (hsame : q.SameContents p) :
      ∀ line ∈ p.lines, ∀ part ∈ line.parts, part.Representable := by
    have hsource := Program.parseWith_eq_ok_iff.mp hq
    exact hsame.forall_representable (Program.representable_of_ofSource hsource)
  have hback (hall : ∀ line ∈ p.lines, ∀ part ∈ line.parts, part.Representable) :
      ∃ q, Program.parse p.format limit = .ok q ∧ q.SameContents p := by
    have hwritable : p.Writable { partsPerLine := limit } := by
      intro line hline
      refine ⟨hroom line hline, ?_⟩
      intro part hpart
      exact Part.representable_iff_writable.mp (hall line hline part hpart)
    obtain ⟨q, hq, hsame⟩ := Program.exists_sameContents hlimit hwritable
    exact ⟨q, Program.parseWith_eq_ok_iff.mpr hq, hsame⟩
  refine ⟨⟨?_, hback⟩, ⟨?_, ?_⟩⟩
  · rintro ⟨q, hq, hsame⟩
    exact hheld hq hsame
  · rintro ⟨q, hq, hsame⟩
    exact ⟨_, _, q, hq, hsame⟩
  · rintro ⟨settings, source, q, hq, hsame⟩
    exact hback (hheld hq hsame)

/-- A value that only single quotes can hold comes back. A lone backslash does not: it takes the
closing quote along, and with the next argument the text reads as another program. -/
theorem parse_format_of_backslashes :
    (∃ p id, Program.empty.push .unknown (.owned [0x61] false)
        [.owned [0x5c, 0x22, 0x5c, 0x27] true] = (.ok id, p) ∧
      ∃ q, Program.parse p.format 2 = .ok q ∧ q.SameContents p) ∧
    ∃ p id, Program.empty.push .unknown (.owned [0x61] false)
        [.owned [0x5c] true, .owned [0x78, 0x22] true] = (.ok id, p) ∧
      (∃ q, Program.parse p.format 4 = .ok q ∧ q.contents =
        [[.owned [0x61] false, .owned [0x22, 0x20] true, .owned [0x78, 0x5c] false,
          .owned [] true]]) ∧
      ¬ ∃ q, Program.parse p.format 4 = .ok q ∧ q.SameContents p := by
  have hread : Program.parse (Bytes.ofString "a '\\\\\"\\''") 2 = .ok ⟨[⟨⟨unknownFile, 1⟩,
      ⟨[0x61], false, true⟩, [⟨[0x5c, 0x22, 0x5c, 0x27], true, false⟩], by simp⟩]⟩ := by
    decide +kernel
  refine ⟨⟨_, _, rfl, ?_⟩, ⟨_, _, rfl, ?_, ?_⟩⟩
  · apply (parse_format_iff_representable (by decide) (by decide)).2.mpr
    exact ⟨_, _, _, hread, rfl⟩
  · refine ⟨⟨[⟨⟨unknownFile, 1⟩, ⟨[0x61], false, true⟩, [⟨[0x22, 0x20], true, false⟩,
      ⟨[0x78, 0x5c], false, true⟩, ⟨[], true, true⟩], by simp⟩]⟩, ?_, rfl⟩
    decide +kernel
  · intro hback
    have hall := (parse_format_iff_representable (by decide) (by decide)).1.mp hback
    have hlone := hall _ (List.mem_singleton.mpr rfl) (.owned [0x5c] true) (by decide)
    have heven : Even (Escape.backslashRun [0x5c]) := Escape.Representable.even_end hlone
    exact absurd heven (by decide)

end CommandScript
