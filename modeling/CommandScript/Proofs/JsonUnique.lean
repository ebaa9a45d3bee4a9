import CommandScript.Proofs.JsonLexing

/-!
A text says one thing as JSON. The character that a value begins with tells its kind, a string is
read in one way by the functions that keep and skip it, and a number is as long as its characters go
on, so two derivations of one text agree in every value and in where it ends.
-/

namespace CommandScript.Json

variable {cs rest : List Char} {c : Char}

theorem SpellsString.unique {text text' : Option String} {rest' : List Char}
    (h : SpellsString cs text rest) (h' : SpellsString cs text' rest') :
    text = text' ∧ rest = rest' := by
  have hrest : rest = rest' := Except.ok.inj (h.reads.1.symm.trans h'.reads.1)
  refine ⟨?_, hrest⟩
  cases h with
  | text htext =>
      cases h' with
      | text htext' =>
          have hchars :=
            (keepString_of_spellsText htext).symm.trans (keepString_of_spellsText htext')
          rw [Except.ok.inj hchars]
      | broken _ hnot => exact absurd htext (hnot _ _)
  | broken _ hnot =>
      cases h' with
      | text htext' => exact absurd htext' (hnot _ _)
      | broken => rfl

theorem isNumeric_of_isNumber {literal : List Char} (h : IsNumber literal) :
    ∀ c ∈ literal, isNumeric c = true := by
  have hdigits {ds : List Char} (hds : IsDigits ds) : ∀ c ∈ ds, isNumeric c = true := by
    intro c hc
    simp [isNumeric, hds.2 c hc]
  obtain ⟨sign, whole, fraction, exponent, hsign, hwhole, hfraction, hexponent, rfl⟩ := h
  simp only [List.forall_mem_append]
  refine ⟨?_, hdigits hwhole.1, ?_, ?_⟩
  · rcases List.mem_pair.mp hsign with rfl | rfl <;> simp [isNumeric]
  · obtain rfl | ⟨ds, hds, rfl⟩ := hfraction
    · simp
    · exact List.forall_mem_cons.mpr ⟨rfl, hdigits hds⟩
  · obtain rfl | ⟨letter, sign, ds, hletter, hsign, hds, rfl⟩ := hexponent
    · simp
    · simp only [List.mem_cons, List.not_mem_nil, or_false] at hletter hsign
      refine List.forall_mem_cons.mpr ⟨?_, List.forall_mem_append.mpr ⟨?_, hdigits hds⟩⟩
      · rcases hletter with rfl | rfl <;> rfl
      · rcases hsign with rfl | rfl | rfl <;> simp [isNumeric]

theorem takeWhile_numeric {literal : List Char} (h : IsNumber literal) (hend : EndsNumber rest) :
    (literal ++ rest).takeWhile isNumeric = literal := by
  rw [List.takeWhile_append_of_pos (isNumeric_of_isNumber h)]
  cases rest with
  | nil => simp
  | cons c rest =>
      have hc : isNumeric c = false := hend c rfl
      simp [hc]

theorem SpellsNumber.unique {literal : List Char} {value value' : Option Nat}
    (h : SpellsNumber literal value) (h' : SpellsNumber literal value') : value = value' := by
  cases h with
  | natural n hn =>
      cases h' with
      | natural m hm =>
          have hdigits := congrArg (Nat.ofDigitChars 10 · 0) (hn.symm.trans hm)
          simpa [Nat.ofDigitChars_toDigits] using hdigits
      | other _ hnot => exact absurd hn (hnot n)
  | other _ hnot =>
      cases h' with
      | natural m hm => exact absurd hm (hnot m)
      | other => rfl

/-- The character that a value begins with tells its kind. -/
def Content.begins : Content → Char → Bool
  | .null, c => c == 'n'
  | .bool b, c => c == if b then 't' else 'f'
  | .number _, c => c.isDigit || c == '-'
  | .string _, c => c == '"'
  | .array _, c => c == '['
  | .object _, c => c == '\x7b'

theorem exists_of_isNumber {literal : List Char} (h : IsNumber literal) :
    ∃ c tail, literal = c :: tail ∧ (c.isDigit || c == '-') = true := by
  obtain ⟨sign, whole, fraction, exponent, hsign, ⟨⟨hne, hdigits⟩, -⟩, -, -, rfl⟩ := h
  rcases List.mem_pair.mp hsign with rfl | rfl
  · cases whole with
    | nil => exact absurd rfl hne
    | cons d ds => exact ⟨d, _, rfl, by simp [hdigits d (List.mem_cons_self ..)]⟩
  · exact ⟨'-', _, rfl, rfl⟩

theorem Spells.begins {v : Content} {tail : List Char} (h : Spells cs v rest)
    (hcs : trim cs = c :: tail) : v.begins c = true := by
  have hhead {d : Char} {others : List Char} (hd : trim cs = d :: others) : c = d :=
    (List.cons.inj (hcs.symm.trans hd)).1
  cases h with
  | null hcs' => exact beq_iff_eq.mpr (hhead hcs')
  | isTrue hcs' => exact beq_iff_eq.mpr (hhead hcs')
  | isFalse hcs' => exact beq_iff_eq.mpr (hhead hcs')
  | number hcs' hliteral =>
      obtain ⟨d, others, rfl, hd⟩ := exists_of_isNumber (isNumber_of_spellsNumber hliteral)
      rw [hhead hcs']
      exact hd
  | string hcs' => exact beq_iff_eq.mpr (hhead hcs')
  | array hcs' => exact beq_iff_eq.mpr (hhead hcs')
  | object hcs' => exact beq_iff_eq.mpr (hhead hcs')

/-- No value begins where an array ends. -/
theorem Content.not_begins (v : Content) : v.begins ']' = false := by
  cases v with
  | bool b => cases b <;> rfl
  | _ => rfl

/-- Only numbers begin with a digit or a sign. -/
theorem Content.exists_number {v : Content} (hc : (c.isDigit || c == '-') = true)
    (h : v.begins c = true) : ∃ value, v = .number value := by
  have hother {d : Char} (hd : (d.isDigit || d == '-') = false) : ¬ (c == d) = true := by
    intro heq
    rw [beq_iff_eq.mp heq, hd] at hc
    cases hc
  cases v with
  | number value => exact ⟨value, rfl⟩
  | null => exact absurd h (hother rfl)
  | bool b => cases b <;> exact absurd h (hother rfl)
  | string text => exact absurd h (hother rfl)
  | array items => exact absurd h (hother rfl)
  | object members => exact absurd h (hother rfl)

theorem tail_unique {d : Char} {tail tail' : List Char} (h : trim cs = c :: tail)
    (h' : trim cs = d :: tail') : tail = tail' :=
  (List.cons.inj (h.symm.trans h')).2

theorem absurd_begins {d : Char} {tail tail' : List Char} {P : Prop} (h : trim cs = c :: tail)
    (h' : trim cs = d :: tail') (hne : c ≠ d) : P :=
  absurd (List.cons.inj (h.symm.trans h')).1 hne

mutual

/-- A text says one thing at most. -/
theorem Spells.unique : ∀ {cs rest : List Char} {v : Content}, Spells cs v rest →
    ∀ {w : Content} {rest' : List Char}, Spells cs w rest' → v = w ∧ rest = rest'
  | _, _, _, .null hcs, _, _, h => by
      have hbegins := h.begins hcs
      cases h with
      | null hcs' => exact ⟨rfl, by simpa using tail_unique hcs hcs'⟩
      | _ => simp [Content.begins] at hbegins
  | _, _, _, .isTrue hcs, _, _, h => by
      have hbegins := h.begins hcs
      cases h with
      | isTrue hcs' => exact ⟨rfl, by simpa using tail_unique hcs hcs'⟩
      | _ => simp [Content.begins] at hbegins
  | _, _, _, .isFalse hcs, _, _, h => by
      have hbegins := h.begins hcs
      cases h with
      | isFalse hcs' => exact ⟨rfl, by simpa using tail_unique hcs hcs'⟩
      | _ => simp [Content.begins] at hbegins
  | _, _, _, .number hcs hliteral hend, _, _, h => by
      have hnumber := isNumber_of_spellsNumber hliteral
      obtain ⟨c, tail, rfl, hc⟩ := exists_of_isNumber hnumber
      obtain ⟨value, rfl⟩ := Content.exists_number hc (h.begins hcs)
      cases h with
      | number hcs' hliteral' hend' =>
          have hnumber' := isNumber_of_spellsNumber hliteral'
          have hsame := hcs.symm.trans hcs'
          have htake := congrArg (List.takeWhile isNumeric) hsame
          rw [takeWhile_numeric hnumber hend, takeWhile_numeric hnumber' hend'] at htake
          subst htake
          exact ⟨congrArg Content.number (hliteral.unique hliteral'),
            List.append_cancel_left hsame⟩
  | _, _, _, .string hcs hbody, _, _, h => by
      have hbegins := h.begins hcs
      cases h with
      | string hcs' hbody' =>
          obtain rfl := tail_unique hcs hcs'
          obtain ⟨rfl, rfl⟩ := hbody.unique hbody'
          exact ⟨rfl, rfl⟩
      | _ => simp [Content.begins] at hbegins
  | _, _, _, .array hcs hitems, _, _, h => by
      have hbegins := h.begins hcs
      cases h with
      | array hcs' hitems' =>
          obtain rfl := tail_unique hcs hcs'
          obtain ⟨rfl, rfl⟩ := hitems.unique hitems'
          exact ⟨rfl, rfl⟩
      | _ => simp [Content.begins] at hbegins
  | _, _, _, .object hcs hmembers, _, _, h => by
      have hbegins := h.begins hcs
      cases h with
      | object hcs' hmembers' =>
          obtain rfl := tail_unique hcs hcs'
          obtain ⟨rfl, rfl⟩ := hmembers.unique hmembers'
          exact ⟨rfl, rfl⟩
      | _ => simp [Content.begins] at hbegins

theorem SpellsItems.unique : ∀ {first : Bool} {cs rest : List Char} {items : List Content},
    SpellsItems first cs items rest → ∀ {items' : List Content} {rest' : List Char},
      SpellsItems first cs items' rest' → items = items' ∧ rest = rest'
  | _, _, _, _, .close hcs, _, _, h => by
      cases h with
      | close hcs' => exact ⟨rfl, tail_unique hcs hcs'⟩
      | first hitem =>
          have hbegins := hitem.begins hcs
          rw [Content.not_begins] at hbegins
          cases hbegins
      | next hcs' => exact absurd_begins hcs hcs' (by decide)
  | _, _, _, _, .first hitem hitems, _, _, h => by
      cases h with
      | close hcs' =>
          have hbegins := hitem.begins hcs'
          rw [Content.not_begins] at hbegins
          cases hbegins
      | first hitem' hitems' =>
          obtain ⟨rfl, rfl⟩ := hitem.unique hitem'
          obtain ⟨rfl, rfl⟩ := hitems.unique hitems'
          exact ⟨rfl, rfl⟩
  | _, _, _, _, .next hcs hitems, _, _, h => by
      cases h with
      | close hcs' => exact absurd_begins hcs hcs' (by decide)
      | next hcs' hitems' =>
          obtain rfl := tail_unique hcs hcs'
          exact hitems.unique hitems'

theorem SpellsMembers.unique : ∀ {first : Bool} {cs rest : List Char}
    {members : List (Option String × Content)}, SpellsMembers first cs members rest →
      ∀ {members' : List (Option String × Content)} {rest' : List Char},
        SpellsMembers first cs members' rest' → members = members' ∧ rest = rest'
  | _, _, _, _, .close hcs, _, _, h => by
      cases h with
      | close hcs' => exact ⟨rfl, tail_unique hcs hcs'⟩
      | first hcs' => exact absurd_begins hcs hcs' (by decide)
      | next hcs' => exact absurd_begins hcs hcs' (by decide)
  | _, _, _, _, .first hcs hname hmid hvalue hmembers, _, _, h => by
      cases h with
      | close hcs' => exact absurd_begins hcs hcs' (by decide)
      | first hcs' hname' hmid' hvalue' hmembers' =>
          obtain rfl := tail_unique hcs hcs'
          obtain ⟨rfl, rfl⟩ := hname.unique hname'
          obtain rfl := tail_unique hmid hmid'
          obtain ⟨rfl, rfl⟩ := hvalue.unique hvalue'
          obtain ⟨rfl, rfl⟩ := hmembers.unique hmembers'
          exact ⟨rfl, rfl⟩
  | _, _, _, _, .next hcs hmembers, _, _, h => by
      cases h with
      | close hcs' => exact absurd_begins hcs hcs' (by decide)
      | next hcs' hmembers' =>
          obtain rfl := tail_unique hcs hcs'
          exact hmembers.unique hmembers'

end

/-- What a text is as JSON is settled by the text. -/
theorem Denotes.unique {text : String} {v w : Content} (h : Denotes text v) (h' : Denotes text w) :
    v = w := by
  obtain ⟨rest, hv, -⟩ := h
  obtain ⟨rest', hw, -⟩ := h'
  exact (hv.unique hw).1

end CommandScript.Json
