import CommandScript.Proofs.JsonGrammar
import Mathlib.Data.Bool.AllAny

/-!
The lexemes of a text of the grammar. However a string or a number is spelled, it is one lexeme: it
can always be skipped, and what it says is kept if it is a text or a natural of 64 bits. Marks,
words and spaces are what they are anywhere.
-/

namespace CommandScript.Json

variable {cs rest next : List Char} {c : Char} {n : Nat}

/-! ### Kept strings -/

theorem hexValue?_of_isHexDigit (h : IsHexDigit c n) : hexValue? c = some n := by
  have hdigits : ∀ n < 16, hexValue? n.digitChar = some n ∧
      hexValue? n.digitChar.toUpper = some n := by
    decide
  obtain ⟨hn, rfl | rfl⟩ := h
  · exact (hdigits n hn).1
  · exact (hdigits n hn).2

theorem hexEscape_of_spellsUnit (h : SpellsUnit cs n rest) :
    hexEscape cs = .ok n ∧ cs.drop 4 = rest := by
  obtain ⟨a, b, c, d, w, x, y, z, rfl, ha, hb, hc, hd, rfl⟩ := h
  simp [hexEscape, hexValue?_of_isHexDigit ha, hexValue?_of_isHexDigit hb,
    hexValue?_of_isHexDigit hc, hexValue?_of_isHexDigit hd]

theorem escaped?_of_mem {letter : Char} (h : (letter, c) ∈ letters) :
    escaped? letter = some c ∧ letter ≠ 'u' := by
  have hletters : ∀ pair ∈ letters, escaped? pair.1 = some pair.2 ∧ pair.1 ≠ 'u' :=
    List.all_iff_forall_prop.mp (by decide)
  exact hletters _ h

@[simp] theorem keepString_close (rest : List Char) : keepString ('"' :: rest) = .ok [] := by
  rw [keepString]

theorem keepString_plain (hc : IsPlain c) (rest : List Char) :
    keepString (c :: rest) = (keepString rest).map (c :: ·) := by
  obtain ⟨hlow, hquote, hbackslash⟩ := hc
  rw [keepString, if_neg (Char.not_lt.mpr hlow)]
  all_goals simp [hquote, hbackslash]

theorem keepString_letter {letter : Char} (h : (letter, c) ∈ letters) (rest : List Char) :
    keepString ('\\' :: letter :: rest) = (keepString rest).map (c :: ·) := by
  obtain ⟨hescaped, hunit⟩ := escaped?_of_mem h
  rw [keepString, hescaped]
  exact hunit

theorem keepString_unit {digits : List Char} (h : SpellsUnit digits c.toNat rest) :
    keepString ('\\' :: 'u' :: digits) = (keepString rest).map (c :: ·) := by
  obtain ⟨hhex, hdrop⟩ := hexEscape_of_spellsUnit h
  have hvalid : c.toNat < 0xd800 ∨ 0xdfff < c.toNat ∧ c.toNat < 0x110000 := c.valid
  have hlow : isLowSurrogate c.toNat = false := by
    simp [isLowSurrogate]
    omega
  have hhigh : isHighSurrogate c.toNat = false := by
    simp [isHighSurrogate]
    omega
  rw [keepString, hhex]
  simp [hlow, hhigh, hdrop, Char.ofNat_toNat]

theorem keepString_pair {digits more : List Char} {high low : Nat}
    (hdigits : SpellsUnit digits high ('\\' :: 'u' :: more)) (hmore : SpellsUnit more low rest)
    (hhigh : 0xd800 ≤ high ∧ high < 0xdc00) (hlow : 0xdc00 ≤ low ∧ low < 0xe000)
    (hc : c.toNat = 0x10000 + (high - 0xd800) * 0x400 + (low - 0xdc00)) :
    keepString ('\\' :: 'u' :: digits) = (keepString rest).map (c :: ·) := by
  obtain ⟨hhex, hdrop⟩ := hexEscape_of_spellsUnit hdigits
  obtain ⟨hhex', hdrop'⟩ := hexEscape_of_spellsUnit hmore
  have hbehind : digits.drop 6 = more := by
    rw [← List.drop_drop (i := 2) (j := 4), hdrop]
    rfl
  have hrest : digits.drop 10 = rest := by
    rw [← List.drop_drop (i := 4) (j := 6), hbehind, hdrop']
  have hlow' : isLowSurrogate high = false := by
    simp [isLowSurrogate]
    omega
  have hhigh' : isHighSurrogate high = true := by
    simp [isHighSurrogate]
    omega
  have hpartner : isLowSurrogate low = true := by
    simp [isLowSurrogate]
    omega
  have hchar : ofSurrogates high low = c := by
    rw [ofSurrogates, ← hc, Char.ofNat_toNat]
  rw [keepString, hhex]
  simp [hlow', hhigh', hdrop, hbehind, hhex', hpartner, hrest, hchar]

theorem keepString_of_spellsChar {cs next : List Char} (h : SpellsChar cs c next) :
    keepString cs = (keepString next).map (c :: ·) := by
  cases h with
  | plain hcs hc => exact hcs ▸ keepString_plain hc next
  | letter hcs hletter => exact hcs ▸ keepString_letter hletter next
  | unit hcs hdigits => exact hcs ▸ keepString_unit hdigits
  | pair hcs hdigits hmore hhigh hlow hc => exact hcs ▸ keepString_pair hdigits hmore hhigh hlow hc

theorem keepString_of_spellsText {chars : List Char} (h : SpellsText cs chars rest) :
    keepString cs = .ok chars := by
  induction h with
  | close hcs => exact hcs ▸ keepString_close _
  | cons hc _ ih =>
      rw [keepString_of_spellsChar hc, ih]
      rfl

/-! ### Skipped strings -/

/-- A character of a text may stand in any string. -/
theorem SpellsUnits.cons (hc : SpellsChar cs c next) (hnext : SpellsUnits next rest) :
    SpellsUnits cs rest := by
  cases hc with
  | plain hcs hc => exact .plain hcs hc hnext
  | letter hcs hletter => exact .letter hcs hletter hnext
  | unit hcs hdigits => exact .unit hcs hdigits hnext
  | pair hcs hdigits hmore => exact .unit hcs hdigits (.unit rfl hmore hnext)

theorem SpellsText.spellsUnits {chars : List Char} (h : SpellsText cs chars rest) :
    SpellsUnits cs rest := by
  induction h with
  | close hcs => exact .close hcs
  | cons hc _ ih => exact ih.cons hc

theorem skipString_of_spellsUnits (h : SpellsUnits cs rest) : skipString cs = .ok rest := by
  induction h with
  | close hcs => rw [hcs, skipString]
  | plain hcs hc _ ih =>
      obtain ⟨hlow, hquote, hbackslash⟩ := hc
      rw [hcs, skipString, if_neg (Char.not_lt.mpr hlow), ih]
      all_goals simp [hquote, hbackslash]
  | letter hcs hletter _ ih =>
      obtain ⟨hescaped, hunit⟩ := escaped?_of_mem hletter
      rw [hcs, skipString, hescaped, ih]
      · rfl
      · exact hunit
  | unit hcs hdigits _ ih =>
      obtain ⟨hhex, hdrop⟩ := hexEscape_of_spellsUnit hdigits
      rw [hcs, skipString, hhex, hdrop]
      exact ih

/-- A string can be skipped over, and kept if it is a text. -/
theorem SpellsString.reads {text : Option String} (h : SpellsString cs text rest) :
    skipString cs = .ok rest ∧
      ∀ s, text = some s → (keepString cs).map String.ofList = .ok s := by
  cases h with
  | text htext =>
      refine ⟨skipString_of_spellsUnits htext.spellsUnits, ?_⟩
      rintro s ⟨⟩
      rw [keepString_of_spellsText htext]
      rfl
  | broken hunits hnot => exact ⟨skipString_of_spellsUnits hunits, fun s h => by cases h⟩

/-! ### Numbers -/

theorem digit_ne {c d : Char} (hc : c.isDigit = true) (hd : d.isDigit = false) : c ≠ d := by
  rintro rfl
  rw [hc] at hd
  cases hd

theorem le_ofDigitChars (ds : List Char) (value : Nat) : value ≤ Nat.ofDigitChars 10 ds value := by
  induction ds generalizing value with
  | nil => exact Nat.le_refl _
  | cons c ds ih =>
      rw [Nat.ofDigitChars_cons]
      exact Nat.le_trans (by omega) (ih _)

/-- Digits that stay within 64 bits are all read. -/
theorem accumulate_eq {ds : List Char} {value : Nat}
    (h : Nat.ofDigitChars 10 ds value ≤ largestWord) :
    accumulate value ds = (Nat.ofDigitChars 10 ds value, ds.length, 0) := by
  induction ds generalizing value with
  | nil => rfl
  | cons c ds ih =>
      rw [Nat.ofDigitChars_cons] at h ⊢
      have hnext := Nat.le_trans (le_ofDigitChars ds _) h
      rw [Nat.mul_comm 10 value] at h hnext ⊢
      rw [accumulate]
      dsimp only
      rw [if_pos hnext, ih h]
      rfl

/-- No digit goes on here. -/
def EndsDigits (cs : List Char) : Prop :=
  ∀ c ∈ cs.head?, c.isDigit = false

theorem takeWhile_digits {ds : List Char} (hds : IsDigits ds) (hrest : EndsDigits rest) :
    (ds ++ rest).takeWhile Char.isDigit = ds ∧ (ds ++ rest).dropWhile Char.isDigit = rest := by
  rw [List.takeWhile_append_of_pos hds.2, List.dropWhile_append_of_pos hds.2]
  cases rest with
  | nil => simp
  | cons c rest =>
      have hc : c.isDigit = false := hrest c rfl
      simp [hc]

theorem EndsNumber.endsDigits (h : EndsNumber rest) : EndsDigits rest := by
  intro c hc
  have hnot := h c hc
  simp only [isNumeric, Bool.or_eq_false_iff] at hnot
  exact hnot.1.1.1.1.1

/-- A scan that can be skipped, with this text behind it. -/
def NumberScan.Skips (scan : NumberScan) (rest : List Char) : Prop :=
  scan.skipped = .ok () ∧ scan.rest = rest

theorem skips_exponentDigits (significand : Nat) (scale : Int) (negative : Bool) {ds : List Char}
    (hds : IsDigits ds) (hrest : EndsNumber rest) :
    (exponentDigits significand scale negative (ds ++ rest)).Skips rest := by
  obtain ⟨-, hdrop⟩ := takeWhile_digits hds hrest.endsDigits
  obtain ⟨hne, hdigits⟩ := hds
  cases ds with
  | nil => exact absurd rfl hne
  | cons d ds =>
      have hd : d.isDigit = true := hdigits d (List.mem_cons_self ..)
      rw [List.cons_append] at hdrop ⊢
      unfold exponentDigits
      dsimp only
      rw [if_pos hd]
      exact ⟨rfl, hdrop⟩

/-- An exponent or none, with what stands in front of it worth `plain`. -/
theorem skips_scaledPart (significand : Nat) (scale : Int) (plain : Except ReadError (Option Nat))
    {exponent : List Char} (hexponent : IsExponent exponent) (hrest : EndsNumber rest) :
    (scaledPart significand scale plain (exponent ++ rest)).Skips rest ∧
      (exponent = [] → (scaledPart significand scale plain (exponent ++ rest)).kept = plain) := by
  obtain rfl | ⟨letter, sign, ds, hletter, hsign, hds, rfl⟩ := hexponent
  · have hplain : scaledPart significand scale plain rest = ⟨plain, .ok (), rest⟩ := by
      unfold scaledPart
      split
      · exact absurd (hrest _ rfl) (by decide)
      · exact absurd (hrest _ rfl) (by decide)
      · rfl
    rw [List.nil_append, hplain]
    exact ⟨⟨rfl, rfl⟩, fun _ => rfl⟩
  · refine ⟨?_, fun h => by cases h⟩
    have hscaled : scaledPart significand scale plain (letter :: (sign ++ ds) ++ rest) =
        exponentPart significand scale (sign ++ (ds ++ rest)) := by
      rw [List.cons_append, List.append_assoc]
      rcases List.mem_pair.mp hletter with rfl | rfl <;> rfl
    rw [hscaled]
    have hexp := fun negative => skips_exponentDigits significand scale negative hds hrest
    simp only [List.mem_cons, List.not_mem_nil, or_false] at hsign
    obtain rfl | rfl | rfl := hsign
    · -- Without a sign the digits come at once, and a digit is no sign.
      obtain ⟨hne, hdigits⟩ := hds
      cases ds with
      | nil => exact absurd rfl hne
      | cons d ds =>
          have hd : d.isDigit = true := hdigits d (List.mem_cons_self ..)
          rw [List.nil_append, List.cons_append, exponentPart]
          · exact hexp false
          · exact fun _ h => digit_ne hd (by decide) (List.cons.inj h).1
          · exact fun _ h => digit_ne hd (by decide) (List.cons.inj h).1
    · exact hexp false
    · exact hexp true

theorem endsDigits_exponent {exponent : List Char} (hexponent : IsExponent exponent)
    (hrest : EndsNumber rest) : EndsDigits (exponent ++ rest) := by
  obtain rfl | ⟨letter, sign, ds, hletter, -, -, rfl⟩ := hexponent
  · exact hrest.endsDigits
  · rcases List.mem_pair.mp hletter with rfl | rfl <;> simp [EndsDigits]

theorem skips_fractionPart (significand : Nat) (scale : Int)
    (whole : Except ReadError (Option Nat)) {fraction exponent : List Char}
    (hfraction : IsFraction fraction) (hexponent : IsExponent exponent)
    (hrest : EndsNumber rest) :
    (fractionPart significand scale whole (fraction ++ (exponent ++ rest))).Skips rest ∧
      (fraction = [] → exponent = [] →
        (fractionPart significand scale whole (fraction ++ (exponent ++ rest))).kept = whole) := by
  obtain rfl | ⟨ds, hds, rfl⟩ := hfraction
  · have hplain : fractionPart significand scale whole (exponent ++ rest) =
        scaledPart significand scale whole (exponent ++ rest) := by
      unfold fractionPart
      split
      · rename_i hpoint
        obtain rfl | ⟨letter, sign, ds, hletter, -, -, rfl⟩ := hexponent
        · rw [List.nil_append] at hpoint
          subst hpoint
          exact absurd (hrest _ rfl) (by decide)
        · rw [List.cons_append] at hpoint
          obtain ⟨rfl, -⟩ := List.cons.inj hpoint
          simp at hletter
      · rfl
    rw [List.nil_append, hplain]
    obtain ⟨hskips, hkept⟩ := skips_scaledPart significand scale whole hexponent hrest
    exact ⟨hskips, fun _ => hkept⟩
  · refine ⟨?_, fun h => by cases h⟩
    obtain ⟨htake, hdrop⟩ := takeWhile_digits hds (endsDigits_exponent hexponent hrest)
    rw [List.cons_append, fractionPart, fractionDigits]
    dsimp only
    rw [htake, hdrop, if_neg (by simpa using hds.1)]
    exact (skips_scaledPart _ _ _ hexponent hrest).1

theorem endsDigits_fraction {fraction exponent : List Char} (hfraction : IsFraction fraction)
    (hexponent : IsExponent exponent) (hrest : EndsNumber rest) :
    EndsDigits (fraction ++ (exponent ++ rest)) := by
  obtain rfl | ⟨ds, -, rfl⟩ := hfraction
  · rw [List.nil_append]
    exact endsDigits_exponent hexponent hrest
  · simp [EndsDigits]

/-- Every number can be skipped. A natural of 64 bits is kept. -/
theorem skips_unsignedNumber (negative : Bool) {whole fraction exponent : List Char}
    (hwhole : IsWhole whole) (hfraction : IsFraction fraction) (hexponent : IsExponent exponent)
    (hrest : EndsNumber rest) :
    (unsignedNumber negative (whole ++ (fraction ++ (exponent ++ rest)))).Skips rest ∧
      (negative = false → fraction = [] → exponent = [] →
        Nat.ofDigitChars 10 whole 0 ≤ largestWord →
        (unsignedNumber negative (whole ++ (fraction ++ (exponent ++ rest)))).kept =
          .ok (some (Nat.ofDigitChars 10 whole 0))) := by
  obtain ⟨hdigits, hzero⟩ := hwhole
  have hends := endsDigits_fraction hfraction hexponent hrest
  obtain ⟨htake, hdrop⟩ := takeWhile_digits hdigits hends
  cases whole with
  | nil => exact absurd rfl hdigits.1
  | cons d ds =>
  have hd : d.isDigit = true := hdigits.2 d (List.mem_cons_self ..)
  -- A zero in front is the whole part, and no digit goes on behind that.
  have hlead : (d == '0' &&
      (ds ++ (fraction ++ (exponent ++ rest))).head?.any Char.isDigit) = false := by
    by_contra hboth
    obtain ⟨hfirst, hany⟩ := (Bool.and_eq_true ..).mp (Bool.not_eq_false _ ▸ hboth)
    rw [beq_iff_eq] at hfirst
    obtain ⟨-, rfl⟩ := List.cons.inj (hzero (congrArg some hfirst))
    rw [List.nil_append] at hany
    cases hhead : (fraction ++ (exponent ++ rest)).head? with
    | none => simp [hhead] at hany
    | some c => simp [hhead, hends c hhead] at hany
  rw [List.cons_append] at htake hdrop ⊢
  obtain ⟨significand, read, left, haccumulate⟩ : ∃ significand read left,
      accumulate 0 (d :: ds) = (significand, read, left) := ⟨_, _, _, rfl⟩
  have hscan : unsignedNumber negative (d :: (ds ++ (fraction ++ (exponent ++ rest)))) =
      fractionPart significand left
        (if left == 0 then .ok (if negative then none else some significand)
          else realNumber significand left) (fraction ++ (exponent ++ rest)) := by
    rw [unsignedNumber, htake, hdrop, haccumulate]
    dsimp only
    rw [if_neg (by simp [hd]), if_neg (Bool.eq_false_iff.mp hlead)]
  rw [hscan]
  obtain ⟨hskips, hkept⟩ := skips_fractionPart significand left
    (if left == 0 then .ok (if negative then none else some significand)
      else realNumber significand left) hfraction hexponent hrest
  refine ⟨hskips, ?_⟩
  intro hnegative hnoFraction hnoExponent hfits
  -- All digits fit, so they are the value and none is left over.
  rw [accumulate_eq hfits] at haccumulate
  cases haccumulate
  rw [hkept hnoFraction hnoExponent, hnegative]
  rfl

theorem isWhole_toDigits (n : Nat) : IsWhole (Nat.toDigits 10 n) := by
  refine ⟨⟨Nat.toDigits_ne_nil,
    fun c hc => Nat.isDigit_of_mem_toDigits (b := 10) (by decide) (by decide) hc⟩, ?_⟩
  intro hzero
  induction n using Nat.strongRecOn with
  | ind n ih =>
      rw [Nat.toDigits_eq_if (by decide)] at hzero ⊢
      split at hzero
      · rename_i hn
        rw [if_pos hn]
        exact congrArg (fun c => [c]) (Option.some.inj hzero)
      · rename_i hn
        -- The digits in front of the last one start with the same zero, so they are that zero.
        rw [List.head?_append_of_ne_nil _ Nat.toDigits_ne_nil] at hzero
        have hvalue := congrArg (Nat.ofDigitChars 10 · 0) (ih (n / 10) (by omega) hzero)
        rw [Nat.ofDigitChars_toDigits (by decide) (by decide)] at hvalue
        have hnone : Nat.ofDigitChars 10 ['0'] 0 = 0 := rfl
        omega

theorem isNumber_of_spellsNumber {literal : List Char} {value : Option Nat}
    (h : SpellsNumber literal value) : IsNumber literal := by
  cases h with
  | natural n hliteral =>
      refine ⟨[], literal, [], [], by simp, ?_, Or.inl rfl, Or.inl rfl, by simp⟩
      rw [hliteral]
      exact isWhole_toDigits n
  | other hliteral => exact hliteral

/-! ### Lexemes -/

theorem lexemes_trim (cs : List Char) : lexemes (trim cs) = lexemes cs := by
  induction cs with
  | nil => rfl
  | cons c cs ih =>
      cases hc : isSpace c with
      | true =>
          rw [trim_space hc, ih, lexemes, if_pos hc]
      | false => rw [trim_cons hc]

/-- A mark is a lexeme of its own. -/
theorem lexemes_mark (mark : Char) (lexeme : Lexeme)
    (hmark : (mark, lexeme) ∈ [('[', Lexeme.openArray), (']', .closeArray), ('\x7b', .openObject),
      ('\x7d', .closeObject), (':', .colon), (',', .comma)])
    (hcs : trim cs = mark :: rest) : lexemes cs = lexeme :: lexemes rest := by
  rw [← lexemes_trim, hcs]
  simp only [List.mem_cons, Prod.mk.injEq, List.not_mem_nil, or_false] at hmark
  obtain ⟨rfl, rfl⟩ | ⟨rfl, rfl⟩ | ⟨rfl, rfl⟩ | ⟨rfl, rfl⟩ | ⟨rfl, rfl⟩ | ⟨rfl, rfl⟩ := hmark <;>
    rw [lexemes] <;> rfl

theorem lexemes_word (word : List Char) (lexeme : Lexeme)
    (hword : (word, lexeme) ∈ [(['n', 'u', 'l', 'l'], Lexeme.null),
      (['t', 'r', 'u', 'e'], .bool true), (['f', 'a', 'l', 's', 'e'], .bool false)])
    (hcs : trim cs = word ++ rest) : lexemes cs = lexeme :: lexemes rest := by
  rw [← lexemes_trim, hcs]
  simp only [List.mem_cons, Prod.mk.injEq, List.not_mem_nil, or_false] at hword
  obtain ⟨rfl, rfl⟩ | ⟨rfl, rfl⟩ | ⟨rfl, rfl⟩ := hword <;> rw [List.cons_append, lexemes] <;> rfl

theorem lexemes_string {body : List Char} {text : Option String} (hcs : trim cs = '"' :: body)
    (hbody : SpellsString body text rest) :
    ∃ kept, lexemes cs = .text kept (.ok ()) :: lexemes rest ∧
      ∀ s, text = some s → kept = .ok s := by
  obtain ⟨hskip, hkeep⟩ := hbody.reads
  refine ⟨_, ?_, hkeep⟩
  rw [← lexemes_trim, hcs, lexemes]
  simp only [isSpace, Char.reduceBEq, Bool.or_self, Bool.false_eq_true, ↓reduceIte, BEq.rfl]
  split <;> simp_all

theorem lexemes_digit {d : Char} {ds : List Char} (hd : d.isDigit = true)
    (hscan : (unsignedNumber false (d :: ds)).Skips rest) :
    lexemes (d :: ds) =
      .number (unsignedNumber false (d :: ds)).kept (.ok ()) :: lexemes rest := by
  obtain ⟨hskipped, hrest⟩ := hscan
  have hne {mark : Char} (hmark : mark.isDigit = false) : ¬ (d == mark) = true := by
    simpa using digit_ne hd hmark
  rw [lexemes, if_neg (by simp [isSpace_of_isDigit hd]), if_neg (hne rfl), if_neg (hne rfl),
    if_neg (hne rfl), if_neg (hne rfl), if_neg (hne rfl), if_neg (hne rfl), if_neg (hne rfl),
    if_neg (hne rfl), dif_pos hd]
  dsimp only
  split
  · rw [hrest]
  · rename_i e herror
    rw [hskipped] at herror
    cases herror

theorem lexemes_minus {ds : List Char} (hscan : (unsignedNumber true ds).Skips rest) :
    lexemes ('-' :: ds) = .number (unsignedNumber true ds).kept (.ok ()) :: lexemes rest := by
  obtain ⟨hskipped, hrest⟩ := hscan
  rw [lexemes]
  simp only [isSpace, Char.reduceBEq, Bool.or_self, Bool.false_eq_true, ↓reduceIte, BEq.rfl]
  rw [hskipped, hrest]

theorem lexemes_number {literal : List Char} {value : Option Nat} (hcs : trim cs = literal ++ rest)
    (hliteral : SpellsNumber literal value) (hend : EndsNumber rest) :
    ∃ kept, lexemes cs = .number kept (.ok ()) :: lexemes rest ∧
      ∀ n, value = some n → n ≤ largestWord → kept = .ok (some n) := by
  rw [← lexemes_trim, hcs]
  cases hliteral with
  | natural n hdigits =>
      obtain ⟨d, ds, hcons, hd⟩ := exists_toDigits n
      obtain ⟨hskips, hkept⟩ := skips_unsignedNumber false (isWhole_toDigits n) (Or.inl rfl)
        (Or.inl rfl) hend
      rw [Nat.ofDigitChars_toDigits (by decide) (by decide)] at hkept
      rw [hcons] at hskips hkept
      rw [hdigits, hcons]
      refine ⟨_, lexemes_digit hd hskips, ?_⟩
      rintro m ⟨⟩
      exact hkept rfl rfl rfl
  | other hnumber _ =>
      obtain ⟨sign, whole, fraction, exponent, hsign, hwhole, hfraction, hexponent, rfl⟩ := hnumber
      have hskips := fun negative =>
        (skips_unsignedNumber negative hwhole hfraction hexponent hend).1
      simp only [List.append_assoc]
      rcases List.mem_pair.mp hsign with rfl | rfl
      · obtain ⟨hne, hdigits⟩ := hwhole.1
        cases whole with
        | nil => exact absurd rfl hne
        | cons d ds =>
            exact ⟨_, lexemes_digit (hdigits d (List.mem_cons_self ..)) (hskips false),
              fun n h => by cases h⟩
      · exact ⟨_, lexemes_minus (hskips true), fun n h => by cases h⟩

end CommandScript.Json
