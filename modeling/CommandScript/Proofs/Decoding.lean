import CommandScript.Proofs.LossyText

/-!
Reading the UTF-8 form of a text back. The scan takes the bytes of a character together, whatever
their number, so of a whole text it gives the characters and no hole: the form of every text is
valid. No other bytes are: where the scan leaves no hole, the bytes it took for a character are the
form of that character.
-/

namespace CommandScript

namespace Utf8

variable {n bits more : Nat} {low high : UInt8}

/-- What a byte between characters begins, by its number. -/
theorem start_ofNat (hn : n < 0x100) :
    start (UInt8.ofNat n) =
      if n < 0x80 then ([some (Char.ofNat n)], .ready)
      else if 0xc2 ≤ n ∧ n ≤ 0xdf then ([], .within (n - 0xc0) 0x80 0xbf 0)
      else if n = 0xe0 then ([], .within 0 0xa0 0xbf 1)
      else if n = 0xed then ([], .within 0xd 0x80 0x9f 1)
      else if 0xe1 ≤ n ∧ n ≤ 0xef then ([], .within (n - 0xe0) 0x80 0xbf 1)
      else if n = 0xf0 then ([], .within 0 0x90 0xbf 2)
      else if 0xf1 ≤ n ∧ n ≤ 0xf3 then ([], .within (n - 0xf0) 0x80 0xbf 2)
      else if n = 0xf4 then ([], .within 4 0x80 0x8f 2)
      else ([none], .ready) := by
  have hnat : (UInt8.ofNat n).toNat = n := UInt8.toNat_ofNat_of_lt' hn
  simp only [start, beq_iff_eq, Bool.and_eq_true, decide_eq_true_eq, UInt8.lt_iff_toNat_lt,
    UInt8.le_iff_toNat_le, ← UInt8.toNat_inj, hnat]
  rfl

theorem ofNat_within (hlow : low.toNat ≤ n) (hhigh : n ≤ high.toNat) :
    (low ≤ UInt8.ofNat n && UInt8.ofNat n ≤ high) = true ∧ (UInt8.ofNat n).toNat = n := by
  have hn : n < 0x100 := Nat.lt_of_le_of_lt hhigh high.toNat_lt
  have hnat : (UInt8.ofNat n).toNat = n := UInt8.toNat_ofNat_of_lt' hn
  refine ⟨?_, hnat⟩
  apply toNat_bounds.mpr
  rw [hnat]
  exact ⟨hlow, hhigh⟩

theorem scanFrom_last (hlow : low.toNat ≤ n) (hhigh : n ≤ high.toNat) (rest : Bytes) :
    scanFrom (.within bits low high 0) (UInt8.ofNat n :: rest) =
      some (Char.ofNat (bits * 64 + n % 64)) :: scan rest := by
  obtain ⟨hwithin, hnat⟩ := ofNat_within hlow hhigh
  simp only [scanFrom_cons, step, if_pos hwithin, hnat]
  rfl

theorem scanFrom_more (hlow : low.toNat ≤ n) (hhigh : n ≤ high.toNat) (rest : Bytes) :
    scanFrom (.within bits low high (more + 1)) (UInt8.ofNat n :: rest) =
      scanFrom (.within (bits * 64 + n % 64) 0x80 0xbf more) rest := by
  obtain ⟨hwithin, hnat⟩ := ofNat_within hlow hhigh
  simp only [scanFrom_cons, step, if_pos hwithin, hnat]
  rfl

/-! ### The bytes of a character -/

/-- The bytes behind the first one carry six bits each. -/
theorem continuation_bounds (n : Nat) :
    (0x80 : UInt8).toNat ≤ n % 64 + 128 ∧ n % 64 + 128 ≤ (0xbf : UInt8).toNat := by
  have hlow : (0x80 : UInt8).toNat = 0x80 := rfl
  have hhigh : (0xbf : UInt8).toNat = 0xbf := rfl
  omega

/-- The first of three bytes. Its bounds on the second one keep overlong forms and surrogates
out. -/
theorem start_of_three {v : Nat} (hlow : 0x800 ≤ v) (hhigh : v < 0x10000)
    (hsurrogate : v < 0xd800 ∨ 0xdfff < v) :
    ∃ low high : UInt8, start (UInt8.ofNat (v / 4096 % 16 + 224)) =
        ([], .within (v / 4096) low high 1) ∧
      low.toNat ≤ v / 64 % 64 + 128 ∧ v / 64 % 64 + 128 ≤ high.toNat := by
  have hlead : v / 4096 % 16 + 224 - 0xe0 = v / 4096 := by omega
  rw [start_ofNat (by omega), if_neg (by omega), if_neg (by omega)]
  split
  · have hbits : v / 4096 = 0 := by omega
    refine ⟨0xa0, 0xbf, by rw [hbits], ?_, (continuation_bounds _).2⟩
    show 0xa0 ≤ _
    omega
  split
  · have hbits : v / 4096 = 0xd := by omega
    refine ⟨0x80, 0x9f, by rw [hbits], (continuation_bounds _).1, ?_⟩
    show _ ≤ 0x9f
    omega
  · rw [if_pos (by omega), hlead]
    exact ⟨0x80, 0xbf, rfl, continuation_bounds _⟩

/-- The first of four bytes. Its bounds on the second one keep overlong forms and numbers above the
last code point out. -/
theorem start_of_four {v : Nat} (hlow : 0x10000 ≤ v) (hhigh : v < 0x110000) :
    ∃ low high : UInt8, start (UInt8.ofNat (v / 262144 % 8 + 240)) =
        ([], .within (v / 262144) low high 2) ∧
      low.toNat ≤ v / 4096 % 64 + 128 ∧ v / 4096 % 64 + 128 ≤ high.toNat := by
  have hlead : v / 262144 % 8 + 240 - 0xf0 = v / 262144 := by omega
  rw [start_ofNat (by omega), if_neg (by omega), if_neg (by omega), if_neg (by omega),
    if_neg (by omega), if_neg (by omega)]
  split
  · have hbits : v / 262144 = 0 := by omega
    refine ⟨0x90, 0xbf, by rw [hbits], ?_, (continuation_bounds _).2⟩
    show 0x90 ≤ _
    omega
  split
  · rw [hlead]
    exact ⟨0x80, 0xbf, rfl, continuation_bounds _⟩
  · have hbits : v / 262144 = 4 := by omega
    rw [if_pos (by omega)]
    refine ⟨0x80, 0x8f, by rw [hbits], (continuation_bounds _).1, ?_⟩
    show _ ≤ 0x8f
    omega

theorem scan_utf8EncodeChar (c : Char) (rest : Bytes) :
    scan (String.utf8EncodeChar c ++ rest) = some c :: scan rest := by
  have hvalid : c.val.toNat < 0xd800 ∨ 0xdfff < c.val.toNat ∧ c.val.toNat < 0x110000 := c.valid
  have hchar {n : Nat} (hn : n = c.val.toNat) : Char.ofNat n = c := by
    rw [hn]
    exact Char.ofNat_toNat c
  generalize hv : c.val.toNat = v at hvalid hchar
  unfold String.utf8EncodeChar scan
  rw [hv]
  dsimp only
  split
  · rename_i hone
    rw [List.singleton_append, scanFrom_cons, step, start_ofNat (by omega), if_pos (by omega),
      hchar rfl]
    rfl
  split
  · rename_i htwo
    rw [List.cons_append, scanFrom_cons, step, start_ofNat (by omega), if_neg (by omega),
      if_pos (by omega), List.nil_append, List.singleton_append,
      scanFrom_last (continuation_bounds v).1 (continuation_bounds v).2, hchar (by omega)]
    rfl
  split
  · rename_i hthree
    obtain ⟨low, high, hstart, hle, hge⟩ :=
      start_of_three (v := v) (by omega) (by omega) (by omega)
    simp only [List.cons_append, List.nil_append]
    rw [scanFrom_cons, step, hstart, List.nil_append, scanFrom_more hle hge,
      scanFrom_last (continuation_bounds v).1 (continuation_bounds v).2, hchar (by omega)]
    rfl
  · rename_i hfour
    obtain ⟨low, high, hstart, hle, hge⟩ := start_of_four (v := v) (by omega) (by omega)
    simp only [List.cons_append, List.nil_append]
    rw [scanFrom_cons, step, hstart, List.nil_append, scanFrom_more hle hge,
      scanFrom_more (continuation_bounds (v / 64)).1 (continuation_bounds (v / 64)).2,
      scanFrom_last (continuation_bounds v).1 (continuation_bounds v).2, hchar (by omega)]
    rfl

/-- The scan of a text in UTF-8 gives its characters. -/
theorem scan_ofString (text : String) : scan (Bytes.ofString text) = text.toList.map some := by
  have hchars (chars : List Char) :
      scan (chars.flatMap String.utf8EncodeChar) = chars.map some := by
    induction chars with
    | nil => rfl
    | cons c chars ih => rw [List.flatMap_cons, scan_utf8EncodeChar, ih, List.map_cons]
  rw [← hchars, ← Bytes.ofString_ofList, String.ofList_toList]

theorem isValid_ofString (text : String) : isValid (Bytes.ofString text) = true := by
  rw [isValid, scan_ofString, List.all_map]
  exact List.all_eq_true.mpr fun c _ => rfl

variable {state : State} {b : UInt8} {bytes : Bytes}

/-! ### What valid bytes say -/

/-- True when the bytes complete what the state has begun and go on well formed. -/
def validFrom (state : State) (bytes : Bytes) : Bool :=
  (scanFrom state bytes).all Option.isSome

theorem validFrom_ready (bytes : Bytes) : validFrom .ready bytes = isValid bytes := rfl

theorem validFrom_cons (state : State) (b : UInt8) (rest : Bytes) :
    validFrom state (b :: rest) =
      ((step state b).1.all Option.isSome && validFrom (step state b).2 rest) := by
  rw [validFrom, scanFrom_cons, List.all_append]
  rfl

/-- All that a byte between characters can begin, with the bounds it sets on the next one. -/
inductive Leads (b : UInt8) : List (Option Char) × State → Prop
  | ascii (hb : b.toNat < 0x80) : Leads b ([some (Char.ofNat b.toNat)], .ready)
  | two {bits : Nat} (hb : b.toNat = bits + 0xc0) (hlow : 2 ≤ bits) (hhigh : bits < 0x20) :
      Leads b ([], .within bits 0x80 0xbf 0)
  | three {bits : Nat} {low high : UInt8} (hb : b.toNat = bits + 0xe0) (hbits : bits < 0x10)
      (hlow : 0x80 ≤ low.toNat) (hhigh : high.toNat ≤ 0xbf)
      (hlong : bits = 0 → 0xa0 ≤ low.toNat) (hsurrogate : bits = 0xd → high.toNat ≤ 0x9f) :
      Leads b ([], .within bits low high 1)
  | four {bits : Nat} {low high : UInt8} (hb : b.toNat = bits + 0xf0) (hbits : bits ≤ 4)
      (hlow : 0x80 ≤ low.toNat) (hhigh : high.toNat ≤ 0xbf)
      (hlong : bits = 0 → 0x90 ≤ low.toNat) (hlast : bits = 4 → high.toNat ≤ 0x8f) :
      Leads b ([], .within bits low high 2)
  | broken : Leads b ([none], .ready)

theorem leads_start (b : UInt8) : Leads b (start b) := by
  unfold start
  split
  · rename_i hb
    exact .ascii (UInt8.lt_iff_toNat_lt.mp hb)
  split
  · rename_i hb
    have hlow : 0xc2 ≤ b.toNat := (toNat_bounds.mp hb).1
    have hhigh : b.toNat ≤ 0xdf := (toNat_bounds.mp hb).2
    exact .two (by omega) (by omega) (by omega)
  split
  · rename_i hb
    obtain rfl : b = 0xe0 := by simpa using hb
    exact .three rfl (by decide) (by decide) (by decide) (by decide) (by decide)
  split
  · rename_i hb
    obtain rfl : b = 0xed := by simpa using hb
    exact .three rfl (by decide) (by decide) (by decide) (by decide) (by decide)
  split
  · rename_i hzero hsurrogate hb
    have hlow : 0xe1 ≤ b.toNat := (toNat_bounds.mp hb).1
    have hhigh : b.toNat ≤ 0xef := (toNat_bounds.mp hb).2
    have hne : b.toNat ≠ 0xed := by
      intro h
      exact hsurrogate (by simpa using UInt8.toNat_inj.mp h)
    exact .three (by omega) (by omega) (by decide) (by decide) (by omega) (by omega)
  split
  · rename_i hb
    obtain rfl : b = 0xf0 := by simpa using hb
    exact .four rfl (by decide) (by decide) (by decide) (by decide) (by decide)
  split
  · rename_i hb
    have hlow : 0xf1 ≤ b.toNat := (toNat_bounds.mp hb).1
    have hhigh : b.toNat ≤ 0xf3 := (toNat_bounds.mp hb).2
    exact .four (by omega) (by omega) (by decide) (by decide) (by omega) (by omega)
  split
  · rename_i hb
    obtain rfl : b = 0xf4 := by simpa using hb
    exact .four rfl (by decide) (by decide) (by decide) (by decide) (by decide)
  · exact .broken

/-- Inside of a valid sequence the next byte keeps the bounds that are set for it. -/
theorem exists_of_validFrom_within {bits more : Nat} {low high : UInt8}
    (h : validFrom (.within bits low high more) bytes = true) :
    ∃ b rest, bytes = b :: rest ∧ low.toNat ≤ b.toNat ∧ b.toNat ≤ high.toNat ∧
      match more with
      | 0 => isValid rest = true
      | more + 1 => validFrom (.within (bits * 64 + b.toNat % 64) 0x80 0xbf more) rest = true := by
  cases bytes with
  | nil => cases h
  | cons b rest =>
      rw [validFrom_cons, step] at h
      by_cases hb : (low ≤ b && b ≤ high) = true
      · obtain ⟨hlow, hhigh⟩ := toNat_bounds.mp hb
        refine ⟨b, rest, rfl, hlow, hhigh, ?_⟩
        rw [if_pos hb] at h
        cases more <;> exact h
      · rw [if_neg hb] at h
        cases h

theorem toNat_ofNat {n : Nat} (hn : n.isValidChar) : (Char.ofNat n).val.toNat = n := by
  rw [Char.ofNat, dif_pos hn]
  rfl

theorem ofNat_eq {n : Nat} (h : n = b.toNat) : UInt8.ofNat n = b := by
  rw [h, UInt8.ofNat_toNat]

/-- A valid text starts with the bytes of a character and goes on valid behind them. -/
theorem exists_char_of_isValid {rest : Bytes} (h : isValid (b :: rest) = true) :
    ∃ c tail, b :: rest = String.utf8EncodeChar c ++ tail ∧ isValid tail = true := by
  rw [← validFrom_ready, validFrom_cons, step] at h
  have hleads := leads_start b
  generalize start b = started at h hleads
  cases hleads with
  | ascii hb =>
      refine ⟨Char.ofNat b.toNat, rest, ?_, h⟩
      rw [String.utf8EncodeChar, toNat_ofNat (Or.inl (by omega)), if_pos (by omega),
        UInt8.ofNat_toNat]
      rfl
  | @two bits hb hlow hhigh =>
      obtain ⟨b₁, rest, rfl, hlow₁, hhigh₁, hrest⟩ := exists_of_validFrom_within h
      have hle₁ : 0x80 ≤ b₁.toNat := hlow₁
      have hge₁ : b₁.toNat ≤ 0xbf := hhigh₁
      refine ⟨Char.ofNat (bits * 64 + b₁.toNat % 64), rest, ?_, hrest⟩
      rw [String.utf8EncodeChar, toNat_ofNat (Or.inl (by omega)), if_neg (by omega),
        if_pos (by omega), ofNat_eq (b := b) (by omega), ofNat_eq (b := b₁) (by omega)]
      rfl
  | @three bits low high hb hbits hlow hhigh hlong hsurrogate =>
      obtain ⟨b₁, rest, rfl, hlow₁, hhigh₁, hrest⟩ := exists_of_validFrom_within h
      obtain ⟨b₂, rest, rfl, hlow₂, hhigh₂, hrest⟩ := exists_of_validFrom_within hrest
      have hle₂ : 0x80 ≤ b₂.toNat := hlow₂
      have hge₂ : b₂.toNat ≤ 0xbf := hhigh₂
      refine ⟨Char.ofNat ((bits * 64 + b₁.toNat % 64) * 64 + b₂.toNat % 64), rest, ?_, hrest⟩
      rw [String.utf8EncodeChar, toNat_ofNat, if_neg (by omega), if_neg (by omega),
        if_pos (by omega), ofNat_eq (b := b) (by omega), ofNat_eq (b := b₁) (by omega),
        ofNat_eq (b := b₂) (by omega)]
      · rfl
      · show _ < 0xd800 ∨ 0xdfff < _ ∧ _ < 0x110000
        omega
  | @four bits low high hb hbits hlow hhigh hlong hlast =>
      obtain ⟨b₁, rest, rfl, hlow₁, hhigh₁, hrest⟩ := exists_of_validFrom_within h
      obtain ⟨b₂, rest, rfl, hlow₂, hhigh₂, hrest⟩ := exists_of_validFrom_within hrest
      obtain ⟨b₃, rest, rfl, hlow₃, hhigh₃, hrest⟩ := exists_of_validFrom_within hrest
      have hle₂ : 0x80 ≤ b₂.toNat := hlow₂
      have hge₂ : b₂.toNat ≤ 0xbf := hhigh₂
      have hle₃ : 0x80 ≤ b₃.toNat := hlow₃
      have hge₃ : b₃.toNat ≤ 0xbf := hhigh₃
      refine ⟨Char.ofNat (((bits * 64 + b₁.toNat % 64) * 64 + b₂.toNat % 64) * 64 +
        b₃.toNat % 64), rest, ?_, hrest⟩
      rw [String.utf8EncodeChar, toNat_ofNat, if_neg (by omega), if_neg (by omega),
        if_neg (by omega), ofNat_eq (b := b) (by omega), ofNat_eq (b := b₁) (by omega),
        ofNat_eq (b := b₂) (by omega), ofNat_eq (b := b₃) (by omega)]
      · rfl
      · show _ < 0xd800 ∨ 0xdfff < _ ∧ _ < 0x110000
        omega
  | broken => cases h

/-- A valid text is the UTF-8 form of characters. -/
theorem exists_chars_of_isValid (h : isValid bytes = true) :
    ∃ chars : List Char, bytes = chars.flatMap String.utf8EncodeChar := by
  induction hlength : bytes.length using Nat.strong_induction_on generalizing bytes with
  | _ n ih =>
      cases bytes with
      | nil => exact ⟨[], rfl⟩
      | cons b rest =>
          obtain ⟨c, tail, hsplit, htail⟩ := exists_char_of_isValid h
          have hshorter : tail.length < n := by
            have hcut := congrArg List.length hsplit
            rw [List.length_append, String.length_utf8EncodeChar] at hcut
            have hpos := c.utf8Size_pos
            omega
          obtain ⟨chars, rfl⟩ := ih _ hshorter htail rfl
          exact ⟨c :: chars, hsplit⟩

/-- Strict reading finds the one text that the bytes are the form of. -/
theorem decode?_eq_some_iff {text : String} :
    decode? bytes = some text ↔ bytes = Bytes.ofString text := by
  have hread (text : String) : decode? (Bytes.ofString text) = some text := by
    rw [decode?, if_pos (isValid_ofString text), scan_ofString]
    simp
  constructor
  · intro h
    by_cases hvalid : isValid bytes = true
    · obtain ⟨chars, rfl⟩ := exists_chars_of_isValid hvalid
      rw [← Bytes.ofString_ofList] at h ⊢
      rw [← Option.some.inj ((hread _).symm.trans h)]
    · rw [decode?, if_neg hvalid] at h
      cases h
  · rintro rfl
    exact hread text

theorem isValid_iff_exists : isValid bytes = true ↔ ∃ text, bytes = Bytes.ofString text := by
  constructor
  · intro h
    obtain ⟨chars, rfl⟩ := exists_chars_of_isValid h
    exact ⟨String.ofList chars, (Bytes.ofString_ofList chars).symm⟩
  · rintro ⟨text, rfl⟩
    exact isValid_ofString text

@[simp] theorem lossy_ofString (text : String) : lossy (Bytes.ofString text) = text := by
  rw [lossy, scan_ofString, List.map_map]
  simp [Function.comp_def]

/-- Lossy reading loses nothing of a valid text. -/
theorem lossy_of_isValid (h : isValid bytes = true) : bytes.lossy = bytes := by
  obtain ⟨text, rfl⟩ := isValid_iff_exists.mp h
  rw [Bytes.lossy, lossy_ofString]

end Utf8

end CommandScript
