import CommandScript.Proofs.Escape
import CommandScript.Source.Token

/-!
Strings between their quotes. A string ends at the first quote that no backslash takes along, and
backslashes are paired from the left. Reading the contents does not pair them, and writing copies
them. `Fits` brings the three together: it follows the parity of a run of backslashes in the value
and says which values a kind of quote can hold. Whatever was read fits the quote it was read from,
and then it also fits the quote that is chosen to write it.
-/

namespace CommandScript

/-- The contents of a string in these quotes, as they stand in the source. A backslash takes the
next byte along, whatever it is. -/
inductive StringBody (quote : UInt8) : Bytes → Prop
  | nil : StringBody quote []
  | byte {b : UInt8} {rest : Bytes} (hline : b ≠ Byte.lineFeed) (hquote : b ≠ quote)
      (hbackslash : b ≠ Byte.backslash) (hrest : StringBody quote rest) :
      StringBody quote (b :: rest)
  | pair (b : UInt8) {rest : Bytes} (hrest : StringBody quote rest) :
      StringBody quote (Byte.backslash :: b :: rest)

namespace StringBody

theorem of_byte {quote b : UInt8} {rest : Bytes} (hb : b ≠ Byte.backslash)
    (h : StringBody quote (b :: rest)) :
    b ≠ Byte.lineFeed ∧ b ≠ quote ∧ StringBody quote rest := by
  cases h with
  | byte hline hquote _ hrest => exact ⟨hline, hquote, hrest⟩
  | pair => exact absurd rfl hb

theorem of_pair {quote b : UInt8} {rest : Bytes}
    (h : StringBody quote (Byte.backslash :: b :: rest)) : StringBody quote rest := by
  cases h with
  | byte _ _ hbackslash _ => exact absurd rfl hbackslash
  | pair _ hrest => exact hrest

end StringBody

theorem not_stringBody_backslash (quote : UInt8) : ¬ StringBody quote [Byte.backslash] := by
  intro h
  cases h with
  | byte _ _ hbackslash _ => exact hbackslash rfl

/-- The quotes are neither line feeds nor backslashes. -/
theorem quote_bytes {quote : UInt8} (h : Byte.isQuote quote = true) :
    (quote = Byte.doubleQuote ∨ quote = Byte.singleQuote) ∧
      quote ≠ Byte.lineFeed ∧ quote ≠ Byte.backslash := by
  have hcases : quote = Byte.doubleQuote ∨ quote = Byte.singleQuote := by
    simpa [Byte.isQuote] using h
  refine ⟨hcases, ?_⟩
  rcases hcases with rfl | rfl <;> decide

/-- The scan stops at the quote behind the contents. -/
theorem scanString_body {quote : UInt8} {body : Bytes} (hquote : Byte.isQuote quote = true)
    (h : StringBody quote body) (behind : Bytes) :
    scanString quote (body ++ quote :: behind) = ⟨body, some behind⟩ := by
  obtain ⟨-, hline, hbackslash⟩ := quote_bytes hquote
  induction h with
  | nil =>
      unfold scanString
      simp [hline]
  | byte hline hquote hbackslash _ ih =>
      rw [List.cons_append]
      unfold scanString
      simp [hline, hquote, hbackslash, ih, StringScan.cons]
  | pair b _ ih =>
      have hne : Byte.backslash ≠ Byte.lineFeed := by decide
      rw [List.cons_append, List.cons_append]
      unfold scanString
      simp [hne, hbackslash.symm, ih, StringScan.cons]

/-- What a scan finds in front of a quote are contents. -/
theorem stringBody_of_scanString {quote : UInt8} {bytes body behind : Bytes}
    (h : scanString quote bytes = ⟨body, some behind⟩) :
    bytes = body ++ quote :: behind ∧ StringBody quote body := by
  fun_induction scanString quote bytes generalizing body with
  | case1 => simp at h
  | case2 => simp at h
  | case3 b rest _ hb =>
      obtain ⟨rfl, rfl⟩ : [] = body ∧ rest = behind := by simpa using h
      obtain rfl : b = quote := by simpa using hb
      exact ⟨rfl, .nil⟩
  | case4 => simp at h
  | case5 b hline hquote hb escaped rest ih =>
      simp only [StringScan.cons, StringScan.mk.injEq] at h
      obtain ⟨rfl, hrest⟩ := h
      obtain ⟨hbytes, hbody⟩ := ih (congrArg (StringScan.mk _) hrest)
      obtain rfl : b = Byte.backslash := by simpa using hb
      exact ⟨congrArg (Byte.backslash :: escaped :: ·) hbytes, hbody.pair escaped⟩
  | case6 b rest hline hquote hb ih =>
      simp only [StringScan.cons, StringScan.mk.injEq] at h
      obtain ⟨rfl, hrest⟩ := h
      obtain ⟨hbytes, hbody⟩ := ih (congrArg (StringScan.mk _) hrest)
      exact ⟨congrArg (b :: ·) hbytes,
        .byte (by simpa using hline) (by simpa using hquote) (by simpa using hb) hbody⟩

namespace Escape

/-- The backslash that still waits for its byte behind an odd number of them. -/
def pending (odd : Bool) : Bytes :=
  if odd then [Byte.backslash] else []

/-- The values that can stand in these quotes behind an odd or even number of backslashes. Writing
puts a backslash in front of a double quote, which then needs an even number of its own. A single
quote is copied, so it needs an odd number. The end needs an even number, for the closing quote. -/
def Fits (quote : UInt8) : (odd : Bool) → Bytes → Prop
  | odd, [] => odd = false
  | odd, b :: rest =>
    if b = Byte.backslash then Fits quote (!odd) rest
    else (b = quote → odd = (b == Byte.singleQuote)) ∧ Fits quote false rest

theorem fits_backslash {quote : UInt8} {odd : Bool} {rest : Bytes} :
    Fits quote odd (Byte.backslash :: rest) ↔ Fits quote (!odd) rest := by
  simp [Fits]

theorem fits_cons {quote b : UInt8} {odd : Bool} {rest : Bytes} (hb : b ≠ Byte.backslash) :
    Fits quote odd (b :: rest) ↔
      (b = quote → odd = (b == Byte.singleQuote)) ∧ Fits quote false rest := by
  simp [Fits, hb]

/-- The written form of a value that fits is the contents of a string. -/
theorem Fits.stringBody {quote : UInt8} {odd : Bool} {value : Bytes}
    (hquote : Byte.isQuote quote = true) (h : Fits quote odd value) :
    StringBody quote (pending odd ++ escape value) := by
  obtain ⟨hcases, -, -⟩ := quote_bytes hquote
  induction value generalizing odd with
  | nil =>
      obtain rfl : odd = false := h
      exact .nil
  | cons b rest ih =>
      by_cases hb : b = Byte.backslash
      · subst hb
        have hrest := ih (fits_backslash.mp h)
        rw [escape_cons, escapeByte_of_none letter?_backslash]
        cases odd with
        | false => exact hrest
        | true => exact hrest.pair Byte.backslash
      obtain ⟨hodd, hfits⟩ := (fits_cons hb).mp h
      have hrest : StringBody quote (escape rest) := ih hfits
      rw [escape_cons]
      cases hletter : letter? b with
      | some letter =>
          have hmeaning := letter?_eq_some_iff.mp hletter
          obtain ⟨hbackslash, hsingle, hline, -, -, hdouble⟩ := table_bytes hmeaning
          rw [escapeByte_of_some hletter]
          cases odd with
          | false => exact hrest.pair letter
          | true =>
              -- The two backslashes pair up, so the letter stands alone.
              refine (StringBody.byte hline ?_ hbackslash hrest).pair Byte.backslash
              rintro rfl
              rcases hcases with rfl | rfl
              · exact absurd (hodd (hdouble.mp rfl)) (by rw [hdouble.mp rfl]; decide)
              · exact hsingle rfl
      | none =>
          rw [escapeByte_of_none hletter]
          cases odd with
          | true => exact hrest.pair b
          | false =>
              refine StringBody.byte ?_ ?_ hb hrest
              · rintro rfl
                simp at hletter
              · intro heq
                rcases hcases with rfl | rfl
                · subst heq
                  simp at hletter
                · exact absurd (hodd heq) (by rw [heq]; decide)

/-- What is read from a string fits its quotes. Behind an odd number of backslashes the next byte is
no letter of the table, for the last backslash would have been read with it. -/
theorem fits_unescape {quote : UInt8} {odd : Bool} {raw : Bytes}
    (hquote : Byte.isQuote quote = true) (hbody : StringBody quote (pending odd ++ raw))
    (hnext : odd = true → ∀ b ∈ raw.head?, meaning? b = none) :
    Fits quote odd (unescape raw) := by
  obtain ⟨hcases, -, -⟩ := quote_bytes hquote
  -- A byte that is read for itself, with what is left of the contents behind it.
  have hplain {odd : Bool} {b : UInt8} {rest : Bytes} (hb : b ≠ Byte.backslash)
      (hbody : StringBody quote (pending odd ++ b :: rest))
      (hnext : odd = true → meaning? b = none) :
      (b = quote → odd = (b == Byte.singleQuote)) ∧ StringBody quote rest := by
    cases odd with
    | false =>
        obtain ⟨-, hne, hrest⟩ := StringBody.of_byte hb hbody
        exact ⟨fun heq => absurd heq hne, hrest⟩
    | true =>
        refine ⟨?_, StringBody.of_pair hbody⟩
        intro heq
        rcases hcases with rfl | rfl
        · subst heq
          simp at hnext
        · rw [heq]
          rfl
  fun_induction unescape raw generalizing odd with
  | case1 =>
      cases odd with
      | false => rfl
      | true => exact absurd hbody (not_stringBody_backslash quote)
  | case2 b =>
      by_cases hb : b = Byte.backslash
      · subst hb
        cases odd with
        | false => exact absurd hbody (not_stringBody_backslash quote)
        | true => exact fits_backslash.mpr rfl
      · exact (fits_cons hb).mpr
          ⟨(hplain hb hbody fun hodd => hnext hodd b rfl).1, rfl⟩
  | case3 b letter rest hb byte hmeaning ih =>
      obtain rfl : b = Byte.backslash := by simpa using hb
      obtain ⟨hbackslash, -, -, hbyte, hsingle, hdouble⟩ := table_bytes hmeaning
      rw [fits_cons hbyte]
      cases odd with
      | false =>
          refine ⟨?_, @ih false (StringBody.of_pair hbody) (by simp)⟩
          intro _
          simp [hsingle]
      | true =>
          -- The backslash of the letter is taken along, so the letter cannot be the quote.
          obtain ⟨-, hne, hrest⟩ := StringBody.of_byte hbackslash (StringBody.of_pair hbody)
          refine ⟨?_, @ih false hrest (by simp)⟩
          intro heq
          rcases hcases with rfl | rfl
          · exact absurd (hdouble.mpr heq) hne
          · exact absurd heq hsingle
  | case4 b letter rest hb hmeaning ih =>
      obtain rfl : b = Byte.backslash := by simpa using hb
      rw [fits_backslash]
      cases odd with
      | false => exact @ih true hbody (by simpa using hmeaning)
      | true => exact @ih false (StringBody.of_pair hbody) (by simp)
  | case5 b letter rest hb ih =>
      have hb : b ≠ Byte.backslash := by simpa using hb
      obtain ⟨hodd, hrest⟩ := hplain hb hbody fun hodd => hnext hodd b rfl
      exact (fits_cons hb).mpr ⟨hodd, @ih false hrest (by simp)⟩

/-! ### The choice of quotes -/

/-- A guarded double quote is one that double quotes cannot hold. -/
theorem not_fits_doubleQuote {odd : Bool} {value : Bytes}
    (h : hasGuardedQuote odd value = true) : ¬ Fits Byte.doubleQuote odd value := by
  intro hfits
  induction value generalizing odd with
  | nil => simp [hasGuardedQuote] at h
  | cons b rest ih =>
      by_cases hb : b = Byte.backslash
      · subst hb
        exact ih (by simpa [hasGuardedQuote] using h) (fits_backslash.mp hfits)
      obtain ⟨hodd, hrest⟩ := (fits_cons hb).mp hfits
      by_cases hguarded : b = Byte.doubleQuote ∧ odd = true
      · have hsingle := hodd hguarded.1
        rw [hguarded.1, hguarded.2] at hsingle
        exact absurd hsingle (by decide)
      · have hguarded : ¬ (b == Byte.doubleQuote && odd) = true := by simpa using hguarded
        exact ih (by simpa [hasGuardedQuote, hb, hguarded] using h) hrest

/-- Without a guarded double quote, double quotes hold whatever single quotes hold. -/
theorem Fits.doubleQuote {odd : Bool} {value : Bytes} (h : hasGuardedQuote odd value = false)
    (hfits : Fits Byte.singleQuote odd value) : Fits Byte.doubleQuote odd value := by
  induction value generalizing odd with
  | nil => exact hfits
  | cons b rest ih =>
      by_cases hb : b = Byte.backslash
      · subst hb
        exact fits_backslash.mpr
          (ih (by simpa [hasGuardedQuote] using h) (fits_backslash.mp hfits))
      obtain ⟨-, hrest⟩ := (fits_cons hb).mp hfits
      obtain ⟨heven, hguarded⟩ : (b = Byte.doubleQuote → odd = false) ∧
          hasGuardedQuote false rest = false := by
        simpa [hasGuardedQuote, hb] using h
      refine (fits_cons hb).mpr ⟨?_, ih hguarded hrest⟩
      intro heq
      rw [heven heq, heq]
      rfl

/-- The quotes chosen for a value hold it if any quotes do. -/
theorem Fits.quoteFor {quote : UInt8} {value : Bytes} (hquote : Byte.isQuote quote = true)
    (h : Fits quote false value) : Fits (quoteFor value) false value := by
  cases hguarded : hasGuardedQuote false value with
  | true =>
      obtain ⟨rfl | rfl, -, -⟩ := quote_bytes hquote
      · exact absurd h (not_fits_doubleQuote hguarded)
      · simpa [Escape.quoteFor, hguarded] using h
  | false =>
      have hdouble : Fits Byte.doubleQuote false value := by
        obtain ⟨rfl | rfl, -, -⟩ := quote_bytes hquote
        · exact h
        · exact h.doubleQuote hguarded
      simpa [Escape.quoteFor, hguarded] using hdouble

theorem isQuote_quoteFor (value : Bytes) : Byte.isQuote (quoteFor value) = true := by
  unfold quoteFor
  split <;> rfl

end Escape

end CommandScript
