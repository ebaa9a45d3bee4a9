import CommandScript.Proofs.Lexing
import CommandScript.Proofs.LogicalLine
import Mathlib.Data.Nat.Find

/-!
When and how a source is refused. `TokenFault` and `EndFault` say from the tokens alone what can be
wrong at a token and behind the last one. A source is refused exactly when one of these happens, and
the report is about the first.
-/

namespace CommandScript

open LogicalLine

/-- What can be wrong at a token, given the tokens before it. -/
inductive TokenFault (limit : Nat) (before : List Token) (t : Token) : Fault → Prop
  | unknownDirective (ht : t.IsUnknown) :
      TokenFault limit before t (.unknownDirective t.text t.line)
  | tooManyParts {line : List Token} {first : Token} (ht : t.isPart = true)
      (hopen : IsOpen before line) (hfull : (partTokens line).length = limit)
      (hfirst : (partTokens line).head? = some first) :
      TokenFault limit before t (.tooManyParts limit first.line)
  | emptyName {line : List Token} {first : Token} (hends : endsLine before t = true)
      (hopen : IsOpen before line) (hfirst : (partTokens line).head? = some first)
      (hname : first.text = []) :
      TokenFault limit before t (.emptyName first.line)

/-- What can be wrong behind the last token: an error of lexing, told by its byte in the source, a
block without its end, or an empty name on the last line. -/
inductive EndFault (source : Bytes) : Fault → Prop
  | unclosedString {error : LexError} {before after : Bytes} {quote : UInt8}
      (herror : (Lexing.ofSource source).error = some error) (hkind : error.kind = .unclosedString)
      (hsource : source = before ++ quote :: after) (hquote : Byte.isQuote quote = true)
      (hoffset : error.offset = before.length) :
      EndFault source (.unclosedString (lineNumber (before.count Byte.lineFeed + 1)))
  | unexpectedByte {error : LexError} {before after : Bytes} {byte : UInt8}
      (herror : (Lexing.ofSource source).error = some error)
      (hkind : error.kind = .unexpectedByte byte) (hsource : source = before ++ byte :: after)
      (hoffset : error.offset = before.length) :
      EndFault source (.unexpectedByte byte (lineNumber (before.count Byte.lineFeed + 1)))
  | unclosedBlock {opener : Token} (herror : (Lexing.ofSource source).error = none)
      (hopened : OpenedBy (Lexing.ofSource source).tokens opener) :
      EndFault source (.unclosedBlock opener.line)
  | emptyName {line : List Token} {first : Token} (herror : (Lexing.ofSource source).error = none)
      (hclosed : inBlock (Lexing.ofSource source).tokens = false)
      (hopen : IsOpen (Lexing.ofSource source).tokens line)
      (hfirst : (partTokens line).head? = some first) (hname : first.text = []) :
      EndFault source (.emptyName first.line)

/-- A fault of a source, with the number of tokens read before it shows. -/
inductive FaultAt (limit : Nat) (source : Bytes) : Nat → Fault → Prop
  | token {before after : List Token} {t : Token} {fault : Fault}
      (htokens : (Lexing.ofSource source).tokens = before ++ t :: after)
      (hfault : TokenFault limit before t fault) : FaultAt limit source before.length fault
  | finish {fault : Fault} (hfault : EndFault source fault) :
      FaultAt limit source (Lexing.ofSource source).tokens.length fault

/-- The fault that is reported: the first one, unless no part is allowed at all. -/
def ReportedFault (limit : Nat) (source : Bytes) (fault : Fault) : Prop :=
  if limit = 0 then fault = .noParts
  else ∃ n, FaultAt limit source n fault ∧ ∀ m other, FaultAt limit source m other → n ≤ m

namespace Grouping

variable {settings : ParseSettings} {g : Grouping} {t : Token} {before tokens : List Token}
  {fault : Fault}

/-! ### Faults at a token -/

theorem Tracks.endLine_eq_error_iff {limit : Nat} {file : String} (h : Tracks limit before g)
    (mode : Mode) :
    { g with mode := mode }.endLine file = .error fault ↔
      ∃ line first, IsOpen before line ∧ (partTokens line).head? = some first ∧
        first.text = [] ∧ fault = .emptyName first.line := by
  constructor
  · intro herror
    cases hparts : g.parts with
    | nil =>
        rw [endLine_nil (by exact hparts)] at herror
        cases herror
    | cons name args =>
        obtain ⟨line, first, hopen, hfirst, rfl, hstart⟩ := h.exists_first hparts
        by_cases hname : first.part.text = []
        · rw [endLine_unnamed (by exact hparts) hname] at herror
          cases herror
          exact ⟨line, first, hopen, hfirst, hname, by rw [← hstart]⟩
        · rw [endLine_named (by exact hparts) hname] at herror
          cases herror
  · rintro ⟨line, first, hopen, hfirst, hname, rfl⟩
    obtain ⟨line', hopen', hparts, hstart⟩ := h.line
    obtain rfl := hopen.unique hopen'
    cases hline : partTokens line with
    | nil => simp [hline] at hfirst
    | cons other others =>
        obtain rfl : other = first := by simpa [hline] using hfirst
        rw [hline, List.map_cons] at hparts
        rw [endLine_unnamed (by exact hparts) hname, hstart other (by simp [hline])]

/-- A state fails at a token exactly where the tokens show a fault. -/
theorem Tracks.addToken_eq_error_iff (hlimit : 0 < settings.partsPerLine)
    (h : Tracks settings.partsPerLine before g) :
    g.addToken settings t = .error fault ↔ TokenFault settings.partsPerLine before t fault := by
  constructor
  · intro herror
    rcases t.role_cases with hpart | hbegin | hend | hnewline | hunknown
    · rw [addToken_of_isPart hpart] at herror
      split at herror
      · cases herror
      · rename_i hfull
        have hlength : g.parts.length = settings.partsPerLine :=
          Nat.le_antisymm h.length_le (Nat.le_of_not_lt hfull)
        cases hparts : g.parts with
        | nil =>
            rw [hparts, List.length_nil] at hlength
            omega
        | cons name args =>
            obtain ⟨line, hopen, hline, hstart⟩ := h.line
            rw [begunBy_of_ne (by simp [hparts])] at herror
            cases hfirst : (partTokens line).head? with
            | none =>
                rw [List.head?_eq_none_iff.mp hfirst, hparts] at hline
                cases hline
            | some first =>
                rw [hstart first hfirst] at herror
                cases herror
                exact .tooManyParts hpart hopen (by rw [← hlength, hline, List.length_map]) hfirst
    · rw [addToken_of_isBegin hbegin] at herror
      cases herror
    · rw [addToken_of_endedBy (Or.inl hend), h.endLine_eq_error_iff] at herror
      obtain ⟨line, first, hopen, hfirst, hname, rfl⟩ := herror
      exact .emptyName (h.endedBy_iff.mp (Or.inl hend)) hopen hfirst hname
    · cases hmode : g.mode with
      | single =>
          rw [addToken_of_endedBy (Or.inr ⟨hnewline, hmode⟩), h.endLine_eq_error_iff] at herror
          obtain ⟨line, first, hopen, hfirst, hname, rfl⟩ := herror
          exact .emptyName (h.endedBy_iff.mp (Or.inr ⟨hnewline, hmode⟩)) hopen hfirst hname
      | block openedAt =>
          rw [addToken_of_newline_block hnewline hmode] at herror
          cases herror
    · rw [addToken_of_unknown hunknown] at herror
      cases herror
      exact .unknownDirective hunknown
  · intro hfault
    cases hfault with
    | unknownDirective ht => exact addToken_of_unknown ht
    | @tooManyParts line first ht hopen hfull hfirst =>
        obtain ⟨line', hopen', hparts, hstart⟩ := h.line
        obtain rfl := hopen.unique hopen'
        have hlength : g.parts.length = settings.partsPerLine := by
          rw [hparts, List.length_map, hfull]
        have hne : g.parts ≠ [] := by
          intro hnil
          rw [hnil, List.length_nil] at hlength
          omega
        rw [addToken_of_isPart ht, if_neg (by omega), begunBy_of_ne hne, hstart first hfirst]
    | @emptyName line first hends hopen hfirst hname =>
        rw [addToken_of_endedBy (h.endedBy_iff.mpr hends), h.endLine_eq_error_iff]
        exact ⟨line, first, hopen, hfirst, hname, rfl⟩

/-! ### The first fault of many tokens -/

theorem addTokens_append (tokens others : List Token) :
    g.addTokens settings (tokens ++ others) =
      match g.addTokens settings tokens with
      | .ok g => g.addTokens settings others
      | .error fault => .error fault := by
  induction tokens generalizing g with
  | nil => rfl
  | cons t tokens ih =>
      rw [List.cons_append, addTokens, addTokens]
      cases g.addToken settings t with
      | ok g => exact ih
      | error fault => rfl

theorem addTokens_singleton : g.addTokens settings [t] = g.addToken settings t := by
  rw [addTokens]
  cases g.addToken settings t <;> rfl

/-- No token shows a fault. -/
def Faultless (limit : Nat) (tokens : List Token) : Prop :=
  ∀ before t after fault, tokens = before ++ t :: after → ¬ TokenFault limit before t fault

theorem faultless_concat {limit : Nat} :
    Faultless limit (tokens ++ [t]) ↔
      Faultless limit tokens ∧ ∀ fault, ¬ TokenFault limit tokens t fault := by
  constructor
  · intro h
    refine ⟨?_, fun fault => h tokens t [] fault rfl⟩
    rintro before other after fault rfl
    exact h before other (after ++ [t]) fault (by simp)
  · rintro ⟨htokens, ht⟩ before other after fault heq
    rcases List.eq_nil_or_concat after with rfl | ⟨after, last, rfl⟩
    · obtain ⟨rfl, hother⟩ := List.append_inj' heq rfl
      obtain rfl : t = other := List.singleton_inj.mp hother
      exact ht fault
    · refine htokens before other after fault ?_
      rw [List.concat_eq_append, ← List.cons_append, ← List.append_assoc] at heq
      exact (List.append_inj' heq rfl).1

/-- Grouping takes in all tokens exactly when none shows a fault. -/
theorem exists_addTokens_iff (hlimit : 0 < settings.partsPerLine) :
    (∃ g, start.addTokens settings tokens = .ok g) ↔ Faultless settings.partsPerLine tokens := by
  induction tokens using List.reverseRecOn with
  | nil =>
      refine ⟨fun _ => ?_, fun _ => ⟨start, rfl⟩⟩
      intro before t after fault heq
      simp at heq
  | append_singleton tokens t ih =>
      rw [faultless_concat, ← ih, addTokens_append]
      cases hadd : start.addTokens settings tokens with
      | error fault => simp
      | ok g =>
          have htracks := (tracks_start settings.partsPerLine).addTokens hadd
          rw [List.nil_append] at htracks
          simp only [addTokens_singleton, Except.ok.injEq, exists_eq', true_and,
            ← htracks.addToken_eq_error_iff hlimit]
          cases g.addToken settings t <;> simp

/-- Grouping fails with the fault of the first token that shows one. -/
theorem addTokens_eq_error_iff (hlimit : 0 < settings.partsPerLine) :
    start.addTokens settings tokens = .error fault ↔
      ∃ before t after, tokens = before ++ t :: after ∧
        Faultless settings.partsPerLine before ∧
        TokenFault settings.partsPerLine before t fault := by
  constructor
  · intro herror
    induction tokens using List.reverseRecOn with
    | nil => cases herror
    | append_singleton tokens t ih =>
        rw [addTokens_append] at herror
        cases hadd : start.addTokens settings tokens with
        | error other =>
            rw [hadd] at herror
            cases herror
            obtain ⟨before, other, after, rfl, hbefore, hfault⟩ := ih hadd
            exact ⟨before, other, after ++ [t], by simp, hbefore, hfault⟩
        | ok g =>
            have htracks := (tracks_start settings.partsPerLine).addTokens hadd
            simp only [hadd, addTokens_singleton] at herror
            exact ⟨tokens, t, [], rfl, (exists_addTokens_iff hlimit).mp ⟨g, hadd⟩,
              (htracks.addToken_eq_error_iff hlimit).mp herror⟩
  · rintro ⟨before, t, after, rfl, hbefore, hfault⟩
    obtain ⟨g, hadd⟩ := (exists_addTokens_iff hlimit).mpr hbefore
    have htracks := (tracks_start settings.partsPerLine).addTokens hadd
    simp only [addTokens_append, hadd]
    rw [Grouping.addTokens, (htracks.addToken_eq_error_iff hlimit).mpr hfault]

/-! ### Faults at the end -/

theorem Tracks.finish_eq_error_iff (h : Tracks settings.partsPerLine tokens g) :
    g.finish settings = .error fault ↔
      (∃ opener, OpenedBy tokens opener ∧ fault = .unclosedBlock opener.line) ∨
      (inBlock tokens = false ∧ ∃ line first, IsOpen tokens line ∧
        (partTokens line).head? = some first ∧ first.text = [] ∧
        fault = .emptyName first.line) := by
  unfold finish
  rcases h.mode with ⟨hmode, hclosed⟩ | ⟨opener, hmode, hopened⟩
  · have hnone : ¬ ∃ opener, OpenedBy tokens opener ∧ fault = .unclosedBlock opener.line := by
      rintro ⟨opener, hopened, -⟩
      rw [hopened.inBlock] at hclosed
      cases hclosed
    have hend : (g.endLine settings.fileName).map Grouping.program = .error fault ↔
        g.endLine settings.fileName = .error fault := by
      cases g.endLine settings.fileName <;> simp [Except.map]
    simp only [hmode, hend, hnone, hclosed, true_and, false_or]
    exact h.endLine_eq_error_iff g.mode
  · simp only [hmode, hopened.inBlock, Except.error.injEq, Bool.true_eq_false, false_and, or_false]
    constructor
    · rintro rfl
      exact ⟨opener, hopened, rfl⟩
    · rintro ⟨other, hother, rfl⟩
      rw [hopened.unique hother]

end Grouping

/-! ### The first fault of a source -/

variable {settings : ParseSettings} {source : Bytes} {fault : Fault} {limit : Nat}

/-- An error of lexing is the fault at its byte. -/
theorem endFault_of_lexError {error : LexError}
    (herror : (Lexing.ofSource source).error = some error) :
    EndFault source fault ↔ fault = .ofLexError error := by
  obtain ⟨before, b, after, hsource, hblames, hoffset, hline⟩ := Lexing.exists_of_error herror
  -- The offset of the error leaves no choice of the bytes before it.
  have hunique {other : LexError} {before' after' : Bytes} {b' : UInt8}
      (hother : (Lexing.ofSource source).error = some other)
      (hsource' : source = before' ++ b' :: after') (hoffset' : other.offset = before'.length) :
      other = error ∧ before' = before := by
    obtain rfl : error = other := Option.some.inj (herror.symm.trans hother)
    exact ⟨rfl, (List.append_inj (hsource'.symm.trans hsource) (hoffset'.symm.trans hoffset)).1⟩
  constructor
  · intro hfault
    cases hfault with
    | unclosedString hother hkind hsource' _ hoffset' =>
        obtain ⟨rfl, rfl⟩ := hunique hother hsource' hoffset'
        simp [Fault.ofLexError, hkind, hline]
    | unexpectedByte hother hkind hsource' hoffset' =>
        obtain ⟨rfl, rfl⟩ := hunique hother hsource' hoffset'
        simp [Fault.ofLexError, hkind, hline]
    | unclosedBlock hnone => simp [herror] at hnone
    | emptyName hnone => simp [herror] at hnone
  · rintro rfl
    cases hkind : error.kind with
    | unclosedString =>
        rw [hkind] at hblames
        simpa [Fault.ofLexError, hkind, hline] using
          EndFault.unclosedString herror hkind hsource hblames hoffset
    | unexpectedByte byte =>
        obtain rfl : byte = b := by simpa [hkind, LexErrorKind.Blames] using hblames
        simpa [Fault.ofLexError, hkind, hline] using
          EndFault.unexpectedByte herror hkind hsource hoffset

theorem endFault_iff_of_lexed (hnone : (Lexing.ofSource source).error = none) :
    EndFault source fault ↔
      (∃ opener, OpenedBy (Lexing.ofSource source).tokens opener ∧
        fault = .unclosedBlock opener.line) ∨
      (inBlock (Lexing.ofSource source).tokens = false ∧ ∃ line first,
        IsOpen (Lexing.ofSource source).tokens line ∧ (partTokens line).head? = some first ∧
        first.text = [] ∧ fault = .emptyName first.line) := by
  constructor
  · intro hfault
    cases hfault with
    | unclosedString herror => simp [hnone] at herror
    | unexpectedByte herror => simp [hnone] at herror
    | unclosedBlock _ hopened => exact Or.inl ⟨_, hopened, rfl⟩
    | emptyName _ hclosed hopen hfirst hname =>
        exact Or.inr ⟨hclosed, _, _, hopen, hfirst, hname, rfl⟩
  · rintro (⟨opener, hopened, rfl⟩ | ⟨hclosed, line, first, hopen, hfirst, hname, rfl⟩)
    · exact .unclosedBlock hnone hopened
    · exact .emptyName hnone hclosed hopen hfirst hname

/-- The fault of a source in terms of its tokens: that of the first token with one, and that of the
end where no token has any. -/
theorem ofSource_eq_error_iff_first (hlimit : 0 < settings.partsPerLine) :
    Program.ofSource settings source = .error fault ↔
      (∃ before t after, (Lexing.ofSource source).tokens = before ++ t :: after ∧
        Grouping.Faultless settings.partsPerLine before ∧
        TokenFault settings.partsPerLine before t fault) ∨
      (Grouping.Faultless settings.partsPerLine (Lexing.ofSource source).tokens ∧
        EndFault source fault) := by
  rw [← Grouping.addTokens_eq_error_iff hlimit, ← Grouping.exists_addTokens_iff hlimit]
  unfold Program.ofSource
  rw [if_neg (by omega)]
  dsimp only
  cases hadd : Grouping.start.addTokens settings (Lexing.ofSource source).tokens with
  | error other => simp
  | ok g =>
      have htracks := (Grouping.tracks_start settings.partsPerLine).addTokens hadd
      rw [List.nil_append] at htracks
      cases herror : (Lexing.ofSource source).error with
      | some error => simp [endFault_of_lexError herror, eq_comm]
      | none => simp [endFault_iff_of_lexed herror, htracks.finish_eq_error_iff]

theorem ofSource_eq_error_iff :
    Program.ofSource settings source = .error fault ↔
      ReportedFault settings.partsPerLine source fault := by
  unfold ReportedFault
  split
  · rename_i hzero
    simp [Program.ofSource, hzero, eq_comm]
  rename_i hlimit
  rw [ofSource_eq_error_iff_first (Nat.pos_of_ne_zero hlimit)]
  constructor
  · rintro (⟨before, t, after, htokens, hbefore, hfault⟩ | ⟨htokens, hfault⟩)
    · refine ⟨before.length, .token htokens hfault, ?_⟩
      intro m other hother
      by_contra hlt
      cases hother with
      | @token before' after' t' _ htokens' hfault' =>
          rcases List.append_eq_append_iff.mp (htokens'.symm.trans htokens) with
            ⟨mid, rfl, hmid⟩ | ⟨mid, rfl, -⟩
          · cases mid with
            | nil => simp at hlt
            | cons first mid =>
                obtain ⟨rfl, -⟩ := List.cons.inj hmid
                exact hbefore before' t' mid other rfl hfault'
          · simp at hlt
      | finish => simp [htokens] at hlt
    · refine ⟨_, .finish hfault, ?_⟩
      intro m other hother
      cases hother with
      | @token before' after' t' _ htokens' hfault' =>
          exact absurd hfault' (htokens before' t' after' other htokens')
      | finish => exact Nat.le_refl _
  · rintro ⟨n, hfault, hfirst⟩
    -- Nothing is wrong at the tokens that come before the first fault.
    have hclean (before rest : List Token)
        (htokens : (Lexing.ofSource source).tokens = before ++ rest) (hle : before.length ≤ n) :
        Grouping.Faultless settings.partsPerLine before := by
      rintro before' t' after' other rfl hother
      rw [List.append_assoc, List.cons_append] at htokens
      have hle' := hfirst _ other (.token htokens hother)
      simp at hle
      omega
    cases hfault with
    | token htokens hfault =>
        exact Or.inl ⟨_, _, _, htokens, hclean _ _ htokens (Nat.le_refl _), hfault⟩
    | finish hfault => exact Or.inr ⟨hclean _ [] (by simp) (Nat.le_refl _), hfault⟩

/-- Something is wrong with a source exactly when there is a first thing that is. -/
theorem exists_reportedFault_iff :
    (∃ fault, ReportedFault limit source fault) ↔
      limit = 0 ∨ ∃ n fault, FaultAt limit source n fault := by
  unfold ReportedFault
  by_cases hlimit : limit = 0
  · simp [hlimit]
  simp only [hlimit, if_false, false_or]
  constructor
  · rintro ⟨fault, n, hfault, -⟩
    exact ⟨n, fault, hfault⟩
  · intro hex
    classical
    obtain ⟨fault, hfault⟩ := Nat.find_spec hex
    exact ⟨fault, Nat.find hex, hfault, fun m other hother => Nat.find_min' hex ⟨other, hother⟩⟩

/-- What a report says of a fault, whatever room it has for the message. -/
theorem Fault.report_fields (fault : Fault) (settings : ParseSettings) :
    (fault.diagnostic settings).code = fault.code ∧
      (fault.diagnostic settings).severity = .error ∧
      (fault.diagnostic settings).pos = ⟨settings.fileName, fault.line⟩ := by
  refine ⟨rfl, ?_, rfl⟩
  cases fault <;> rfl

/-- A source is refused exactly when something is wrong with it, and then the report is about the
first thing that is: with its code, as an error, and at its line. A limit of no parts comes before
all others and has no line. -/
theorem parseWith_eq_error_iff (settings : ParseSettings) (source : Bytes) :
    ((∃ d, Program.parseWith settings source = .error d) ↔
      settings.partsPerLine = 0 ∨ ∃ n fault, FaultAt settings.partsPerLine source n fault) ∧
    ∀ d, Program.parseWith settings source = .error d ↔
      ∃ fault, ReportedFault settings.partsPerLine source fault ∧
        d = fault.diagnostic settings ∧ d.code = fault.code ∧ d.severity = .error ∧
        d.pos = ⟨settings.fileName, fault.line⟩ := by
  have hreport (d : Diagnostic) : Program.parseWith settings source = .error d ↔
      ∃ fault, ReportedFault settings.partsPerLine source fault ∧
        d = fault.diagnostic settings := by
    simp only [← ofSource_eq_error_iff, Program.parseWith]
    cases Program.ofSource settings source <;> simp [Except.mapError, eq_comm]
  constructor
  · rw [← exists_reportedFault_iff]
    constructor
    · rintro ⟨d, hd⟩
      obtain ⟨fault, hfault, -⟩ := (hreport d).mp hd
      exact ⟨fault, hfault⟩
    · rintro ⟨fault, hfault⟩
      exact ⟨_, (hreport _).mpr ⟨fault, hfault, rfl⟩⟩
  · intro d
    rw [hreport]
    constructor
    · rintro ⟨fault, hfault, rfl⟩
      exact ⟨fault, hfault, rfl, fault.report_fields settings⟩
    · rintro ⟨fault, hfault, rfl, -⟩
      exact ⟨fault, hfault, rfl⟩

end CommandScript
