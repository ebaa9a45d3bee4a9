import CommandScript.Json.Lexeme
import CommandScript.Json.Value
import Mathlib.Data.List.Basic

/-!
The grammar of JSON, as a relation between a text, the value in front of it and the text behind that
value. A writer is free in spaces, in the way each character of a string is spelled and in the
numbers that no reader here keeps. `Spells` leaves all of this freedom; what the library prints is
one text that it relates to a value, with the spaces of either layout.
-/

namespace CommandScript.Json

/-- What a text says. Of a number that is not written as a natural, and of a string with a surrogate
that has no partner, it is only said that they are there. -/
inductive Content where
  | null
  | bool (value : Bool)
  | number (value : Option Nat)
  | string (text : Option String)
  | array (items : List Content)
  | object (members : List (Option String × Content))

mutual

/-- What the text of a value says. -/
def content : Json → Content
  | .null => .null
  | .bool b => .bool b
  | .number n => .number (some n)
  | .string s => .string (some s)
  | .array items => .array (contents items)
  | .object members => .object (memberContents members)

def contents : List Json → List Content
  | [] => []
  | item :: items => content item :: contents items

def memberContents : List (String × Json) → List (Option String × Content)
  | [] => []
  | (name, value) :: members => (some name, content value) :: memberContents members

end

theorem contents_eq_map (items : List Json) : contents items = items.map content := by
  induction items with
  | nil => rfl
  | cons item items ih => rw [contents, ih, List.map_cons]

/-! ### Strings -/

/-- A hexadecimal digit in either case. -/
def IsHexDigit (c : Char) (n : Nat) : Prop :=
  n < 16 ∧ (c = n.digitChar ∨ c = n.digitChar.toUpper)

/-- Four hexadecimal digits in front of a text, and the number they write. -/
def SpellsUnit (cs : List Char) (n : Nat) (rest : List Char) : Prop :=
  ∃ a b c d w x y z, cs = a :: b :: c :: d :: rest ∧ IsHexDigit a w ∧ IsHexDigit b x ∧
    IsHexDigit c y ∧ IsHexDigit d z ∧ n = ((w * 16 + x) * 16 + y) * 16 + z

/-- The letters that may follow a backslash, each with the character it stands for. -/
def letters : List (Char × Char) :=
  [('"', '"'), ('\\', '\\'), ('/', '/'), ('b', '\x08'), ('f', '\x0c'), ('n', '\n'), ('r', '\r'),
    ('t', '\t')]

/-- A character that stands for itself in a string. -/
def IsPlain (c : Char) : Prop :=
  ' ' ≤ c ∧ c ≠ '"' ∧ c ≠ '\\'

/-- One character of a string, written as itself, with a letter, with its number or as a pair of
surrogates. -/
inductive SpellsChar : List Char → Char → List Char → Prop
  | plain {cs rest : List Char} {c : Char} (hcs : cs = c :: rest) (hc : IsPlain c) :
      SpellsChar cs c rest
  | letter {cs rest : List Char} {letter c : Char} (hcs : cs = '\\' :: letter :: rest)
      (hletter : (letter, c) ∈ letters) : SpellsChar cs c rest
  | unit {cs digits rest : List Char} {c : Char} (hcs : cs = '\\' :: 'u' :: digits)
      (hdigits : SpellsUnit digits c.toNat rest) : SpellsChar cs c rest
  | pair {cs digits more rest : List Char} {high low : Nat} {c : Char}
      (hcs : cs = '\\' :: 'u' :: digits) (hdigits : SpellsUnit digits high ('\\' :: 'u' :: more))
      (hmore : SpellsUnit more low rest) (hhigh : 0xd800 ≤ high ∧ high < 0xdc00)
      (hlow : 0xdc00 ≤ low ∧ low < 0xe000)
      (hc : c.toNat = 0x10000 + (high - 0xd800) * 0x400 + (low - 0xdc00)) : SpellsChar cs c rest

/-- The characters of a string up to its closing quote. -/
inductive SpellsText : List Char → List Char → List Char → Prop
  | close {cs rest : List Char} (hcs : cs = '"' :: rest) : SpellsText cs [] rest
  | cons {cs next rest : List Char} {c : Char} {chars : List Char} (hc : SpellsChar cs c next)
      (hchars : SpellsText next chars rest) : SpellsText cs (c :: chars) rest

/-- A string up to its closing quote, whose surrogates need no partners. -/
inductive SpellsUnits : List Char → List Char → Prop
  | close {cs rest : List Char} (hcs : cs = '"' :: rest) : SpellsUnits cs rest
  | plain {cs next rest : List Char} {c : Char} (hcs : cs = c :: next) (hc : IsPlain c)
      (hnext : SpellsUnits next rest) : SpellsUnits cs rest
  | letter {cs next rest : List Char} {letter c : Char} (hcs : cs = '\\' :: letter :: next)
      (hletter : (letter, c) ∈ letters) (hnext : SpellsUnits next rest) : SpellsUnits cs rest
  | unit {cs digits next rest : List Char} {n : Nat} (hcs : cs = '\\' :: 'u' :: digits)
      (hdigits : SpellsUnit digits n next) (hnext : SpellsUnits next rest) : SpellsUnits cs rest

/-- A string from behind its opening quote, and its text if it is one. -/
inductive SpellsString : List Char → Option String → List Char → Prop
  | text {cs chars rest : List Char} (htext : SpellsText cs chars rest) :
      SpellsString cs (some (String.ofList chars)) rest
  | broken {cs rest : List Char} (hunits : SpellsUnits cs rest)
      (hnot : ∀ chars next, ¬ SpellsText cs chars next) : SpellsString cs none rest

/-! ### Numbers -/

def IsDigits (ds : List Char) : Prop :=
  ds ≠ [] ∧ ∀ c ∈ ds, c.isDigit = true

/-- The whole part of a number: digits, of which the first is a zero only if it is alone. -/
def IsWhole (ds : List Char) : Prop :=
  IsDigits ds ∧ (ds.head? = some '0' → ds = ['0'])

/-- A point and digits, or nothing. -/
def IsFraction (cs : List Char) : Prop :=
  cs = [] ∨ ∃ ds, IsDigits ds ∧ cs = '.' :: ds

/-- The letter of an exponent, a sign or none, and digits, or nothing. -/
def IsExponent (cs : List Char) : Prop :=
  cs = [] ∨ ∃ letter sign ds, letter ∈ ['e', 'E'] ∧ sign ∈ [[], ['+'], ['-']] ∧ IsDigits ds ∧
    cs = letter :: (sign ++ ds)

/-- A number as it may be written. -/
def IsNumber (cs : List Char) : Prop :=
  ∃ sign whole fraction exponent, sign ∈ [[], ['-']] ∧ IsWhole whole ∧ IsFraction fraction ∧
    IsExponent exponent ∧ cs = sign ++ (whole ++ (fraction ++ exponent))

/-- A number, and its value if it is written as a natural. -/
inductive SpellsNumber (literal : List Char) : Option Nat → Prop
  | natural (n : Nat) (hliteral : literal = Nat.toDigits 10 n) : SpellsNumber literal (some n)
  | other (hliteral : IsNumber literal) (hnot : ∀ n, literal ≠ Nat.toDigits 10 n) :
      SpellsNumber literal none

/-- A character that can stand in a number. -/
def isNumeric (c : Char) : Bool :=
  c.isDigit || c == '.' || c == 'e' || c == 'E' || c == '+' || c == '-'

/-- No number goes on here. -/
def EndsNumber (rest : List Char) : Prop :=
  ∀ c ∈ rest.head?, isNumeric c = false

/-! ### Values -/

/-- The text from its first character that is no space. -/
def trim (cs : List Char) : List Char :=
  cs.dropWhile isSpace

mutual

/-- The value in front of a text, and the text behind it. -/
inductive Spells : List Char → Content → List Char → Prop
  | null {cs rest : List Char} (hcs : trim cs = 'n' :: 'u' :: 'l' :: 'l' :: rest) :
      Spells cs .null rest
  | isTrue {cs rest : List Char} (hcs : trim cs = 't' :: 'r' :: 'u' :: 'e' :: rest) :
      Spells cs (.bool true) rest
  | isFalse {cs rest : List Char} (hcs : trim cs = 'f' :: 'a' :: 'l' :: 's' :: 'e' :: rest) :
      Spells cs (.bool false) rest
  | number {cs literal rest : List Char} {value : Option Nat} (hcs : trim cs = literal ++ rest)
      (hliteral : SpellsNumber literal value) (hend : EndsNumber rest) :
      Spells cs (.number value) rest
  | string {cs body rest : List Char} {text : Option String} (hcs : trim cs = '"' :: body)
      (hbody : SpellsString body text rest) : Spells cs (.string text) rest
  | array {cs inner rest : List Char} {items : List Content} (hcs : trim cs = '[' :: inner)
      (hitems : SpellsItems true inner items rest) : Spells cs (.array items) rest
  | object {cs inner rest : List Char} {members : List (Option String × Content)}
      (hcs : trim cs = '\x7b' :: inner) (hmembers : SpellsMembers true inner members rest) :
      Spells cs (.object members) rest

/-- The items of an array from behind its bracket, or from behind an item when `first` is false. -/
inductive SpellsItems : Bool → List Char → List Content → List Char → Prop
  | close {first : Bool} {cs rest : List Char} (hcs : trim cs = ']' :: rest) :
      SpellsItems first cs [] rest
  | first {cs next rest : List Char} {item : Content} {items : List Content}
      (hitem : Spells cs item next) (hitems : SpellsItems false next items rest) :
      SpellsItems true cs (item :: items) rest
  | next {cs cs' rest : List Char} {item : Content} {items : List Content}
      (hcs : trim cs = ',' :: cs') (hitems : SpellsItems true cs' (item :: items) rest) :
      SpellsItems false cs (item :: items) rest

/-- The members of an object from behind its brace, or from behind a member when `first` is
false. -/
inductive SpellsMembers : Bool → List Char → List (Option String × Content) → List Char → Prop
  | close {first : Bool} {cs rest : List Char} (hcs : trim cs = '\x7d' :: rest) :
      SpellsMembers first cs [] rest
  | first {cs body mid value next rest : List Char} {name : Option String} {v : Content}
      {members : List (Option String × Content)} (hcs : trim cs = '"' :: body)
      (hname : SpellsString body name mid) (hmid : trim mid = ':' :: value)
      (hvalue : Spells value v next) (hmembers : SpellsMembers false next members rest) :
      SpellsMembers true cs ((name, v) :: members) rest
  | next {cs cs' rest : List Char} {member : Option String × Content}
      {members : List (Option String × Content)} (hcs : trim cs = ',' :: cs')
      (hmembers : SpellsMembers true cs' (member :: members) rest) :
      SpellsMembers false cs (member :: members) rest

end

/-- The text is this value, with nothing but spaces around it. -/
def Denotes (text : String) (v : Content) : Prop :=
  ∃ rest, Spells text.toList v rest ∧ trim rest = []

variable {cs cs' rest : List Char} {v : Content} {first : Bool} {items : List Content}
  {members : List (Option String × Content)}

/-! ### Spaces -/

theorem trim_cons {c : Char} (hc : isSpace c = false) (cs : List Char) :
    trim (c :: cs) = c :: cs :=
  List.dropWhile_cons_of_neg (by simp [hc])

theorem trim_space {c : Char} (hc : isSpace c = true) (cs : List Char) :
    trim (c :: cs) = trim cs :=
  List.dropWhile_cons_of_pos hc

theorem trim_newLine (depth : Nat) (cs : List Char) : trim (newLine depth ++ cs) = trim cs := by
  have hspace : ∀ c ∈ newLine depth, isSpace c = true := by
    intro c hc
    rcases List.mem_cons.mp hc with rfl | hc
    · rfl
    · rw [List.eq_of_mem_replicate hc]
      rfl
  exact List.dropWhile_append_of_pos hspace

/-- Spaces in front of a value do not count. -/
theorem Spells.of_trim (h : Spells cs v rest) (htrim : trim cs' = trim cs) : Spells cs' v rest := by
  cases h with
  | null hcs => exact .null (htrim.trans hcs)
  | isTrue hcs => exact .isTrue (htrim.trans hcs)
  | isFalse hcs => exact .isFalse (htrim.trans hcs)
  | number hcs hliteral hend => exact .number (htrim.trans hcs) hliteral hend
  | string hcs hbody => exact .string (htrim.trans hcs) hbody
  | array hcs hitems => exact .array (htrim.trans hcs) hitems
  | object hcs hmembers => exact .object (htrim.trans hcs) hmembers

theorem SpellsItems.of_trim (h : SpellsItems first cs items rest) (htrim : trim cs' = trim cs) :
    SpellsItems first cs' items rest := by
  cases h with
  | close hcs => exact .close (htrim.trans hcs)
  | first hitem hitems => exact .first (hitem.of_trim htrim) hitems
  | next hcs hitems => exact .next (htrim.trans hcs) hitems

theorem SpellsMembers.of_trim (h : SpellsMembers first cs members rest)
    (htrim : trim cs' = trim cs) : SpellsMembers first cs' members rest := by
  cases h with
  | close hcs => exact .close (htrim.trans hcs)
  | first hcs hname hmid hvalue hmembers =>
      exact .first (htrim.trans hcs) hname hmid hvalue hmembers
  | next hcs hmembers => exact .next (htrim.trans hcs) hmembers

/-! ### What is printed -/

theorem hexDigit_eq {n : Nat} (hn : n < 16) : hexDigit n = n.digitChar := by
  have hdigits : ∀ n < 16, hexDigit n = n.digitChar := by decide
  exact hdigits n hn

theorem isHexDigit_hexDigit {n : Nat} (hn : n < 16) : IsHexDigit (hexDigit n) n :=
  ⟨hn, Or.inl (hexDigit_eq hn)⟩

theorem spellsChar_escapeChar (c : Char) (rest : List Char) :
    SpellsChar (escapeChar c ++ rest) c rest := by
  have hletter {letter c : Char} (hletter : (letter, c) ∈ letters) :
      SpellsChar (['\\', letter] ++ rest) c rest :=
    .letter rfl hletter
  unfold escapeChar
  iterate 7
    split
    · rename_i hc
      rw [beq_iff_eq.mp hc]
      exact hletter (by simp [letters])
  split
  · rename_i hc
    have hcode : c.toNat < 32 := hc
    have hzero : IsHexDigit '0' 0 := ⟨by decide, Or.inl rfl⟩
    refine .unit rfl ⟨'0', '0', _, _, 0, 0, c.toNat / 16, c.toNat % 16, rfl, hzero, hzero,
      isHexDigit_hexDigit (by omega), isHexDigit_hexDigit (by omega), ?_⟩
    omega
  · rename_i hquote hbackslash _ _ _ _ _ hc
    exact .plain rfl ⟨Char.not_lt.mp hc, by simpa using hquote, by simpa using hbackslash⟩

theorem spellsString_quoted (text : String) (rest : List Char) :
    ∃ body, quoted text ++ rest = '"' :: body ∧ SpellsString body (some text) rest := by
  have hchars (chars : List Char) :
      SpellsText (chars.flatMap escapeChar ++ '"' :: rest) chars rest := by
    induction chars with
    | nil => exact .close rfl
    | cons c chars ih =>
        rw [List.flatMap_cons, List.append_assoc]
        exact .cons (spellsChar_escapeChar c _) ih
  refine ⟨text.toList.flatMap escapeChar ++ '"' :: rest, by simp [quoted], ?_⟩
  have htext := SpellsString.text (hchars text.toList)
  rwa [String.ofList_toList] at htext

theorem isSpace_of_isDigit {c : Char} (hc : c.isDigit = true) : isSpace c = false := by
  by_contra hspace
  simp only [isSpace, Bool.not_eq_false, Bool.or_eq_true, beq_iff_eq] at hspace
  obtain ((rfl | rfl) | rfl) | rfl := hspace <;> exact absurd hc (by decide)

theorem exists_toDigits (n : Nat) :
    ∃ c ds, Nat.toDigits 10 n = c :: ds ∧ c.isDigit = true := by
  cases hdigits : Nat.toDigits 10 n with
  | nil => exact absurd hdigits Nat.toDigits_ne_nil
  | cons c ds =>
      refine ⟨c, ds, rfl, Nat.isDigit_of_mem_toDigits (b := 10) (n := n) (by decide) (by decide) ?_⟩
      simp [hdigits]

theorem endsNumber_cons {c : Char} (hc : isNumeric c = false) (cs : List Char) :
    EndsNumber (c :: cs) := by
  rintro _ ⟨⟩
  exact hc

theorem spells_toDigits (n : Nat) (hrest : EndsNumber rest) :
    Spells (Nat.toDigits 10 n ++ rest) (.number (some n)) rest := by
  obtain ⟨c, ds, hdigits, hc⟩ := exists_toDigits n
  refine .number ?_ (.natural n rfl) hrest
  rw [hdigits, List.cons_append, trim_cons (isSpace_of_isDigit hc)]

theorem spells_string (text : String) (rest : List Char) :
    Spells (quoted text ++ rest) (.string (some text)) rest := by
  obtain ⟨body, hbody, htext⟩ := spellsString_quoted text rest
  exact .string (by rw [hbody]; rfl) htext

theorem spells_bool (b : Bool) (rest : List Char) : Spells (boolText b ++ rest) (.bool b) rest := by
  cases b with
  | true => exact .isTrue rfl
  | false => exact .isFalse rfl

mutual

/-- The compact text of a value spells it. -/
theorem spells_compactChars : ∀ (json : Json) {rest : List Char}, EndsNumber rest →
    Spells (compactChars json ++ rest) json.content rest
  | .null, rest, _ => .null rfl
  | .bool b, rest, _ => spells_bool b rest
  | .number n, rest, hrest => spells_toDigits n hrest
  | .string s, rest, _ => spells_string s rest
  | .array items, rest, _ => by
      rw [compactChars, List.cons_append, List.cons_append, List.append_assoc]
      exact .array rfl (spells_compactItems items rest)
  | .object members, rest, _ => by
      rw [compactChars, List.cons_append, List.cons_append, List.append_assoc]
      exact .object rfl (spells_compactMembers members rest)

theorem spells_compactItems : ∀ (items : List Json) (rest : List Char),
    SpellsItems true (compactItems items ++ ([']'] ++ rest)) (contents items) rest
  | [], rest => .close rfl
  | [item], rest => .first (spells_compactChars item (endsNumber_cons rfl _)) (.close rfl)
  | item :: next :: items, rest => by
      rw [compactItems, List.append_assoc, List.cons_append]
      exact .first (spells_compactChars item (endsNumber_cons rfl _))
        (.next rfl (spells_compactItems (next :: items) rest))

theorem spells_compactMembers : ∀ (members : List (String × Json)) (rest : List Char),
    SpellsMembers true (compactMembers members ++ (['\x7d'] ++ rest)) (memberContents members) rest
  | [], rest => .close rfl
  | [(name, value)], rest => by
      obtain ⟨body, hbody, hname⟩ := spellsString_quoted name
        (':' :: (compactChars value ++ (['\x7d'] ++ rest)))
      rw [compactMembers, List.append_assoc, List.cons_append, hbody]
      exact .first rfl hname rfl (spells_compactChars value (endsNumber_cons rfl _))
        (.close rfl)
  | (name, value) :: next :: members, rest => by
      obtain ⟨body, hbody, hname⟩ := spellsString_quoted name
        (':' :: (compactChars value ++ ',' :: (compactMembers (next :: members) ++
          (['\x7d'] ++ rest))))
      rw [compactMembers, List.append_assoc, List.cons_append, List.append_assoc, List.cons_append,
        hbody]
      exact .first rfl hname rfl (spells_compactChars value (endsNumber_cons rfl _))
        (.next rfl (spells_compactMembers (next :: members) rest))

end

theorem endsNumber_newLine (depth : Nat) (cs : List Char) : EndsNumber (newLine depth ++ cs) :=
  endsNumber_cons rfl _

mutual

/-- The text of a value over several lines spells it. -/
theorem spells_prettyChars : ∀ (depth : Nat) (json : Json) {rest : List Char}, EndsNumber rest →
    Spells (prettyChars depth json ++ rest) json.content rest
  | _, .null, _, _ => .null rfl
  | _, .bool b, rest, _ => spells_bool b rest
  | _, .number n, _, hrest => spells_toDigits n hrest
  | _, .string s, rest, _ => spells_string s rest
  | _, .array [], _, _ => .array rfl (.close rfl)
  | depth, .array (item :: items), rest, _ => by
      rw [prettyChars, List.cons_append, List.cons_append, List.cons_append, List.append_assoc,
        List.append_assoc]
      exact .array rfl (spells_prettyItems (depth + 1) (item :: items) (List.cons_ne_nil _ _)
        (trim_newLine depth _) (endsNumber_newLine depth _))
  | _, .object [], _, _ => .object rfl (.close rfl)
  | depth, .object (member :: members), rest, _ => by
      rw [prettyChars, List.cons_append, List.cons_append, List.cons_append, List.append_assoc,
        List.append_assoc]
      exact .object rfl (spells_prettyMembers (depth + 1) (member :: members) (List.cons_ne_nil _ _)
        (trim_newLine depth _) (endsNumber_newLine depth _))

theorem spells_prettyItems : ∀ (depth : Nat) (items : List Json), items ≠ [] →
    ∀ {tail rest : List Char}, trim tail = ']' :: rest → EndsNumber tail →
    SpellsItems true (prettyItems depth items ++ tail) (contents items) rest
  | _, [], hne, _, _, _, _ => absurd rfl hne
  | depth, [item], _, tail, rest, htail, hend => by
      rw [prettyItems, List.append_assoc]
      exact .first ((spells_prettyChars depth item hend).of_trim (trim_newLine depth _))
        (.close htail)
  | depth, item :: next :: items, _, tail, rest, htail, hend => by
      rw [prettyItems, List.append_assoc, List.append_assoc, List.cons_append]
      exact .first ((spells_prettyChars depth item (endsNumber_cons rfl _)).of_trim
        (trim_newLine depth _))
        (.next rfl (spells_prettyItems depth (next :: items) (List.cons_ne_nil _ _) htail hend))

theorem spells_prettyMembers : ∀ (depth : Nat) (members : List (String × Json)), members ≠ [] →
    ∀ {tail rest : List Char}, trim tail = '\x7d' :: rest → EndsNumber tail →
    SpellsMembers true (prettyMembers depth members ++ tail) (memberContents members) rest
  | _, [], hne, _, _, _, _ => absurd rfl hne
  | depth, [(name, value)], _, tail, rest, htail, hend => by
      obtain ⟨body, hbody, hname⟩ := spellsString_quoted name
        (':' :: ' ' :: (prettyChars depth value ++ tail))
      have hmember : SpellsMembers true (quoted name ++
          (':' :: ' ' :: (prettyChars depth value ++ tail))) [(some name, value.content)] rest := by
        rw [hbody]
        exact .first rfl hname rfl ((spells_prettyChars depth value hend).of_trim rfl)
          (.close htail)
      rw [prettyMembers, List.append_assoc, List.append_assoc]
      exact hmember.of_trim (trim_newLine depth _)
  | depth, (name, value) :: next :: members, _, tail, rest, htail, hend => by
      obtain ⟨body, hbody, hname⟩ := spellsString_quoted name (':' :: ' ' ::
        (prettyChars depth value ++ ',' :: (prettyMembers depth (next :: members) ++ tail)))
      have hmember : SpellsMembers true (quoted name ++ (':' :: ' ' ::
          (prettyChars depth value ++ ',' :: (prettyMembers depth (next :: members) ++ tail))))
          (memberContents ((name, value) :: next :: members)) rest := by
        rw [hbody]
        exact .first rfl hname rfl
          ((spells_prettyChars depth value (endsNumber_cons rfl _)).of_trim rfl)
          (.next rfl
            (spells_prettyMembers depth (next :: members) (List.cons_ne_nil _ _) htail hend))
      rw [prettyMembers, List.append_assoc, List.append_assoc]
      simp only [List.cons_append, List.append_assoc]
      exact hmember.of_trim (trim_newLine depth _)

end

theorem denotes_compact (json : Json) : Denotes json.compact json.content := by
  refine ⟨[], ?_, rfl⟩
  have h : Spells (compactChars json ++ []) json.content [] :=
    spells_compactChars json (by simp [EndsNumber])
  rwa [List.append_nil, ← String.toList_ofList (l := compactChars json)] at h

theorem denotes_pretty (json : Json) : Denotes json.pretty json.content := by
  refine ⟨[], ?_, rfl⟩
  have h : Spells (prettyChars 0 json ++ []) json.content [] :=
    spells_prettyChars 0 json (by simp [EndsNumber])
  rwa [List.append_nil, ← String.toList_ofList (l := prettyChars 0 json)] at h

end CommandScript.Json
