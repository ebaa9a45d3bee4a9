import CommandScript.Json.Reader
import CommandScript.Proofs.JsonLexing
import Mathlib.Data.List.Nodup

/-!
Readers on texts of the grammar. A reader takes a content as a value when it reads that value off
every text that says so, whatever stands behind it. Any content at all can be skipped. A record is
read from the members of an object in any order, and members that it does not know do not count.
-/

namespace CommandScript.Json

/-- The reader gets a value out of these lexemes, with others left behind it. -/
def Reader.Gives {α : Type} (read : Reader α) (input : List Lexeme) (value : α)
    (rest : List Lexeme) : Prop :=
  ∃ shorter, read input = .ok ⟨value, rest, shorter⟩

/-- The reader makes this value of every text that says this. -/
def Reader.Takes {α : Type} (read : Reader α) (v : Content) (value : α) : Prop :=
  ∀ cs rest, Spells cs v rest → read.Gives (lexemes cs) value (lexemes rest)

section Readers

variable {α β : Type} {reader : Reader α} {input mid rest : List Lexeme} {value : α}

namespace Reader.Gives

theorem map (h : reader.Gives input value rest) (f : α → β) :
    (reader.map f).Gives input (f value) rest := by
  obtain ⟨shorter, hread⟩ := h
  exact ⟨shorter, by rw [Reader.map, hread]; rfl⟩

theorem check {f : α → Except ReadError β} {checked : β} (h : reader.Gives input value rest)
    (hf : f value = .ok checked) : (reader.check f).Gives input checked rest := by
  obtain ⟨shorter, hread⟩ := h
  exact ⟨shorter, by rw [Reader.check, hread]; simp only [bind, Except.bind, hf]; rfl⟩

theorem andThen {second : α → Reader β} {other : β} (h : reader.Gives input value mid)
    (hsecond : (second value).Gives mid other rest) :
    (reader.andThen second).Gives input other rest := by
  obtain ⟨shorter, hread⟩ := h
  obtain ⟨shorter', hread'⟩ := hsecond
  refine ⟨Nat.lt_trans shorter' shorter, ?_⟩
  rw [Reader.andThen, hread]
  simp only [bind, Except.bind, hread']
  rfl

end Reader.Gives

theorem gives_readMark (isMark : Lexeme → Bool) (lexeme : Lexeme) (h : isMark lexeme = true)
    (rest : List Lexeme) : (readMark isMark).Gives (lexeme :: rest) () rest :=
  ⟨Nat.lt_succ_self _, by rw [readMark, if_pos h]⟩

end Readers

/-! ### Skipping -/

/-- From one state of skipping, these lexemes lead to another, with others left behind them. -/
inductive Leads : Skipping → List Lexeme → Skipping → List Lexeme → Prop
  | refl (s : Skipping) (input : List Lexeme) : Leads s input s input
  | step {next : Expected} {frames : List Frame} {lexeme : Lexeme} {input rest : List Lexeme}
      {s final : Skipping} (hstep : Skipping.step next frames lexeme = .ok s)
      (hrest : Leads s input final rest) :
      Leads (.expecting next frames) (lexeme :: input) final rest

namespace Leads

variable {s s' final : Skipping} {input mid rest : List Lexeme} {next : Expected}
  {frames : List Frame} {lexeme : Lexeme}

theorem one (hstep : Skipping.step next frames lexeme = .ok s) :
    Leads (.expecting next frames) (lexeme :: input) s input :=
  .step hstep (.refl s input)

theorem trans (h : Leads s input s' mid) (h' : Leads s' mid final rest) :
    Leads s input final rest := by
  induction h with
  | refl => exact h'
  | step hstep _ ih => exact .step hstep (ih h')

theorem gives_skipFrom (h : Leads (.expecting next frames) input .finished rest) :
    (skipFrom next frames).Gives input () rest := by
  generalize hstart : Skipping.expecting next frames = start at h
  generalize hend : Skipping.finished = final at h
  induction h generalizing next frames with
  | refl =>
      rw [← hend] at hstart
      cases hstart
  | @step next' frames' lexeme input rest s final hstep hrest ih =>
      obtain ⟨rfl, rfl⟩ := Skipping.expecting.inj hstart
      cases s with
      | finished =>
          subst hend
          cases hrest
          exact ⟨Nat.lt_succ_self _, by rw [skipFrom, hstep]⟩
      | expecting next frames =>
          obtain ⟨shorter, hread⟩ := ih rfl hend
          exact ⟨Nat.lt_succ_of_lt shorter, by rw [skipFrom, hstep]; simp only [hread]; rfl⟩

/-- Where an item or the end of an array may stand, an item is skipped like any value. -/
theorem itemOrEnd (h : Leads (.expecting .value frames) input s rest)
    (hne : s ≠ .expecting .value frames) : Leads (.expecting .itemOrEnd frames) input s rest := by
  cases h with
  | refl => exact absurd rfl hne
  | @step _ _ lexeme _ _ s' _ hstep hrest =>
      refine .step ?_ hrest
      rw [Skipping.step]
      · exact hstep
      · rintro outer - rfl
        cases hstep

end Leads

theorem afterValue_ne (frames outer : List Frame) :
    Skipping.afterValue frames ≠ .expecting .value outer := by
  cases frames <;> simp [Skipping.afterValue]

/-! ### Texts that are skipped -/

mutual

/-- Whatever a text says can be skipped. -/
theorem Spells.leads : ∀ {cs rest : List Char} {v : Content}, Spells cs v rest →
    ∀ frames, Leads (.expecting .value frames) (lexemes cs) (.afterValue frames) (lexemes rest)
  | _, _, _, .null hcs, _ => by
      rw [lexemes_word ['n', 'u', 'l', 'l'] .null (by simp) hcs]
      exact .one rfl
  | _, _, _, .isTrue hcs, _ => by
      rw [lexemes_word ['t', 'r', 'u', 'e'] (.bool true) (by simp) hcs]
      exact .one rfl
  | _, _, _, .isFalse hcs, _ => by
      rw [lexemes_word ['f', 'a', 'l', 's', 'e'] (.bool false) (by simp) hcs]
      exact .one rfl
  | _, _, _, .number hcs hliteral hend, _ => by
      obtain ⟨kept, hlexemes, -⟩ := lexemes_number hcs hliteral hend
      rw [hlexemes]
      exact .one rfl
  | _, _, _, .string hcs hbody, _ => by
      obtain ⟨kept, hlexemes, -⟩ := lexemes_string hcs hbody
      rw [hlexemes]
      exact .one rfl
  | _, _, _, .array hcs hitems, frames => by
      rw [lexemes_mark '[' .openArray (by simp) hcs]
      exact .step rfl (hitems.leads frames)
  | _, _, _, .object hcs hmembers, frames => by
      rw [lexemes_mark '\x7b' .openObject (by simp) hcs]
      exact .step rfl (hmembers.leads frames)

theorem SpellsItems.leads : ∀ {first : Bool} {cs rest : List Char} {items : List Content},
    SpellsItems first cs items rest → ∀ frames,
      Leads (.expecting (if first then .itemOrEnd else .separator) (.array :: frames)) (lexemes cs)
        (.afterValue frames) (lexemes rest)
  | first, _, _, _, .close hcs, frames => by
      rw [lexemes_mark ']' .closeArray (by simp) hcs]
      cases first <;> exact .one rfl
  | _, _, _, _, .first hitem hitems, frames =>
      ((hitem.leads (.array :: frames)).itemOrEnd (afterValue_ne _ _)).trans (hitems.leads frames)
  | _, _, _, _, .next hcs (.first hitem hitems), frames => by
      rw [lexemes_mark ',' .comma (by simp) hcs]
      exact .step rfl ((hitem.leads (.array :: frames)).trans (hitems.leads frames))

theorem SpellsMembers.leads : ∀ {first : Bool} {cs rest : List Char}
    {members : List (Option String × Content)}, SpellsMembers first cs members rest → ∀ frames,
      Leads (.expecting (if first then .nameOrEnd else .separator) (.object :: frames)) (lexemes cs)
        (.afterValue frames) (lexemes rest)
  | first, _, _, _, .close hcs, frames => by
      rw [lexemes_mark '\x7d' .closeObject (by simp) hcs]
      cases first <;> exact .one rfl
  | _, _, _, _, .first hcs hname hmid hvalue hmembers, frames => by
      obtain ⟨kept, hlexemes, -⟩ := lexemes_string hcs hname
      rw [hlexemes, lexemes_mark ':' .colon (by simp) hmid]
      exact .step rfl (.step rfl ((hvalue.leads (.object :: frames)).trans (hmembers.leads frames)))
  | _, _, _, _, .next hcs (.first hcs' hname hmid hvalue hmembers), frames => by
      obtain ⟨kept, hlexemes, -⟩ := lexemes_string hcs' hname
      rw [lexemes_mark ',' .comma (by simp) hcs, hlexemes, lexemes_mark ':' .colon (by simp) hmid]
      exact .step rfl (.step rfl (.step rfl
        ((hvalue.leads (.object :: frames)).trans (hmembers.leads frames))))

end

/-! ### Single values -/

section Values

variable {α β : Type} {reader : Reader α} {v : Content} {value : α} {text : String}

theorem Reader.Takes.map (h : reader.Takes v value) (f : α → β) :
    (reader.map f).Takes v (f value) :=
  fun cs rest hcs => (h cs rest hcs).map f

theorem Reader.Takes.check {f : α → Except ReadError β} {checked : β} (h : reader.Takes v value)
    (hf : f value = .ok checked) : (reader.check f).Takes v checked :=
  fun cs rest hcs => (h cs rest hcs).check hf

theorem takes_skipValue (v : Content) : skipValue.Takes v () :=
  fun _ _ hcs => (hcs.leads []).gives_skipFrom

theorem takes_readText (s : String) : readText.Takes (.string (some s)) s := by
  intro cs rest h
  cases h with
  | string hcs hbody =>
      obtain ⟨kept, hlexemes, hkept⟩ := lexemes_string hcs hbody
      rw [hlexemes, hkept s rfl]
      exact ⟨Nat.lt_succ_self _, rfl⟩

theorem takes_readNatural {most n : Nat} (hn : n ≤ most) (hword : n ≤ largestWord) :
    (readNatural most).Takes (.number (some n)) n := by
  intro cs rest h
  cases h with
  | number hcs hliteral hend =>
      obtain ⟨kept, hlexemes, hkept⟩ := lexemes_number hcs hliteral hend
      rw [hlexemes, hkept n rfl hword]
      exact ⟨Nat.lt_succ_self _, by rw [readNatural, if_pos hn]⟩

theorem takes_readName {ofName? : String → Option α} {s : String} (hs : ofName? s = some value) :
    (readName ofName?).Takes (.string (some s)) value := by
  intro cs rest h
  cases h with
  | string hcs hbody =>
      obtain ⟨kept, hlexemes, hkept⟩ := lexemes_string hcs hbody
      rw [hlexemes, hkept s rfl]
      exact ⟨Nat.lt_succ_self _, by simp only [readName, readBareName, hs]⟩

/-- A reader that takes a content reads every whole text that says it. -/
theorem Reader.Takes.read_eq (h : reader.Takes v value) (htext : Denotes text v) :
    Json.read reader text = .ok value := by
  obtain ⟨rest, hspells, hrest⟩ := htext
  obtain ⟨shorter, hread⟩ := h _ rest hspells
  have hempty : lexemes rest = [] := by
    rw [← lexemes_trim, hrest, lexemes]
  simp only [Json.read, bind, Except.bind, hread, hempty]
  rfl

end Values

/-! ### Records -/

/-- Members as they are written, each with a name that is a text. -/
def named (members : List (String × Content)) : List (Option String × Content) :=
  members.map fun m => (some m.1, m.2)

/-- A member that a record is written with: its name, what its value says, and that it may be left
out. -/
structure Entry where
  name : String
  value : Content
  optional : Prop

/-- An object that is written from entries. Only optional ones may be missing, those that are kept
stand in any order, and members of other names may stand among them. -/
inductive Entry.Write (entries : List Entry) : Content → Prop
  | object (kept : List Entry) (others : List (String × Content))
      {members : List (String × Content)} (hkept : kept.Sublist entries)
      (hmissing : ∀ e ∈ entries, e ∉ kept → e.optional)
      (hothers : ∀ m ∈ others, ∀ e ∈ entries, e.name ≠ m.1)
      (hmembers : members.Perm (kept.map (fun e => (e.name, e.value)) ++ others)) :
      Write entries (.object (named members))

/-- Entries are written as they are, without other members. -/
theorem Entry.write_all (entries : List Entry) :
    Write entries (.object (named (entries.map fun e => (e.name, e.value)))) :=
  .object entries [] (List.Sublist.refl entries) (fun _ he hnot => absurd he hnot)
    (fun _ hm => absurd hm List.not_mem_nil) (by rw [List.append_nil])

/-- How the fields of a record are filled from entries: each takes the value of the entry with its
name, and `draft` is what there is after members of some names. -/
structure Fills {σ : Type} (fields : List (Field σ)) (entries : List Entry)
    (draft : List String → σ) : Prop where
  names_nodup : (entries.map (·.name)).Nodup
  isRead : ∀ f ∈ fields, ∀ names, f.isRead (draft names) = true → f.name ∈ names
  read : ∀ f ∈ fields, ∃ e ∈ entries, e.name = f.name ∧ ∃ set, f.read.Takes e.value set ∧
    ∀ names, set (draft names) = draft (names ++ [f.name])
  skip : ∀ name, (∀ f ∈ fields, f.name ≠ name) → ∀ names, draft (names ++ [name]) = draft names

/-- A member may stand behind members of these names. If a field has its name, it is that of an
entry, and it is there for the first time. -/
def Suits {σ : Type} (fields : List (Field σ)) (entries : List Entry) (names : List String)
    (m : String × Content) : Prop :=
  ∀ f ∈ fields, f.name = m.1 → (∃ e ∈ entries, (e.name, e.value) = m) ∧ m.1 ∉ names

section Records

variable {σ : Type} {fields : List (Field σ)} {entries : List Entry} {draft : List String → σ}
  {names : List String} {name : String} {v : Content} {cs mid value next rest : List Char}
  {first : Bool} {members : List (String × Content)}

namespace Fills

/-- One member of a record, known or not, from behind its name. -/
theorem gives_readMember (h : Fills fields entries draft)
    (hsuits : Suits fields entries names (name, v)) (hmid : trim mid = ':' :: value)
    (hvalue : Spells value v next) :
    (readMember fields (draft names) name).Gives (lexemes mid) (draft (names ++ [name]))
      (lexemes next) := by
  rw [lexemes_mark ':' .colon (by simp) hmid]
  have hcolon := gives_readMark isColon .colon rfl (lexemes value)
  unfold readMember
  cases hfind : fields.find? (·.name == name) with
  | none =>
      have hunknown : ∀ f ∈ fields, f.name ≠ name := by simpa using hfind
      rw [h.skip name hunknown]
      exact hcolon.andThen ((takes_skipValue v).map (fun _ => draft names) _ _ hvalue)
  | some f =>
      have hf : f ∈ fields := List.mem_of_find?_eq_some hfind
      have hname : f.name = name := by simpa using List.find?_some hfind
      obtain ⟨⟨e, he, hentry⟩, hnew⟩ := hsuits f hf hname
      obtain ⟨e', he', hname', set, htakes, hset⟩ := h.read f hf
      cases hentry
      -- No other entry has this name, so it is this value that the field takes.
      obtain rfl : e' = e :=
        List.inj_on_of_nodup_map h.names_nodup he' he (hname'.trans hname)
      rw [← hname] at hnew ⊢
      simp only [if_neg fun hread => hnew (h.isRead f hf names hread)]
      rw [← hset]
      exact hcolon.andThen (htakes.map (· (draft names)) _ _ hvalue)

/-- All members of a record in the order of the text. -/
theorem gives_readMembers (h : Fills fields entries draft)
    (hmembers : SpellsMembers first cs (named members) rest)
    (hsuits : ∀ m ∈ members, Suits fields entries names m)
    (honce : members.Pairwise fun m m' => (∃ f ∈ fields, f.name = m.1) → m.1 ≠ m'.1) :
    ∃ shorter, readMembers fields first (draft names) (lexemes cs) =
      .ok ⟨draft (names ++ members.map (·.1)), lexemes rest, shorter⟩ := by
  induction members generalizing first cs names with
  | nil =>
      cases hmembers with
      | close hcs =>
          rw [lexemes_mark '\x7d' .closeObject (by simp) hcs, List.map_nil, List.append_nil]
          exact ⟨Nat.lt_succ_self _, by rw [readMembers]⟩
  | cons m members ih =>
      obtain ⟨hm, honce⟩ := List.pairwise_cons.mp honce
      -- Behind this member the others still suit, since none of them has its name.
      have hlater : ∀ m' ∈ members, Suits fields entries (names ++ [m.1]) m' := by
        intro m' hm' f hf hname
        obtain ⟨hentry, hnew⟩ := hsuits m' (List.mem_cons_of_mem _ hm') f hf hname
        refine ⟨hentry, ?_⟩
        rw [List.mem_append, List.mem_singleton, not_or]
        exact ⟨hnew, fun heq => hm m' hm' ⟨f, hf, hname.trans heq⟩ heq.symm⟩
      have hmember := hsuits m (List.mem_cons_self ..)
      rw [List.map_cons, List.append_cons]
      cases hmembers with
      | first hcs hname hmid hvalue hmembers =>
          obtain ⟨kept, hlexemes, hkept⟩ := lexemes_string hcs hname
          obtain ⟨shorter, hread⟩ := h.gives_readMember hmember hmid hvalue
          obtain ⟨shorter', hread'⟩ := ih hmembers hlater honce
          rw [hlexemes, hkept m.1 rfl]
          refine ⟨Nat.lt_succ_of_lt (Nat.lt_trans shorter' shorter), ?_⟩
          rw [readMembers]
          simp only [bind, Except.bind, hread, hread']
          rfl
      | next hcs hmembers =>
          cases hmembers with
          | first hcs' hname hmid hvalue hmembers =>
              obtain ⟨kept, hlexemes, hkept⟩ := lexemes_string hcs' hname
              obtain ⟨shorter, hread⟩ := h.gives_readMember hmember hmid hvalue
              obtain ⟨shorter', hread'⟩ := ih hmembers hlater honce
              rw [lexemes_mark ',' .comma (by simp) hcs, hlexemes, hkept m.1 rfl]
              refine ⟨Nat.lt_succ_of_lt (Nat.lt_succ_of_lt (Nat.lt_trans shorter' shorter)), ?_⟩
              rw [readMembers]
              simp only [bind, Except.bind, hread, hread']
              rfl

/-- A record reads what is written from its entries. Of each entry it has read the member, or the
entry is optional. -/
theorem takes_readRecord (h : Fills fields entries draft) (hv : Entry.Write entries v) :
    ∃ names, (readRecord fields (draft [])).Takes v (draft names) ∧
      ∀ e ∈ entries, e.name ∈ names ∨ e.optional := by
  cases hv with
  | @object kept others members hkept hmissing hothers hmembers =>
  have hother {m : String × Content} (hm : m ∈ others) {f : Field σ} (hf : f ∈ fields) :
      f.name ≠ m.1 := by
    obtain ⟨e, he, hname, -⟩ := h.read f hf
    rw [← hname]
    exact hothers m hm e he
  have hsuits : ∀ m ∈ members, Suits fields entries [] m := by
    intro m hm f hf hname
    rcases List.mem_append.mp (hmembers.mem_iff.mp hm) with hm | hm
    · obtain ⟨e, he, rfl⟩ := List.mem_map.mp hm
      exact ⟨⟨e, hkept.subset he, rfl⟩, List.not_mem_nil⟩
    · exact absurd hname (hother hm hf)
  -- The order does not matter, and in the order of the entries no known name stands twice.
  have honce : members.Pairwise fun m m' => (∃ f ∈ fields, f.name = m.1) → m.1 ≠ m'.1 := by
    have hsymm {m m' : String × Content} (h : (∃ f ∈ fields, f.name = m.1) → m.1 ≠ m'.1) :
        (∃ f ∈ fields, f.name = m'.1) → m'.1 ≠ m.1 :=
      fun hf heq => h (heq ▸ hf) heq.symm
    have hkeptNames : kept.Pairwise fun e e' => e.name ≠ e'.name :=
      (List.pairwise_map.mp h.names_nodup).sublist hkept
    rw [hmembers.pairwise_iff hsymm, List.pairwise_append, List.pairwise_map]
    refine ⟨hkeptNames.imp ?_, ?_, ?_⟩
    · intro e e' hne _
      exact hne
    · exact List.pairwise_of_forall_mem_list fun m hm m' _ ⟨f, hf, hname⟩ =>
        absurd hname (hother hm hf)
    · intro m hm m' hm' _
      obtain ⟨e, he, rfl⟩ := List.mem_map.mp hm
      exact hothers m' hm' e (hkept.subset he)
  refine ⟨members.map (·.1), ?_, ?_⟩
  · intro cs rest hcs
    cases hcs with
    | object hcs hspells =>
        obtain ⟨shorter, hread⟩ := h.gives_readMembers hspells hsuits honce
        rw [lexemes_mark '\x7b' .openObject (by simp) hcs]
        refine ⟨Nat.lt_succ_of_lt shorter, ?_⟩
        rw [readRecord, hread]
        rfl
  · intro e he
    by_cases hmem : e ∈ kept
    · have hwritten : (e.name, e.value) ∈ members :=
        hmembers.mem_iff.mpr (List.mem_append_left _ (List.mem_map_of_mem hmem))
      exact Or.inl (List.mem_map_of_mem hwritten)
    · exact Or.inr (hmissing e he hmem)

end Fills

end Records

end CommandScript.Json
