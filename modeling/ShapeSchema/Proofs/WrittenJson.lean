import ShapeSchema.Json.Text
set_option autoImplicit false

namespace ShapeSchema.Json

/-- A value without numbers, all strings of which are texts. -/
inductive Plain : Json → Prop
  | null : Plain .null
  | bool (value : Bool) : Plain (.bool value)
  | str (s : String) : Plain (.str s)
  | array {items : List Json} (all : ∀ v ∈ items, Plain v) : Plain (.array items)
  | obj {members : List (String × Json)} (all : ∀ m ∈ members, Plain m.2) : Plain (.obj members)

namespace Build

theorem run_cons (b : Build) (l : Lexeme) (rest : List Lexeme) :
    run b (l :: rest) = (step b l).bind (run · rest) := by
  cases b with
  | finished v frames => cases frames <;> rfl
  | _ => rfl

/-- Reading the lexemes of `v` where a value may start comes to having finished `v` there. -/
def ReadsBack (v : Json) : Prop :=
  ∀ frames rest, run (.value frames) (v.lexemesThen rest) = run (.finished v frames) rest

theorem exists_first_lexeme (v : Json) (rest : List Lexeme) :
    ∃ l more, v.lexemesThen rest = l :: more ∧ l ≠ .bracketClose := by
  cases v <;> exact ⟨_, _, by rw [lexemesThen] <;> simp, by simp⟩

theorem run_itemsThen {items : List Json} (nonempty : items ≠ []) (all : ∀ v ∈ items, ReadsBack v)
    (before : List Json) (frames : List Frame) (rest : List Lexeme) :
    run (.value (.items before :: frames)) (itemsThen rest items) =
      run (.finished (.array (before.reverse ++ items)) frames) rest := by
  induction items generalizing before with
  | nil => exact absurd rfl nonempty
  | cons item more ih =>
    have first := all item List.mem_cons_self
    cases more with
    | nil =>
      change run _ (item.lexemesThen (.bracketClose :: rest)) = _
      rw [first, run_cons, ← List.reverse_cons]
      rfl
    | cons next more =>
      have later := ih (by simp) (fun v hv => all v (List.mem_cons_of_mem _ hv)) (item :: before)
      rw [List.reverse_cons, List.append_assoc] at later
      change run _ (item.lexemesThen (.comma :: itemsThen rest (next :: more))) = _
      rw [first, run_cons]
      exact later

theorem run_membersThen {members : List (Option String × Json)} (nonempty : members ≠ [])
    (all : ∀ m ∈ members, ReadsBack m.2) (before : List (Option String × Json))
    (frames : List Frame) (rest : List Lexeme) :
    run (.member before frames) (membersThen rest members) =
      run (.finished (.object (before.reverse ++ members)) frames) rest := by
  induction members generalizing before with
  | nil => exact absurd rfl nonempty
  | cons member more ih =>
    obtain ⟨key, v⟩ := member
    have first : ReadsBack v := all (key, v) List.mem_cons_self
    cases more with
    | nil =>
      change run (.value (.members before key :: frames)) (v.lexemesThen (.braceClose :: rest)) = _
      rw [first, run_cons, ← List.reverse_cons]
      rfl
    | cons next more =>
      have later := ih (by simp) (fun m hm => all m (List.mem_cons_of_mem _ hm))
        ((key, v) :: before)
      rw [List.reverse_cons, List.append_assoc] at later
      change run (.value (.members before key :: frames))
        (v.lexemesThen (.comma :: membersThen rest (next :: more))) = _
      rw [first, run_cons]
      exact later

theorem readsBack_array {items : List Json} (all : ∀ v ∈ items, ReadsBack v) :
    ReadsBack (.array items) := by
  intro frames rest
  cases items with
  | nil => rfl
  | cons item more =>
    refine Eq.trans ?_ (run_itemsThen (by simp) all [] frames rest)
    change run (.firstItem frames) (itemsThen rest (item :: more)) = _
    obtain ⟨l, behind, first, opens⟩ : ∃ l behind,
        itemsThen rest (item :: more) = l :: behind ∧ l ≠ .bracketClose := by
      cases more <;> exact exists_first_lexeme item _
    rw [first, run_cons, run_cons]
    cases l <;> first | rfl | exact absurd rfl opens

theorem readsBack_object {members : List (Option String × Json)}
    (all : ∀ m ∈ members, ReadsBack m.2) : ReadsBack (.object members) := by
  intro frames rest
  cases members with
  | nil => rfl
  | cons member more =>
    refine Eq.trans ?_ (run_membersThen (by simp) all [] frames rest)
    cases more <;> rfl

theorem readsBack_of_plain {v : Json} (h : Plain v) : ReadsBack v := by
  induction h with
  | null => exact fun _ _ => rfl
  | bool value => exact fun _ _ => rfl
  | str s => exact fun _ _ => rfl
  | array _ ih => exact readsBack_array ih
  | obj _ ih =>
    refine readsBack_object fun m hm => ?_
    obtain ⟨member, hmember, rfl⟩ := List.mem_map.mp hm
    exact ih member hmember

end Build

namespace Scan

theorem run_cons {scan next : Scan} {c : Char} {found : List Lexeme}
    (h : step scan c = some (found, next)) (rest : List Char) :
    run scan (c :: rest) = (run next rest).map (found ++ ·) := by
  rw [run, h]
  cases hr : run next rest <;> simp [hr]

theorem run_cons_nil {scan next : Scan} {c : Char} (h : step scan c = some ([], next))
    (rest : List Char) : run scan (c :: rest) = run next rest := by
  rw [run_cons h]
  simp

def Rescans (ls : List Lexeme) : Prop := run .between (ls.flatMap Lexeme.chars) = some ls

def IsMark (l : Lexeme) : Prop := ∀ v, l ≠ .scalar v

def Breaks (ls : List Lexeme) : Prop := ∀ l ∈ ls.head?, IsMark l

theorem IsMark.exists_char {l : Lexeme} (mark : IsMark l) :
    ∃ c, l.chars = [c] ∧ isWordChar c = false ∧ start c = some ([l], .between) := by
  cases l with
  | scalar v => exact absurd rfl (mark v)
  | _ => exact ⟨_, rfl, rfl, rfl⟩

theorem rescans_mark {l : Lexeme} (mark : IsMark l) {ls : List Lexeme} :
    Rescans (l :: ls) ↔ Rescans ls := by
  obtain ⟨c, chars, -, starts⟩ := mark.exists_char
  have step : step .between c = some ([l], .between) := starts
  rw [Rescans, List.flatMap_cons, chars, List.singleton_append, run_cons step, Rescans]
  cases run .between (ls.flatMap Lexeme.chars) <;> simp

theorem run_word {cs : List Char} (word : ∀ c ∈ cs, isWordChar c = true) (before rest : List Char) :
    run (.word before) (cs ++ rest) = run (.word (cs.reverse ++ before)) rest := by
  induction cs generalizing before with
  | nil => rfl
  | cons c cs ih =>
    have inside : step (.word before) c = some ([], .word (c :: before)) := by
      simp [step, word c List.mem_cons_self]
    rw [List.cons_append, run_cons_nil inside, ih fun d hd => word d (List.mem_cons_of_mem _ hd)]
    simp

theorem Rescans.word {v : Json} {ls : List Lexeme} (h : Rescans ls) (breaks : Breaks ls) {c : Char}
    {cs : List Char} (chars : Lexeme.chars (.scalar v) = c :: cs)
    (word : cs.all isWordChar = true) (starts : start c = some ([], .word [c]))
    (means : word? (c :: cs) = some v) : Rescans (.scalar v :: ls) := by
  have first : step .between c = some ([], .word [c]) := starts
  have whole : (cs.reverse ++ [c]).reverse = c :: cs := by simp
  rw [Rescans, List.flatMap_cons, chars, List.cons_append, run_cons_nil first,
    run_word (List.all_eq_true.mp word)]
  cases ls with
  | nil =>
    change (word? (cs.reverse ++ [c]).reverse).map _ = _
    rw [whole, means]
    rfl
  | cons l ls =>
    have mark : IsMark l := breaks l rfl
    have later := (rescans_mark mark).mp h
    obtain ⟨m, hm, ends, begins⟩ := mark.exists_char
    have both : step (.word (cs.reverse ++ [c])) m = some ([.scalar v, l], .between) := by
      simp [step, ends, means, begins]
    rw [List.flatMap_cons, hm, List.singleton_append, run_cons both, later]
    rfl

theorem hexDigit?_digitChar : ∀ d < 16, hexDigit? (Nat.digitChar d) = some d := by
  decide

theorem run_escaped {c d : Char} (means : escaped? c = some d) (units : List Nat)
    (rest : List Char) :
    run (.string units) ('\\' :: c :: rest) = run (.string (d.toNat :: units)) rest := by
  have escape : step (.string units) '\\' = some ([], .escape units) := rfl
  have short : c ≠ 'u' := fun h => by subst h; cases means
  have character : step (.escape units) c = some ([], .string (d.toNat :: units)) := by
    simp [step, short, means]
  rw [run_cons_nil escape, run_cons_nil character]

theorem run_hexDigit {d : Nat} (digit : d < 16) {missing : Nat} (more : 1 < missing)
    (units : List Nat) (code : Nat) (rest : List Char) :
    run (.hex units missing code) (Nat.digitChar d :: rest) =
      run (.hex units (missing - 1) (16 * code + d)) rest := by
  refine run_cons_nil ?_ rest
  simp [step, hexDigit?_digitChar d digit, Nat.not_le.mpr more]

theorem run_lastHexDigit {d : Nat} (digit : d < 16) (units : List Nat) (code : Nat)
    (rest : List Char) :
    run (.hex units 1 code) (Nat.digitChar d :: rest) =
      run (.string ((16 * code + d) :: units)) rest := by
  refine run_cons_nil ?_ rest
  simp [step, hexDigit?_digitChar d digit]

theorem run_controlCode {code : Nat} (small : code < 0x20) (units : List Nat) (rest : List Char) :
    run (.string units) (['\\', 'u', '0', '0', Nat.digitChar (code / 16),
      Nat.digitChar (code % 16)] ++ rest) = run (.string (code :: units)) rest := by
  have escape : step (.string units) '\\' = some ([], .escape units) := rfl
  have opens : step (.escape units) 'u' = some ([], .hex units 4 0) := rfl
  have zero : '0' = Nat.digitChar 0 := rfl
  simp only [List.cons_append, List.nil_append]
  rw [run_cons_nil escape, run_cons_nil opens, zero, run_hexDigit (by omega) (by omega),
    run_hexDigit (by omega) (by omega), run_hexDigit (by omega) (by omega),
    run_lastHexDigit (by omega)]
  congr 3
  omega

theorem run_escapeInString (c : Char) (units : List Nat) (rest : List Char) :
    run (.string units) (escapeInString c ++ rest) = run (.string (c.toNat :: units)) rest := by
  unfold escapeInString
  iterate 7
    split
    · next h =>
      subst h
      exact run_escaped rfl units rest
  split
  · next small => exact run_controlCode small units rest
  · next quote backslash _ _ _ _ _ large =>
    have plain : step (.string units) c = some ([], .string (c.toNat :: units)) := by
      simp [step, quote, backslash, large]
    rw [List.singleton_append, run_cons_nil plain]

theorem run_stringBody (cs : List Char) (units : List Nat) (rest : List Char) :
    run (.string units) (cs.flatMap escapeInString ++ rest) =
      run (.string ((cs.map Char.toNat).reverse ++ units)) rest := by
  induction cs generalizing units with
  | nil => rfl
  | cons c cs ih =>
    rw [List.flatMap_cons, List.append_assoc, run_escapeInString, ih]
    simp

/-- No character is half of a surrogate pair. -/
theorem joinUnits_map_toNat (cs : List Char) : joinUnits (cs.map Char.toNat) = some cs := by
  induction cs with
  | nil => rfl
  | cons c cs ih =>
    have valid : c.toNat < 0xD800 ∨ 0xDFFF < c.toNat := c.valid.imp id And.left
    have high : isHighSurrogate c.toNat = false := by
      simp [isHighSurrogate]
      omega
    have low : isLowSurrogate c.toNat = false := by
      simp [isLowSurrogate]
      omega
    rw [List.map_cons, joinUnits.eq_def]
    simp [high, low, ih]

theorem Rescans.str {ls : List Lexeme} (h : Rescans ls) (s : String) :
    Rescans (.scalar (.str s) :: ls) := by
  have opens : step .between '"' = some ([], .string []) := rfl
  have closes : step (.string (s.toList.map Char.toNat).reverse) '"' =
      some ([.scalar (.str s)], .between) := by
    simp [step, joinUnits_map_toNat, Json.str]
  have chars : Lexeme.chars (.scalar (.str s)) =
      '"' :: (s.toList.flatMap escapeInString ++ ['"']) := rfl
  rw [Rescans, List.flatMap_cons, chars, List.cons_append, List.append_assoc, run_cons_nil opens,
    run_stringBody, List.append_nil, List.singleton_append, run_cons closes, h]
  rfl

/-- Before anything that may follow it, the text of `v` is scanned as the lexemes of `v`. -/
def Rescannable (v : Json) : Prop :=
  ∀ ls, Rescans ls → Breaks ls → Rescans (v.lexemesThen ls)

theorem Rescannable.before_mark {v : Json} (h : Rescannable v) {l : Lexeme} (mark : IsMark l)
    {ls : List Lexeme} (later : Rescans ls) : Rescans (v.lexemesThen (l :: ls)) :=
  h _ ((rescans_mark mark).mpr later) fun _ first => Option.some.inj first ▸ mark

theorem rescans_itemsThen {items : List Json} (all : ∀ v ∈ items, Rescannable v) {ls : List Lexeme}
    (h : Rescans ls) : Rescans (itemsThen ls items) := by
  induction items with
  | nil => exact (rescans_mark (by simp [IsMark])).mpr h
  | cons item more ih =>
    have first := all item List.mem_cons_self
    cases more with
    | nil => exact first.before_mark (by simp [IsMark]) h
    | cons next more =>
      have later := ih fun v hv => all v (List.mem_cons_of_mem _ hv)
      exact first.before_mark (by simp [IsMark]) later

theorem rescans_membersThen {members : List (String × Json)}
    (all : ∀ m ∈ members, Rescannable m.2) {ls : List Lexeme} (h : Rescans ls) :
    Rescans (membersThen ls (members.map fun (key, v) => (some key, v))) := by
  induction members with
  | nil => exact (rescans_mark (by simp [IsMark])).mpr h
  | cons member more ih =>
    obtain ⟨key, v⟩ := member
    have first : Rescannable v := all (key, v) List.mem_cons_self
    have named {ls} (h : Rescans ls) : Rescans (.scalar (.str key) :: .colon :: ls) :=
      ((rescans_mark (by simp [IsMark])).mpr h).str key
    cases more with
    | nil => exact named (first.before_mark (by simp [IsMark]) h)
    | cons next more =>
      have later := ih fun m hm => all m (List.mem_cons_of_mem _ hm)
      exact named (first.before_mark (by simp [IsMark]) later)

theorem rescannable_of_plain {v : Json} (h : Plain v) : Rescannable v := by
  induction h with
  | null => exact fun ls h breaks => h.word breaks rfl rfl rfl rfl
  | bool value =>
    cases value <;> exact fun ls h breaks => h.word breaks rfl rfl rfl rfl
  | str s => exact fun ls h _ => h.str s
  | array _ ih =>
    exact fun ls h _ => (rescans_mark (by simp [IsMark])).mpr (rescans_itemsThen ih h)
  | obj _ ih =>
    exact fun ls h _ => (rescans_mark (by simp [IsMark])).mpr (rescans_membersThen ih h)

end Scan

/-- What is written without numbers is read back. -/
theorem parse?_compact {v : Json} (h : Plain v) : parse? v.compact = some v := by
  have scanned : Scan.run .between v.compact.toList = some v.lexemes := by
    rw [compact, String.toList_ofList]
    exact Scan.rescannable_of_plain h [] rfl (by simp [Scan.Breaks])
  have built : Build.run (.value []) v.lexemes = some v := Build.readsBack_of_plain h [] []
  rw [parse?, scanned]
  exact built

end ShapeSchema.Json
