import ShapeSchema.Proofs.SparedSeparators
set_option autoImplicit false

namespace ShapeSchema

namespace Mark

theorem map_kind_spare (closed : Bool) (ms : List Mark) :
    (spare closed ms).map Mark.kind = ms.map Mark.kind := by
  induction ms generalizing closed with
  | nil => rfl
  | cons m ms ih => rw [spare, List.map_cons, ih, List.map_cons, spared]

theorem spare_concat_end (closed apart : Bool) (ms : List Mark) :
    spare closed (ms ++ [⟨.endOfInput, apart⟩]) = spare closed ms ++ [⟨.endOfInput, false⟩] := by
  induction ms generalizing closed with
  | nil => simp [spare, spared, Token.Kind.startsDeclaration]
  | cons m ms ih => rw [List.cons_append, spare, ih, spare, List.cons_append]

/-- Whether the mark before place `i` ends a declaration; `closed` answers for the first place. -/
def closedAt (closed : Bool) (ms : List Mark) : Nat → Bool
  | 0 => closed
  | i + 1 => ms[i]?.any (·.kind.endsDeclaration)

theorem getElem?_spare (closed : Bool) (ms : List Mark) (i : Nat) :
    (spare closed ms)[i]? = ms[i]?.map (spared (closedAt closed ms i)) := by
  induction ms generalizing closed i with
  | nil => rfl
  | cons m ms ih =>
    cases i with
    | zero => rfl
    | succ i =>
      have before : closedAt m.kind.endsDeclaration ms i = closedAt closed (m :: ms) (i + 1) := by
        cases i <;> rfl
      rw [spare, List.getElem?_cons_succ, ih, before, List.getElem?_cons_succ]

theorem closedAt_map_mark {ts : List Token} {i : Nat} :
    closedAt false (ts.map Token.mark) i = true ↔
      ∃ j before, i = j + 1 ∧ ts[j]? = some before ∧ before.kind.endsDeclaration = true := by
  cases i with
  | zero => simp [closedAt]
  | succ i => simp [closedAt, Option.any_eq_true, Token.mark]

end Mark

/-- The separators in front of the token, if there are any, are a single space of the text. -/
def Token.SingleSpaced (text : String) (t : Token) : Prop :=
  t.isSeparated = true →
    ∃ v, t.trivia = [v] ∧ v.kind = .whitespace ∧ v.span.offsets.slice? text = some " "

namespace Cell

def token (p : Position) (c : Cell) : Token :=
  if c.mark.apart then
    ⟨c.mark.kind, [⟨.whitespace, ⟨p, p.through [' ']⟩⟩],
      ⟨p.through [' '], (p.through [' ']).through c.run⟩⟩
  else ⟨c.mark.kind, [], ⟨p, p.through c.run⟩⟩

theorem mark_token (p : Position) (c : Cell) : (c.token p).mark = c.mark := by
  obtain ⟨run, kind, apart⟩ := c
  cases apart <;> rfl

theorem stop_token {p : Position} {before : List Char} (hp : p.offset = byteCount before)
    (c : Cell) : (c.token p).span.stop.offset = byteCount (before ++ c.runs.flatten) := by
  obtain ⟨run, kind, apart⟩ := c
  cases apart with
  | false =>
    have written : (runs ⟨run, kind, false⟩).flatten = run := by simp [runs]
    have stop := Position.offset_through p run
    rw [written, byteCount_append, ← hp]
    exact stop
  | true =>
    have written : (runs ⟨run, kind, true⟩).flatten = [' '] ++ run := by simp [runs]
    have stop := Position.offset_through (p.through [' ']) run
    rw [written, byteCount_append, byteCount_append, ← hp, ← Nat.add_assoc,
      ← Position.offset_through p [' ']]
    exact stop

theorem singleSpaced_token {text : String} {p : Position} {before rest : List Char} {c : Cell}
    (split : text.toList = before ++ (c.runs.flatten ++ rest)) (hp : p.offset = byteCount before) :
    (c.token p).SingleSpaced text := by
  intro separated
  obtain ⟨run, kind, apart⟩ := c
  cases apart with
  | false => cases separated
  | true =>
    refine ⟨_, rfl, rfl, ?_⟩
    have space : Span.offsets ⟨p, p.through [' ']⟩ =
        ⟨byteCount before, byteCount before + byteCount [' ']⟩ := by
      rw [Span.offsets, Position.offset_through, hp]
    have written : (runs ⟨run, kind, true⟩).flatten ++ rest = [' '] ++ (run ++ rest) := by
      simp [runs]
    rw [space, ByteSpan.slice?, split, written, cut?_byteCount]
    rfl

theorem scan_cons {c : Cell} (sound : c.Sound) (p : Position) (runs : List (List Char)) :
    Token.scan p (c.runs ++ runs) = c.token p :: Token.scan (c.token p).span.stop runs := by
  obtain ⟨d, rest, hrun, hk⟩ := sound.means
  have space : Lexeme.ofRun ' ' [] = .separator .whitespace := by decide
  obtain ⟨run, kind, apart⟩ := c
  dsimp only at hrun hk
  subst hrun
  cases apart <;> simp [Cell.runs, Cell.token, Token.scan, Token.addTrivia, space, hk]

variable {cs : List Cell}

theorem map_mark_scan (sound : ∀ c ∈ cs, c.Sound) (p : Position) :
    (Token.scan p (cs.flatMap runs)).map Token.mark =
      cs.map Cell.mark ++ [⟨.endOfInput, false⟩] := by
  induction cs generalizing p with
  | nil => rfl
  | cons c cs ih =>
    have tail := ih fun d hd => sound d (List.mem_cons_of_mem _ hd)
    rw [List.flatMap_cons, scan_cons (sound c List.mem_cons_self), List.map_cons, tail, mark_token,
      List.map_cons, List.cons_append]

theorem singleSpaced_scan {text : String} {before : List Char} {p : Position}
    (sound : ∀ c ∈ cs, c.Sound) (split : text.toList = before ++ (cs.flatMap runs).flatten)
    (hp : p.offset = byteCount before) :
    ∀ t ∈ Token.scan p (cs.flatMap runs), t.SingleSpaced text := by
  induction cs generalizing before p with
  | nil =>
    rw [List.flatMap_nil, Token.scan, List.forall_mem_singleton]
    intro separated
    cases separated
  | cons c cs ih =>
    rw [List.flatMap_cons, List.flatten_append] at split
    have tail := ih (fun d hd => sound d (List.mem_cons_of_mem _ hd))
      (split.trans (List.append_assoc _ _ _).symm) (stop_token hp c)
    rw [List.flatMap_cons, scan_cons (sound c List.mem_cons_self)]
    exact List.forall_mem_cons.mpr ⟨singleSpaced_token split hp, tail⟩

end Cell

namespace Token

theorem map_mark_ofText_canonical (text : String) :
    (ofText (canonical text)).map mark = Mark.spare false ((ofText text).map mark) := by
  obtain ⟨apart, marks⟩ := map_mark_ofText text
  rw [marks, Mark.spare_concat_end, ← Cell.map_mark_spare, ofText, lexemes_canonical]
  exact Cell.map_mark_scan (sound_spare_cellsOf text) .start

theorem singleSpaced_ofText_canonical (text : String) :
    ∀ t ∈ ofText (canonical text), t.SingleSpaced (canonical text) := by
  have split := flatten_lexemes (canonical text).toList
  rw [lexemes_canonical] at split
  rw [ofText, lexemes_canonical]
  have start : Position.start.offset = byteCount [] := rfl
  exact Cell.singleSpaced_scan (sound_spare_cellsOf text) split.symm start

/-- The canonical text has the same tokens. One of them stands apart just when it can start a
    declaration, the token before it can end one, and it stood apart in the text; and then there is
    one space in front of it. -/
theorem ofText_canonical (text : String) :
    (ofText (canonical text)).map Token.kind = (ofText text).map Token.kind ∧
    ∀ i t u, (ofText text)[i]? = some t → (ofText (canonical text))[i]? = some u →
      (u.isSeparated = true ↔ t.kind.startsDeclaration = true ∧ t.isSeparated = true ∧
        ∃ j before, i = j + 1 ∧ (ofText text)[j]? = some before ∧
          before.kind.endsDeclaration = true) ∧
      u.SingleSpaced (canonical text) := by
  have marks := map_mark_ofText_canonical text
  constructor
  · have kinds := congrArg (List.map Mark.kind) marks
    rw [Mark.map_kind_spare, List.map_map, List.map_map] at kinds
    exact kinds
  · intro i t u ht hu
    refine ⟨?_, singleSpaced_ofText_canonical text u (List.mem_of_getElem? hu)⟩
    have here := congrArg (·[i]?) marks
    simp only [Mark.getElem?_spare, List.getElem?_map, ht, hu, Option.map_some,
      Option.some.injEq] at here
    have apart : u.isSeparated = (t.isSeparated &&
        Mark.closedAt false ((ofText text).map mark) i && t.kind.startsDeclaration) :=
      congrArg Mark.apart here
    rw [apart, Bool.and_eq_true, Bool.and_eq_true, Mark.closedAt_map_mark]
    exact and_comm

theorem ofText_canonical_name_behind_list :
    ∃ t u, (ofText "\x7ba : [T!]\n;b: 1x\x7d")[7]? = some t ∧
      (ofText (canonical "\x7ba : [T!]\n;b: 1x\x7d"))[7]? = some u ∧
      t.kind = .name "b" ∧ u.isSeparated = true ∧
      (u.isSeparated = true ↔ t.kind.startsDeclaration = true ∧ t.isSeparated = true ∧
        ∃ j before, 7 = j + 1 ∧ (ofText "\x7ba : [T!]\n;b: 1x\x7d")[j]? = some before ∧
          before.kind.endsDeclaration = true) ∧
      u.SingleSpaced (canonical "\x7ba : [T!]\n;b: 1x\x7d") := by
  have read : ((ofText "\x7ba : [T!]\n;b: 1x\x7d")[7]?).map kind = some (.name "b") := by
    decide +kernel
  have stays : ((ofText (canonical "\x7ba : [T!]\n;b: 1x\x7d"))[7]?).map isSeparated =
      some true := by decide +kernel
  obtain ⟨t, ht, name⟩ := Option.map_eq_some_iff.mp read
  obtain ⟨u, hu, separated⟩ := Option.map_eq_some_iff.mp stays
  exact ⟨t, u, ht, hu, name, separated, (ofText_canonical _).2 7 t u ht hu⟩

end Token

end ShapeSchema
