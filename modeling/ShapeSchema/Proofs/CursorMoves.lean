import ShapeSchema.Syntax.Grammar
set_option autoImplicit false

namespace ShapeSchema

/-- `s'` is `s` moved over the tokens `used`. -/
structure Cursor.Moves (s : Cursor) (used : List Token) (s' : Cursor) : Prop where
  rest : s.rest = used ++ s'.rest
  openers : s'.openers = s.openers
  depth : s'.depth = s.depth
  lastEnd : s'.lastEnd = (used.getLast?.map (·.span.stop)).or s.lastEnd

def Cursor.Reads (s : Cursor) (t : Token) (s' : Cursor) : Prop :=
  ∃ rest, s.rest = t :: rest ∧ s' = s.advance t rest

theorem Cursor.Reads.moves {s s' : Cursor} {t : Token} (h : s.Reads t s') : s.Moves [t] s' := by
  obtain ⟨rest, hr, rfl⟩ := h
  exact ⟨hr, rfl, rfl, rfl⟩

namespace Cursor.Moves

theorem refl (s : Cursor) : s.Moves [] s := ⟨rfl, rfl, rfl, rfl⟩

theorem trans {s s' s'' : Cursor} {us vs : List Token} (h : s.Moves us s') (h' : s'.Moves vs s'') :
    s.Moves (us ++ vs) s'' where
  rest := by rw [h.rest, h'.rest, List.append_assoc]
  openers := h'.openers.trans h.openers
  depth := h'.depth.trans h.depth
  lastEnd := by
    rw [h'.lastEnd, h.lastEnd, List.getLast?_append, Option.map_or, Option.or_assoc]

theorem announced {s s' : Cursor} {used : List Token} (h : s.Moves used s')
    (notices : List Notice) : s.Moves used { s' with notices } :=
  ⟨h.rest, h.openers, h.depth, h.lastEnd⟩

theorem rest_eq {s s' : Cursor} {used rest : List Token} (h : s.Moves used s')
    (hs : s.rest = used ++ rest) : s'.rest = rest :=
  List.append_cancel_left (h.rest.symm.trans hs)

theorem lastEnd_eq {s s' : Cursor} {used : List Token} {last : Token} (h : s.Moves used s')
    (hl : used.getLast? = some last) : s'.lastEnd = some last.span.stop := by
  rw [h.lastEnd, hl]
  rfl

end Cursor.Moves

namespace Parse

variable {α β : Type}

theorem bind_eq_ok {p : Parse α} {f : α → Parse β} {s s'' : Cursor} {b : β} :
    (p >>= f) s = .ok b s'' ↔ ∃ a s', p s = .ok a s' ∧ f a s' = .ok b s'' := by
  simp only [bind, EStateM.bind]
  cases p s with
  | ok a s' =>
    constructor
    · intro h
      exact ⟨a, s', rfl, h⟩
    · rintro ⟨_, _, ⟨⟩, h⟩
      exact h
  | error e s' => simp

theorem bind_ok {p : Parse α} {f : α → Parse β} {s s' s'' : Cursor} {a : α} {b : β}
    (first : p s = .ok a s') (later : f a s' = .ok b s'') : (p >>= f) s = .ok b s'' :=
  bind_eq_ok.mpr ⟨a, s', first, later⟩

theorem pure_eq_ok {a b : α} {s s' : Cursor} :
    (pure a : Parse α) s = .ok b s' ↔ b = a ∧ s' = s := by
  simp [pure, EStateM.pure, eq_comm]

theorem fail_ne_ok {error : Cursor → ParseError} {s s' : Cursor} {a : α} :
    (fail error : Parse α) s ≠ .ok a s' := by
  simp [fail]

theorem refuse_ne_ok {expected : List Expected} {s s' : Cursor} {a : α} :
    (refuse expected : Parse α) s ≠ .ok a s' := fail_ne_ok

theorem throw_ne_ok {e : ParseError} {s s' : Cursor} {a : α} :
    (throw e : Parse α) s ≠ .ok a s' := by
  change EStateM.Result.error e s ≠ _
  simp

theorem accept_eq_some {p : Punctuator} {s s' : Cursor} {t : Token} :
    accept p s = .ok (some t) s' ↔ t.kind = .punctuator p ∧ s.Reads t s' := by
  unfold accept Cursor.Reads
  cases hr : s.rest with
  | nil => simp
  | cons u rest =>
    by_cases hu : u.kind = .punctuator p
    · simp only [hu, if_true]
      constructor
      · rintro ⟨⟩
        exact ⟨hu, rest, rfl, rfl⟩
      · rintro ⟨-, _, ⟨⟩, rfl⟩
        rfl
    · simp only [hu, if_false]
      constructor
      · rintro ⟨⟩
      · rintro ⟨ht, _, ⟨⟩, -⟩
        exact absurd ht hu

theorem accept_eq_none {p : Punctuator} {s s' : Cursor} :
    accept p s = .ok none s' ↔ s' = s ∧ ∀ t ∈ s.rest.head?, t.kind ≠ .punctuator p := by
  unfold accept
  cases hr : s.rest with
  | nil => simp [eq_comm]
  | cons u rest =>
    by_cases hu : u.kind = .punctuator p
    · simp [hu]
    · simp [hu, eq_comm]

theorem expect_eq_ok {p : Punctuator} {s s' : Cursor} {t : Token} :
    expect p s = .ok t s' ↔ t.kind = .punctuator p ∧ s.Reads t s' := by
  rw [← accept_eq_some]
  simp only [expect, bind_eq_ok]
  constructor
  · rintro ⟨o, s1, h, h'⟩
    cases o with
    | none => exact absurd h' refuse_ne_ok
    | some u =>
      obtain ⟨rfl, rfl⟩ := pure_eq_ok.mp h'
      exact h
  · intro h
    exact ⟨some t, s', h, rfl⟩

theorem byteSpan_eq_ok {span : Span} {s s' : Cursor} {b : ByteSpan} :
    byteSpan span s = .ok b s' ↔ span.Fits ∧ b = span.offsets ∧ s' = s := by
  unfold byteSpan
  cases h : span.bytes? with
  | none =>
    have large : ¬ span.Fits := fun fits => by
      rw [Span.bytes?_eq_some.mpr ⟨fits, rfl⟩] at h
      cases h
    simp [large, throw_ne_ok]
  | some bytes =>
    obtain ⟨fits, rfl⟩ := Span.bytes?_eq_some.mp h
    simp [fits, pure_eq_ok]

def byteAt : Option Position → Parse Nat
  | none => pure 0
  | some p => do return (← byteSpan (.empty p)).stop

theorem reachedByte_eq (s : Cursor) : reachedByte s = byteAt s.lastEnd s := rfl

theorem reachedByte_eq_ok {s s' : Cursor} {n : Nat} :
    reachedByte s = .ok n s' ↔
      s' = s ∧ (∀ p ∈ s.lastEnd, p.offset ≤ ByteSpan.limit) ∧
        n = (s.lastEnd.map Position.offset).getD 0 := by
  rw [reachedByte_eq]
  cases s.lastEnd with
  | none => simp [byteAt, pure_eq_ok, and_comm]
  | some p =>
    simp only [byteAt, bind_eq_ok, byteSpan_eq_ok, pure_eq_ok]
    constructor
    · rintro ⟨b, s1, ⟨fits, rfl, rfl⟩, rfl, rfl⟩
      refine ⟨rfl, ?_, rfl⟩
      rintro _ ⟨⟩
      exact fits.2
    · rintro ⟨rfl, fits, rfl⟩
      have := fits p rfl
      exact ⟨_, _, ⟨⟨this, this⟩, rfl, rfl⟩, rfl, rfl⟩

theorem nextIs_eq_ok {p : Punctuator} {s s' : Cursor} {b : Bool} :
    nextIs p s = .ok b s' ↔ b = s.rest.head?.any (·.kind == .punctuator p) ∧ s' = s := by
  simp [nextIs, eq_comm]

theorem nextName?_eq_ok {s s' : Cursor} {n : Option String} :
    nextName? s = .ok n s' ↔ n = s.rest.head?.bind (·.kind.name?) ∧ s' = s := by
  simp [nextName?, eq_comm]

theorem name_eq_ok {role : Expected} {s s' : Cursor} {n : Syntax.Name ByteSpan} :
    name role s = .ok n s' ↔
      ∃ t, t.kind = .name n.text ∧ n.span = t.span.offsets ∧ t.span.Fits ∧ s.Reads t s' := by
  simp only [name, bind_eq_ok]
  constructor
  · rintro ⟨o, s1, h, h'⟩
    unfold acceptName at h
    split at h
    · cases h
      exact absurd h' refuse_ne_ok
    · next t rest hr =>
      split at h
      · next text ht =>
        cases h
        obtain ⟨b, s2, hb, h'⟩ := bind_eq_ok.mp h'
        obtain ⟨fits, rfl, rfl⟩ := byteSpan_eq_ok.mp hb
        obtain ⟨rfl, rfl⟩ := pure_eq_ok.mp h'
        exact ⟨t, ht, rfl, fits, rest, hr, rfl⟩
      · cases h
        exact absurd h' refuse_ne_ok
  · rintro ⟨t, ht, hn, fits, rest, hr, rfl⟩
    refine ⟨some (n.text, t.span), s.advance t rest, ?_, ?_⟩
    · simp only [acceptName, hr, ht]
    · apply bind_ok (byteSpan_eq_ok.mpr ⟨fits, rfl, rfl⟩)
      rw [← hn]
      rfl

theorem opened_eq_ok {c : Construct} {t : Token} {s s' : Cursor} {u : Unit} :
    opened c t s = .ok u s' ↔ s' = { s with openers := ⟨c, t.span⟩ :: s.openers } := by
  change EStateM.Result.ok () _ = _ ↔ _
  simp [eq_comm]

def closing : List Opener → Parse Unit
  | [] => fail fun s => .noOpenDelimiter s.nextSpan
  | opener :: _ => do
    let _ ← expect opener.construct.closer
    modify fun s => { s with openers := s.openers.tail }

theorem close_eq (s : Cursor) : close s = closing s.openers s := rfl

theorem close_eq_ok {s s' : Cursor} {u : Unit} :
    close s = .ok u s' ↔
      ∃ opener outer t s1, s.openers = opener :: outer ∧
        t.kind = .punctuator opener.construct.closer ∧ s.Reads t s1 ∧
        s' = { s1 with openers := outer } := by
  rw [close_eq]
  cases ho : s.openers with
  | nil => simp [closing, fail_ne_ok]
  | cons opener outer =>
    simp only [closing, bind_eq_ok, expect_eq_ok]
    constructor
    · rintro ⟨t, s1, ⟨ht, hr⟩, h⟩
      have h : EStateM.Result.ok () { s1 with openers := s1.openers.tail } = .ok u s' := h
      cases h
      have same : s1.openers = opener :: outer := hr.moves.openers.trans ho
      exact ⟨opener, outer, t, s1, rfl, ht, hr, by rw [same]; rfl⟩
    · rintro ⟨_, _, t, s1, ⟨⟩, ht, hr, rfl⟩
      have same : s1.openers = opener :: outer := hr.moves.openers.trans ho
      refine ⟨t, s1, ⟨ht, hr⟩, ?_⟩
      change EStateM.Result.ok () { s1 with openers := s1.openers.tail } = _
      rw [same]
      rfl

theorem separated_eq_ok {declarations : String} {s s' : Cursor} {u : Unit} :
    separated declarations s = .ok u s' ↔
      s' = s ∧ ∀ t ∈ s.rest.head?, t.isSeparated = true := by
  unfold separated
  cases hr : s.rest with
  | nil =>
    constructor
    · rintro ⟨⟩
      exact ⟨rfl, by simp⟩
    · rintro ⟨rfl, -⟩
      rfl
  | cons t rest =>
    by_cases ht : t.isSeparated = true
    · simp only [ht, if_true]
      constructor
      · rintro ⟨⟩
        exact ⟨rfl, by rintro _ ⟨⟩; exact ht⟩
      · rintro ⟨rfl, -⟩
        rfl
    · simp [ht]

theorem announce_eq_ok {ahead : Nat} {level : Level} {text : String} {s s' : Cursor} {u : Unit} :
    announce ahead level text s = .ok u s' ↔
      s' = { s with notices := ⟨s.rest.length - ahead, ⟨level, text⟩⟩ :: s.notices } := by
  change EStateM.Result.ok () _ = _ ↔ _
  simp [eq_comm]

theorem deeper_eq_ok {p : Parse α} {s s' : Cursor} {a : α} :
    deeper p s = .ok a s' ↔
      ∃ s1, p { s with depth := s.depth + 1 } = .ok a s1 ∧
        s' = { s1 with depth := s1.depth - 1 } := by
  unfold deeper
  cases p { s with depth := s.depth + 1 } with
  | ok b s1 =>
    constructor
    · rintro ⟨⟩
      exact ⟨s1, rfl, rfl⟩
    · rintro ⟨_, ⟨⟩, rfl⟩
      rfl
  | error e s1 => simp

theorem collect_eq_nil {step : Nat → Parse (Option α)} {h : ∀ n, Spends roundCost (step n)}
    {n : Nat} {s s' : Cursor} :
    collect step h n s = .ok [] s' ↔ step n s = .ok none s' := by
  rw [collect_eq]
  simp only [bind_eq_ok]
  constructor
  · rintro ⟨o, s1, hs, h'⟩
    cases o with
    | none =>
      obtain ⟨-, rfl⟩ := pure_eq_ok.mp h'
      exact hs
    | some a =>
      obtain ⟨as, s2, -, h'⟩ := bind_eq_ok.mp h'
      cases (pure_eq_ok.mp h').1
  · intro hs
    exact ⟨none, s', hs, rfl⟩

theorem collect_eq_cons {step : Nat → Parse (Option α)} {h : ∀ n, Spends roundCost (step n)}
    {n : Nat} {s s'' : Cursor} {a : α} {as : List α} :
    collect step h n s = .ok (a :: as) s'' ↔
      ∃ s', step n s = .ok (some a) s' ∧ collect step h (n + 1) s' = .ok as s'' := by
  conv => lhs; rw [collect_eq]
  simp only [bind_eq_ok]
  constructor
  · rintro ⟨o, s1, hs, h'⟩
    cases o with
    | none => cases (pure_eq_ok.mp h').1
    | some b =>
      obtain ⟨bs, s2, hb, h'⟩ := bind_eq_ok.mp h'
      obtain ⟨same, rfl⟩ := pure_eq_ok.mp h'
      cases same
      exact ⟨s1, hs, hb⟩
  · rintro ⟨s1, hs, hc⟩
    exact ⟨some a, s1, hs, bind_eq_ok.mpr ⟨as, s'', hc, rfl⟩⟩

theorem collect_bind_eq_ok {step : Nat → Parse (Option α)} {h : ∀ n, Spends roundCost (step n)}
    {n : Nat} {f : List α → Parse β} {s s'' : Cursor} {b : β} :
    (bind (m := Parse) (collect step h n) f) s = .ok b s'' ↔
      ∃ as s', collect step h n s = .ok as s' ∧ f as s' = .ok b s'' := bind_eq_ok

theorem collect_bind_ok {step : Nat → Parse (Option α)} {h : ∀ n, Spends roundCost (step n)}
    {n : Nat} {f : List α → Parse β} {s s' s'' : Cursor} {as : List α} {b : β}
    (first : collect step h n s = .ok as s') (later : f as s' = .ok b s'') :
    (bind (m := Parse) (collect step h n) f) s = .ok b s'' := bind_ok first later

end Parse

end ShapeSchema
