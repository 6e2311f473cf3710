import ShapeSchema.Proofs.MachineSimulation
set_option autoImplicit false

/-!
# One token of lookahead

What a grammar rule does depends on the tokens that it reads and on the next one behind them, which
it may look at. Tokens further behind can be others without any difference, notices apart. Where a
rule fails at the next token, the error points there.
-/

namespace ShapeSchema

def Token.Plain (t : Token) : Prop :=
  t.kind ≠ .endOfInput ∧ ∀ message notes, t.kind ≠ .invalid message notes

def Cursor.facing (s : Cursor) (rest : List Token) (notices : List Notice) : Cursor :=
  { s with rest, notices }

def Cause.LiesAhead : Cause → Prop
  | .unexpectedToken _ _ | .unexpectedEnd _ | .invalidToken | .unclosedDelimiter _
  | .mismatchedDelimiter _ _ => True
  | _ => False

theorem Cursor.liesAhead_unexpected (s : Cursor) (expected : List Expected) :
    (s.unexpected expected).cause.LiesAhead := by
  have atEnd : (s.endError expected).cause.LiesAhead := by
    unfold endError
    split <;> trivial
  unfold unexpected
  split
  · exact atEnd
  · split
    · exact atEnd
    · trivial
    · split <;> trivial

theorem Parse.liesAhead_colonError (name : String) (s : Cursor) :
    (colonError name s).cause.LiesAhead := by
  unfold colonError
  dsimp only
  split <;> exact s.liesAhead_unexpected _

theorem Parse.liesAhead_parameterListError (s : Cursor) :
    (parameterListError s).cause.LiesAhead := by
  unfold parameterListError
  dsimp only
  split <;> exact s.liesAhead_unexpected _

namespace ParseError

/-- The error is about the next token, or about the end of input: its cause is neither an empty
    construct nor a limit. -/
structure Telling (e : ParseError) : Prop where
  full : ∀ construct, e.cause ≠ .emptyConstruct construct
  within : e.cause ≠ .invalidSyntax

structure IsEnd (e : ParseError) (reached : Position) : Prop where
  cause : (∃ delimiter, e.cause = .unclosedDelimiter delimiter) ∨
    ∃ expected, e.cause = .unexpectedEnd expected
  span : e.span = .empty reached

/-- The error points at the next token, or it is that input ends there. -/
def PointsAt (e : ParseError) (reached : Position) : Option Token → Prop
  | none => e.IsEnd reached
  | some t => if t.kind = .endOfInput then e.IsEnd reached else e.span = t.span

def Located (e : ParseError) (s : Cursor) : Prop :=
  e.Telling → e.PointsAt s.reached s.rest.head?

theorem isEnd_endError (s : Cursor) (expected : List Expected) :
    (s.endError expected).IsEnd s.reached := by
  unfold Cursor.endError
  cases s.openers with
  | nil => exact ⟨.inr ⟨_, rfl⟩, rfl⟩
  | cons opener outer => exact ⟨.inl ⟨_, rfl⟩, rfl⟩

theorem pointsAt_unexpected (s : Cursor) (expected : List Expected) :
    (s.unexpected expected).PointsAt s.reached s.rest.head? := by
  unfold Cursor.unexpected
  cases s.rest with
  | nil => exact isEnd_endError s expected
  | cons t rest =>
    simp only [List.head?_cons, PointsAt]
    cases hk : t.kind with
    | endOfInput => exact isEnd_endError s expected
    | invalid message notes => rfl
    | punctuator p =>
      rw [if_neg (by simp)]
      dsimp only
      split <;> rfl
    | name text =>
      rw [if_neg (by simp)]
      dsimp only
      split <;> rfl

theorem PointsAt.addHelp {e : ParseError} {reached : Position} {next : Option Token}
    (h : e.PointsAt reached next) (message : String) :
    (e.addHelp message).PointsAt reached next := by
  have kept (isEnd : e.IsEnd reached) : (e.addHelp message).IsEnd reached :=
    ⟨isEnd.cause, isEnd.span⟩
  cases next with
  | none => exact kept h
  | some t =>
    unfold PointsAt at h ⊢
    dsimp only at h ⊢
    split at h
    · next hk => exact if_pos hk ▸ kept h
    · next hk => exact if_neg hk ▸ h

end ParseError

namespace Parse

variable {α β : Type}

def behind : EStateM.Result ParseError Cursor α → Cursor
  | .ok _ s => s
  | .error _ s => s

def facing (result : EStateM.Result ParseError Cursor α) (rest : List Token)
    (notices : List Notice) : EStateM.Result ParseError Cursor α :=
  match result with
  | .ok a s => .ok a (s.facing rest notices)
  | .error e s => .error e (s.facing rest notices)

/-- From `s` on `p` reads `used` and comes to `result`; it does the same in front of any list that
    goes on with these tokens and the same next one. -/
structure Follows (p : Parse α) (s : Cursor) (used : List Token)
    (result : EStateM.Result ParseError Cursor α) : Prop where
  runs : p s = result
  rest : s.rest = used ++ (behind result).rest
  lastEnd : (behind result).lastEnd = (used.getLast?.map (·.span.stop)).or s.lastEnd
  plain : ∀ t ∈ used, t.Plain
  located : ∀ e s', result = .error e s' → e.Located s'
  again : ∀ rest notices, rest.head? = (behind result).rest.head? →
    ∃ notices', p (s.facing (used ++ rest) notices) = facing result rest notices'

def LooksAheadFrom (p : Parse α) (s : Cursor) : Prop := ∃ used result, Follows p s used result

/-- `p` looks at most one token ahead. -/
def LooksAhead (p : Parse α) : Prop := ∀ s, LooksAheadFrom p s

theorem bind_error {p : Parse α} {f : α → Parse β} {s s' : Cursor} {e : ParseError}
    (h : p s = .error e s') : (p >>= f) s = .error e s' := by
  simp only [bind, EStateM.bind, h]

theorem bind_of_ok {p : Parse α} {f : α → Parse β} {s s' : Cursor} {a : α}
    (h : p s = .ok a s') : (p >>= f) s = f a s' := by
  simp only [bind, EStateM.bind, h]

theorem LooksAheadFrom.bind {p : Parse α} {f : α → Parse β} {s : Cursor} (hp : LooksAheadFrom p s)
    (hf : ∀ a s', p s = .ok a s' → LooksAheadFrom (f a) s') : LooksAheadFrom (p >>= f) s := by
  obtain ⟨us, result, first⟩ := hp
  cases result with
  | error e s' =>
    refine ⟨us, .error e s', bind_error first.runs, first.rest, first.lastEnd, first.plain, ?_, ?_⟩
    · rintro _ _ ⟨⟩
      exact first.located e s' rfl
    · intro rest notices hrest
      obtain ⟨notices', again⟩ := first.again rest notices hrest
      exact ⟨notices', bind_error again⟩
  | ok a s' =>
    obtain ⟨vs, result, second⟩ := hf a s' first.runs
    have firstRest : s.rest = us ++ s'.rest := first.rest
    have firstEnd : s'.lastEnd = (us.getLast?.map (·.span.stop)).or s.lastEnd := first.lastEnd
    refine ⟨us ++ vs, result, (bind_of_ok first.runs).trans second.runs, ?_, ?_, ?_,
      second.located, ?_⟩
    · rw [firstRest, second.rest, List.append_assoc]
    · rw [second.lastEnd, firstEnd, List.getLast?_append, Option.map_or, Option.or_assoc]
    · exact List.forall_mem_append.mpr ⟨first.plain, second.plain⟩
    · intro rest notices hrest
      have next : (vs ++ rest).head? = s'.rest.head? := by
        rw [second.rest, List.head?_append, List.head?_append, hrest]
      obtain ⟨between, againFirst⟩ := first.again (vs ++ rest) notices next
      obtain ⟨notices', againSecond⟩ := second.again rest between hrest
      rw [List.append_assoc]
      exact ⟨notices', (bind_of_ok againFirst).trans againSecond⟩

theorem LooksAheadFrom.of_still {p : Parse α} {s : Cursor}
    {result : Cursor → EStateM.Result ParseError Cursor α}
    (runs : ∀ s, p s = result s) (stays : ∀ s, behind (result s) = s)
    (located : ∀ e s', result s = .error e s' → e.Located s')
    (again : ∀ s rest notices, rest.head? = s.rest.head? →
      result (s.facing rest notices) = facing (result s) rest notices) : LooksAheadFrom p s := by
  refine ⟨[], result s, runs s, ?_, ?_, by simp, located, fun rest notices hrest => ?_⟩
  · rw [stays, List.nil_append]
  · rw [stays]
    rfl
  · rw [stays] at hrest
    exact ⟨notices, (runs _).trans (again s rest notices hrest)⟩

namespace LooksAhead

variable {p : Parse α}

theorem bind {f : α → Parse β} (hp : LooksAhead p) (hf : ∀ a, LooksAhead (f a)) :
    LooksAhead (p >>= f) := fun s => (hp s).bind fun a s' _ => hf a s'

theorem pure (a : α) : LooksAhead (Pure.pure a : Parse α) := fun _ =>
  .of_still (fun _ => rfl) (fun _ => rfl) nofun fun _ _ _ _ => rfl

theorem fail {error : Cursor → ParseError} (located : ∀ s, (error s).Located s)
    (blind : ∀ s rest notices, rest.head? = s.rest.head? →
      error (s.facing rest notices) = error s) :
    LooksAhead (Parse.fail error : Parse α) := by
  intro s
  refine .of_still (fun _ => rfl) (fun _ => rfl) ?_ fun s rest notices hrest => ?_
  · rintro _ _ ⟨⟩
    exact located s
  · exact congrArg (fun e => EStateM.Result.error e (s.facing rest notices))
      (blind s rest notices hrest)

/-- What a step does may depend on a part of the cursor that the tokens ahead have no part in. -/
theorem of_view {γ : Type} (view : Cursor → γ) (f : γ → Parse α)
    (runs : ∀ s, p s = f (view s) s)
    (blind : ∀ s rest notices, view (s.facing rest notices) = view s)
    (h : ∀ c, LooksAhead (f c)) : LooksAhead p := by
  intro s
  obtain ⟨used, result, follows⟩ := h (view s) s
  refine ⟨used, result, (runs s).trans follows.runs, follows.rest, follows.lastEnd, follows.plain,
    follows.located, fun rest notices hrest => ?_⟩
  obtain ⟨notices', again⟩ := follows.again rest notices hrest
  refine ⟨notices', ?_⟩
  rw [runs, blind]
  exact again

theorem throw {e : ParseError} (elsewhere : (∃ construct, e.cause = .emptyConstruct construct) ∨
    e.cause = .invalidSyntax) : LooksAhead (throw e : Parse α) := by
  intro s
  refine .of_still (fun _ => rfl) (fun _ => rfl) ?_ fun _ _ _ _ => rfl
  rintro _ _ ⟨⟩ telling
  rcases elsewhere with ⟨construct, h⟩ | h
  · exact absurd h (telling.full construct)
  · exact absurd h telling.within

end LooksAhead

theorem unexpected_facing {s : Cursor} {rest : List Token} (h : rest.head? = s.rest.head?)
    (notices : List Notice) (expected : List Expected) :
    (s.facing rest notices).unexpected expected = s.unexpected expected := by
  rw [← Cursor.unexpected_place, ← s.unexpected_place]
  exact congrArg (fun next => (s.place.cursor next).unexpected expected) h

theorem nextSpan_facing {s : Cursor} {rest : List Token} (h : rest.head? = s.rest.head?)
    (notices : List Notice) : (s.facing rest notices).nextSpan = s.nextSpan := by
  rw [← Cursor.nextSpan_place, ← s.nextSpan_place]
  exact congrArg (fun next => (s.place.cursor next).nextSpan) h

theorem refuse_looksAhead (expected : List Expected) :
    LooksAhead (refuse expected : Parse α) :=
  .fail (fun s _ => ParseError.pointsAt_unexpected s expected)
    fun _ _ notices h => unexpected_facing h notices expected

theorem nextIs_looksAhead (p : Punctuator) : LooksAhead (nextIs p) := fun _ =>
  .of_still (fun _ => rfl) (fun _ => rfl) nofun fun s rest notices h => by
    change EStateM.Result.ok (rest.head?.any _) _ = _
    rw [h]
    rfl

theorem nextName?_looksAhead : LooksAhead nextName? := fun _ =>
  .of_still (fun _ => rfl) (fun _ => rfl) nofun fun s rest notices h => by
    change EStateM.Result.ok (rest.head?.bind _) _ = _
    rw [h]
    rfl

theorem LooksAhead.of_reading {p : Parse (Option α)} (sort : Token → Option α)
    (plain : ∀ t a, sort t = some a → t.Plain)
    (runs : ∀ s, p s = match s.rest with
      | [] => .ok none s
      | t :: rest => match sort t with
        | some a => .ok (some a) (s.advance t rest)
        | none => .ok none s) : LooksAhead p := by
  intro s
  have still (h : ∀ t ∈ s.rest.head?, sort t = none) (rest : List Token) (notices : List Notice)
      (hrest : rest.head? = s.rest.head?) :
      p (s.facing rest notices) = .ok none (s.facing rest notices) := by
    rw [runs]
    change (match rest with
      | [] => _
      | t :: rest => _) = _
    cases rest with
    | nil => rfl
    | cons t rest =>
      dsimp only
      rw [h t (hrest ▸ rfl)]
  cases hr : s.rest with
  | nil =>
    have none : ∀ t ∈ s.rest.head?, sort t = Option.none := by simp [hr]
    refine ⟨[], .ok Option.none s, still none s.rest s.notices rfl, rfl, rfl, by simp,
      nofun, fun rest notices h => ⟨notices, still none rest notices h⟩⟩
  | cons t rest =>
    cases ht : sort t with
    | none =>
      have none : ∀ t ∈ s.rest.head?, sort t = Option.none := by simpa [hr] using ht
      refine ⟨[], .ok Option.none s, still none s.rest s.notices rfl, rfl, rfl, by simp,
        nofun, fun rest notices h => ⟨notices, still none rest notices h⟩⟩
    | some a =>
      refine ⟨[t], .ok (some a) (s.advance t rest), ?_, hr, rfl, ?_, nofun,
        fun rest notices _ => ⟨notices, ?_⟩⟩
      · rw [runs, hr]
        dsimp only
        rw [ht]
      · simpa using plain t a ht
      · rw [runs]
        change (match sort t with
          | some a => _
          | Option.none => _) = _
        rw [ht]
        rfl

theorem accept_looksAhead (p : Punctuator) : LooksAhead (accept p) := by
  refine .of_reading (fun t => if t.kind = .punctuator p then some t else none)
    (fun t a h => ?_) fun s => ?_
  · split at h
    · next hk => simp [Token.Plain, hk]
    · cases h
  · unfold accept
    cases s.rest with
    | nil => rfl
    | cons t rest =>
      dsimp only
      split <;> rfl

theorem acceptName_looksAhead : LooksAhead acceptName := by
  refine .of_reading (fun t => t.kind.name?.map fun text => (text, t.span))
    (fun t a h => ?_) fun s => ?_
  · cases hk : t.kind with
    | name text => simp [Token.Plain, hk]
    | _ => simp [hk, Token.Kind.name?] at h
  · unfold acceptName
    cases s.rest with
    | nil => rfl
    | cons t rest =>
      dsimp only
      cases t.kind <;> rfl

theorem expect_looksAhead (p : Punctuator) : LooksAhead (expect p) :=
  (accept_looksAhead p).bind fun
    | some _ => .pure _
    | none => refuse_looksAhead _

theorem byteSpan_looksAhead (span : Span) : LooksAhead (byteSpan span) := by
  unfold byteSpan
  split
  · exact .pure _
  · exact .throw (.inr rfl)

theorem reachedByte_looksAhead : LooksAhead reachedByte := by
  refine .of_view Cursor.lastEnd byteAt reachedByte_eq (fun _ _ _ => rfl) fun o => ?_
  cases o with
  | none => exact .pure _
  | some p => exact (byteSpan_looksAhead _).bind fun _ => .pure _

theorem name_looksAhead (role : Expected) : LooksAhead (name role) :=
  acceptName_looksAhead.bind fun
    | some _ => (byteSpan_looksAhead _).bind fun _ => .pure _
    | none => refuse_looksAhead _

theorem modify_looksAhead {change : Cursor → Cursor} (rest : ∀ s, (change s).rest = s.rest)
    (lastEnd : ∀ s, (change s).lastEnd = s.lastEnd)
    (blind : ∀ s rest notices, ∃ notices',
      change (s.facing rest notices) = (change s).facing rest notices') :
    LooksAhead (modify change : Parse Unit) := by
  intro s
  refine ⟨[], .ok () (change s), rfl, (rest s).symm, lastEnd s, by simp, nofun, ?_⟩
  intro ts notices _
  obtain ⟨notices', h⟩ := blind s ts notices
  exact ⟨notices', congrArg (EStateM.Result.ok ()) h⟩

theorem opened_looksAhead (c : Construct) (t : Token) : LooksAhead (opened c t) :=
  modify_looksAhead (fun _ => rfl) (fun _ => rfl) fun _ _ notices => ⟨notices, rfl⟩

theorem announce_looksAhead (ahead : Nat) (level : Level) (text : String) :
    LooksAhead (announce ahead level text) :=
  modify_looksAhead (fun _ => rfl) (fun _ => rfl) fun _ _ _ => ⟨_, rfl⟩

theorem close_looksAhead : LooksAhead close := by
  refine .of_view Cursor.openers closing close_eq (fun _ _ _ => rfl) fun openers => ?_
  cases openers with
  | nil =>
    refine .fail (fun s telling => absurd rfl telling.within) fun s rest notices h => ?_
    rw [nextSpan_facing h]
  | cons opener _ =>
    exact (expect_looksAhead _).bind fun _ =>
      modify_looksAhead (fun _ => rfl) (fun _ => rfl) fun _ _ notices => ⟨notices, rfl⟩

theorem LooksAheadFrom.of_check {p : Parse Unit} (check : Option Token → Option ParseError)
    {s : Cursor}
    (runs : ∀ s, p s = match check s.rest.head? with
      | none => .ok () s
      | some e => .error e s)
    (located : ∀ e, check s.rest.head? = some e → ∃ t, s.rest.head? = some t ∧
      t.kind ≠ .endOfInput ∧ e.span = t.span) : LooksAheadFrom p s := by
  refine .of_still runs (fun s => ?_) (fun e s' h _ => ?_) fun s rest notices hrest => ?_
  · cases check s.rest.head? <;> rfl
  · cases hc : check s.rest.head? with
    | none =>
      rw [hc] at h
      cases h
    | some e =>
      rw [hc] at h
      cases h
      obtain ⟨t, ht, hk, hspan⟩ := located e hc
      unfold ParseError.PointsAt
      rw [ht]
      dsimp only
      rw [if_neg hk]
      exact hspan
  · change (match check rest.head? with
      | none => _
      | some e => _) = _
    rw [hrest]
    cases check s.rest.head? <;> rfl

theorem separated_looksAhead (declarations : String) {s : Cursor}
    (h : ∀ t ∈ s.rest.head?, t.kind ≠ .endOfInput) : LooksAheadFrom (separated declarations) s := by
  refine .of_check
    (fun next => next.bind fun t =>
      if t.isSeparated then none else some (.missingSeparator declarations t.kind.text t.span))
    (fun s => ?_) fun e he => ?_
  · unfold separated
    cases s.rest with
    | nil => rfl
    | cons t rest =>
      dsimp only [List.head?_cons, Option.bind_some]
      split <;> rfl
  · obtain ⟨t, ht, hs⟩ := Option.bind_eq_some_iff.mp he
    split at hs
    · cases hs
    · cases hs
      exact ⟨t, ht, h t ht, rfl⟩

def trailingError? (t : Token) : Option ParseError :=
  match t.kind with
  | .endOfInput => none
  | .invalid message notes => some (.ofInvalid message t.span notes)
  | kind => some (.trailingInput kind.text t.span)

theorem endOfInput_looksAhead : LooksAhead endOfInput := by
  intro s
  refine .of_check (·.bind trailingError?) (fun s => ?_) fun e he => ?_
  · unfold endOfInput
    cases s.rest with
    | nil => rfl
    | cons t rest =>
      dsimp only [List.head?_cons, Option.bind_some, trailingError?]
      cases t.kind <;> rfl
  · obtain ⟨t, ht, hs⟩ := Option.bind_eq_some_iff.mp he
    refine ⟨t, ht, ?_⟩
    cases hk : t.kind with
    | endOfInput =>
      rw [trailingError?, hk] at hs
      cases hs
    | _ =>
      rw [trailingError?, hk] at hs
      cases hs
      exact ⟨by simp, rfl⟩

def leaving (result : EStateM.Result ParseError Cursor α) : EStateM.Result ParseError Cursor α :=
  match result with
  | .ok a s => .ok a { s with depth := s.depth - 1 }
  | .error e s => .error e { s with depth := s.depth - 1 }

theorem deeper_eq (p : Parse α) (s : Cursor) :
    deeper p s = leaving (p { s with depth := s.depth + 1 }) := rfl

theorem deeper_looksAhead {p : Parse α} (h : LooksAhead p) : LooksAhead (deeper p) := by
  intro s
  obtain ⟨used, result, follows⟩ := h { s with depth := s.depth + 1 }
  have rest : (behind (leaving result)).rest = (behind result).rest := by cases result <;> rfl
  have lastEnd : (behind (leaving result)).lastEnd = (behind result).lastEnd := by
    cases result <;> rfl
  refine ⟨used, leaving result, ?_, ?_, ?_, follows.plain, ?_, fun ts notices hts => ?_⟩
  · rw [deeper_eq, follows.runs]
  · rw [rest]
    exact follows.rest
  · rw [lastEnd]
    exact follows.lastEnd
  · intro e s' he
    cases result with
    | ok a s'' => cases he
    | error e' s'' =>
      cases he
      exact follows.located e s'' rfl
  · rw [rest] at hts
    obtain ⟨notices', again⟩ := follows.again ts notices hts
    refine ⟨notices', (congrArg leaving again).trans ?_⟩
    cases result <;> rfl

theorem collect_looksAhead {step : Nat → Parse (Option α)} {h : ∀ n, Spends roundCost (step n)}
    (hs : ∀ n, LooksAhead (step n)) (n : Nat) : LooksAhead (collect step h n) := by
  intro s
  induction hl : s.rest.length using Nat.strongRecOn generalizing n s with
  | ind len ih =>
    rw [collect_eq]
    refine (hs n s).bind fun o s' hstep => ?_
    cases o with
    | none => exact LooksAhead.pure [] s'
    | some a =>
      have shorter : s'.rest.length < len := by
        have := h n s (some a) s' hstep
        simp only [roundCost] at this
        omega
      exact (ih _ shorter (n + 1) s' rfl).bind fun as s'' _ => LooksAhead.pure (a :: as) s''

theorem bang_looksAhead : LooksAhead bang :=
  (accept_looksAhead _).bind fun
    | some _ => (byteSpan_looksAhead _).bind fun _ => .pure _
    | none => .pure _

theorem typeRule_looksAhead {element : Parse (Syntax.TypeExpr ByteSpan)} (h : LooksAhead element) :
    LooksAhead (typeRule element) :=
  (accept_looksAhead _).bind fun
    | some _ => (byteSpan_looksAhead _).bind fun _ => (opened_looksAhead _ _).bind fun _ =>
        h.bind fun _ => close_looksAhead.bind fun _ => bang_looksAhead.bind fun _ =>
        reachedByte_looksAhead.bind fun _ => .pure _
    | none => (name_looksAhead _).bind fun _ => bang_looksAhead.bind fun _ =>
        reachedByte_looksAhead.bind fun _ => .pure _

theorem typeWithin_looksAhead (levels : Nat) : LooksAhead (typeWithin levels) := by
  induction levels with
  | zero =>
    refine .fail (fun s telling => absurd rfl telling.within) fun s rest notices h => ?_
    rw [nextSpan_facing h]
  | succ levels ih => exact deeper_looksAhead (typeRule_looksAhead ih)

theorem typeExpr_looksAhead : LooksAhead typeExpr :=
  .of_view Cursor.depth (fun depth => typeWithin (maxDepth - depth)) (fun _ => rfl)
    (fun _ _ _ => rfl) fun _ => typeWithin_looksAhead _

theorem colonAfter_looksAhead (name : String) : LooksAhead (colonAfter name) := by
  refine (accept_looksAhead _).bind fun
    | some _ => .pure _
    | none => .fail (fun s _ => ?_) fun s rest notices h => ?_
  · unfold colonError
    have points := ParseError.pointsAt_unexpected s [.punctuator .colon]
    dsimp only
    split
    · exact points.addHelp _
    · exact points
  · unfold colonError
    rw [unexpected_facing h]

theorem parameter_looksAhead : LooksAhead parameter :=
  (name_looksAhead _).bind fun _ => (colonAfter_looksAhead _).bind fun _ =>
    typeExpr_looksAhead.bind fun _ => reachedByte_looksAhead.bind fun _ => .pure _

theorem parameterAfterComma_looksAhead : LooksAhead parameterAfterComma :=
  (accept_looksAhead _).bind fun
    | some _ => parameter_looksAhead.bind fun _ => .pure _
    | none => .pure _

theorem endOfParameters_looksAhead : LooksAhead endOfParameters := by
  refine (nextIs_looksAhead _).bind fun
    | true => .pure _
    | false => .fail (fun s _ => ?_) fun s rest notices h => ?_
  · unfold parameterListError
    have points := ParseError.pointsAt_unexpected s [.punctuator .comma, .punctuator .parenClose]
    dsimp only
    split
    · exact points.addHelp _
    · exact points
  · unfold parameterListError
    rw [unexpected_facing h]
    change (if rest.head?.any _ then _ else _) = _
    rw [h]

theorem parameterItems_looksAhead : LooksAhead parameterItems :=
  parameter_looksAhead.bind fun _ =>
    (collect_looksAhead (fun _ => parameterAfterComma_looksAhead) 0).bind fun _ =>
    endOfParameters_looksAhead.bind fun _ => .pure _

theorem parameters_looksAhead : LooksAhead parameters :=
  (expect_looksAhead _).bind fun _ => (opened_looksAhead _ _).bind fun _ =>
    (accept_looksAhead _).bind fun
      | some _ => .throw (.inl ⟨_, rfl⟩)
      | none => parameterItems_looksAhead.bind fun _ => close_looksAhead.bind fun _ => .pure _

theorem parametersIfAny_looksAhead : LooksAhead parametersIfAny :=
  (nextIs_looksAhead _).bind fun
    | true => parameters_looksAhead
    | false => .pure _

theorem field_looksAhead : LooksAhead field :=
  (name_looksAhead _).bind fun _ => parametersIfAny_looksAhead.bind fun _ =>
    (colonAfter_looksAhead _).bind fun _ => typeExpr_looksAhead.bind fun _ =>
    reachedByte_looksAhead.bind fun _ => .pure _

theorem announcedField_looksAhead : LooksAhead announcedField :=
  field_looksAhead.bind fun _ => (announce_looksAhead _ _ _).bind fun _ => .pure _

theorem declaration_looksAhead (role : Expected) (plural : String) (n : Nat) {item : Parse α}
    (h : LooksAhead item) : LooksAhead (declaration role plural n item) := by
  have last : LooksAhead (do return some (← item) : Parse (Option α)) := h.bind fun _ => .pure _
  refine (nextIs_looksAhead _).bind fun closing => ?_
  cases closing with
  | true => exact .pure _
  | false =>
    refine fun s => (nextName?_looksAhead s).bind fun name s' hs => ?_
    cases hs
    cases hn : s.rest.head?.bind (·.kind.name?) with
    | none => exact refuse_looksAhead _ s
    | some text =>
      obtain ⟨t, ht, hk⟩ := Option.bind_eq_some_iff.mp hn
      have named : ∀ u ∈ s.rest.head?, u.kind ≠ .endOfInput := by
        rw [ht]
        rintro _ ⟨⟩ other
        rw [other] at hk
        cases hk
      by_cases first : n ≠ 0
      · simp only [Option.isNone_some, Bool.false_eq_true, if_false, if_pos first]
        exact (separated_looksAhead plural named).bind fun _ s' _ => last s'
      · simp only [Option.isNone_some, Bool.false_eq_true, if_false, if_neg first]
        exact last s

theorem objectBlock_looksAhead : LooksAhead objectBlock :=
  (expect_looksAhead _).bind fun _ => (byteSpan_looksAhead _).bind fun _ =>
    (opened_looksAhead _ _).bind fun _ =>
    (collect_looksAhead (fun _ => declaration_looksAhead _ _ _ announcedField_looksAhead) 0).bind
      fun _ => close_looksAhead.bind fun _ => (announce_looksAhead _ _ _).bind fun _ =>
      reachedByte_looksAhead.bind fun _ => .pure _

theorem enumBlock_looksAhead : LooksAhead enumBlock :=
  (name_looksAhead _).bind fun _ => (expect_looksAhead _).bind fun _ =>
    (opened_looksAhead _ _).bind fun _ =>
    (collect_looksAhead (fun _ => declaration_looksAhead _ _ _ (name_looksAhead _)) 0).bind
      fun _ => close_looksAhead.bind fun _ => (announce_looksAhead _ _ _).bind fun _ =>
      reachedByte_looksAhead.bind fun _ => .pure _

theorem eitherBlock_looksAhead : LooksAhead eitherBlock := by
  refine (nextIs_looksAhead _).bind fun
    | true => objectBlock_looksAhead
    | false => nextName?_looksAhead.bind fun name => ?_
  split
  · exact enumBlock_looksAhead
  · exact refuse_looksAhead _

theorem block_looksAhead : LooksAhead block := by
  rw [block_eq]
  exact eitherBlock_looksAhead.bind fun _ => endOfInput_looksAhead.bind fun _ => .pure _

end Parse

end ShapeSchema
