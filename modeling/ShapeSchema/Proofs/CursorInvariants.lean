import ShapeSchema.Proofs.TokenLookahead
set_option autoImplicit false

/-!
# What reading keeps

A grammar rule that succeeds has closed the delimiters that it opened and no others, and one that
fails has a reason: what comes next, or a limit. Besides, a property of cursors that the few ways of
changing a cursor keep is kept by every rule, whether the rule succeeds or fails. Properties are
indexed by the nesting of type expressions, so one that follows the nesting can be kept too. Two
are: reading leaves the nesting as it was, and it writes no warnings.
-/

namespace ShapeSchema

/-- No delimiter was to be closed where none is open, and the syntax is called invalid only where a
    limit was passed. -/
structure ParseError.Reasoned (e : ParseError) : Prop where
  delimiter : ∀ span, e ≠ .noOpenDelimiter span
  limit : e.cause = .invalidSyntax → ∃ span, e = .tooDeep span ∨ e = .tooLarge span

namespace ParseError.Reasoned

variable {e : ParseError}

theorem of_cause (other : e.cause ≠ .invalidSyntax) : e.Reasoned where
  delimiter _ h := other (congrArg cause h)
  limit h := absurd h other

theorem of_liesAhead (ahead : e.cause.LiesAhead) : e.Reasoned := by
  refine of_cause fun other => ?_
  rw [other] at ahead
  exact ahead

theorem tooDeep (span : Span) : (ParseError.tooDeep span).Reasoned where
  delimiter _ h := by simp [ParseError.tooDeep, noOpenDelimiter] at h
  limit _ := ⟨span, .inl rfl⟩

theorem tooLarge (span : Span) : (ParseError.tooLarge span).Reasoned where
  delimiter _ h := by simp [ParseError.tooLarge, noOpenDelimiter] at h
  limit _ := ⟨span, .inr rfl⟩

end ParseError.Reasoned

namespace Parse

variable {α β : Type}

/-- What grammar rules do to a cursor keeps `I`; `I n` is about cursors `n` type expressions deep. -/
structure Invariant (I : Nat → Cursor → Prop) : Prop where
  advance : ∀ n s t rest, I n s → I n (s.advance t rest)
  openers : ∀ n s openers, I n s → I n { s with openers }
  notice : ∀ n s notice, notice.record.level ≠ .warn → I n s →
    I n { s with notices := notice :: s.notices }
  enter : ∀ n s, I n s → I (n + 1) { s with depth := s.depth + 1 }
  leave : ∀ n s, I (n + 1) s → I n { s with depth := s.depth - 1 }

def EndsWith (I : Nat → Cursor → Prop) (n : Nat) (after : List Opener) :
    EStateM.Result ParseError Cursor α → Prop
  | .ok _ s => s.openers = after ∧ I n s
  | .error e s => e.Reasoned ∧ I n s

/-- Where the delimiters `before` are open, `p` succeeds with `after` open or fails for a reason, and
    it keeps `I` at every nesting. -/
def Keeps (I : Nat → Cursor → Prop) (before after : List Opener) (p : Parse α) : Prop :=
  ∀ n s, s.openers = before → I n s → EndsWith I n after (p s)

theorem EndsWith.behind {I : Nat → Cursor → Prop} {n : Nat} {after : List Opener}
    {result : EStateM.Result ParseError Cursor α} (h : EndsWith I n after result) :
    I n (Parse.behind result) := by
  cases result with
  | ok a s => exact h.2
  | error e s => exact h.2

theorem EndsWith.bind {I : Nat → Cursor → Prop} {n : Nat} {between after : List Opener}
    {p : Parse α} {f : α → Parse β} {s : Cursor} (hp : EndsWith I n between (p s))
    (hf : ∀ a s', p s = .ok a s' → s'.openers = between → I n s' → EndsWith I n after (f a s')) :
    EndsWith I n after ((p >>= f) s) := by
  cases hps : p s with
  | error e s' =>
    rw [bind_error hps]
    rwa [hps] at hp
  | ok a s' =>
    rw [bind_of_ok hps]
    rw [hps] at hp
    exact hf a s' hps hp.1 hp.2

namespace Keeps

variable {I : Nat → Cursor → Prop} {before between after openers : List Opener} {p : Parse α}

theorem bind {f : α → Parse β} (hp : Keeps I before between p)
    (hf : ∀ a, Keeps I between after (f a)) : Keeps I before after (p >>= f) :=
  fun n s hs h => (hp n s hs h).bind fun a s' _ => hf a n s'

theorem pure (a : α) : Keeps I openers openers (Pure.pure a : Parse α) := fun _ _ hs h => ⟨hs, h⟩

theorem fail {error : Cursor → ParseError} (reasoned : ∀ s, (error s).Reasoned) :
    Keeps I before after (Parse.fail error : Parse α) := fun _ s _ h => ⟨reasoned s, h⟩

theorem throw {e : ParseError} (reasoned : e.Reasoned) :
    Keeps I before after (throw e : Parse α) := fun _ _ _ h => ⟨reasoned, h⟩

theorem refuse (expected : List Expected) :
    Keeps I before after (Parse.refuse expected : Parse α) :=
  fail fun s => .of_liesAhead (s.liesAhead_unexpected expected)

theorem of_view {γ : Type} (view : Cursor → γ) (f : γ → Parse α)
    (runs : ∀ s, p s = f (view s) s) (h : ∀ c, Keeps I before after (f c)) :
    Keeps I before after p := by
  intro n s hs
  rw [runs]
  exact h (view s) n s hs

theorem of_reading (hI : Invariant I)
    (reads : ∀ s, ∃ a, p s = .ok a s ∨ ∃ t rest, p s = .ok a (s.advance t rest)) :
    Keeps I openers openers p := by
  intro n s hs h
  obtain ⟨a, stays | ⟨t, rest, moved⟩⟩ := reads s
  · rw [stays]
    exact ⟨hs, h⟩
  · rw [moved]
    exact ⟨hs, hI.advance n s t rest h⟩

end Keeps

section Steps

variable {I : Nat → Cursor → Prop} {before after openers : List Opener}

theorem nextIs_keeps (p : Punctuator) : Keeps I openers openers (nextIs p) :=
  fun _ _ hs h => ⟨hs, h⟩

theorem nextName?_keeps : Keeps I openers openers nextName? := fun _ _ hs h => ⟨hs, h⟩

theorem byteSpan_keeps (span : Span) : Keeps I openers openers (byteSpan span) := by
  unfold byteSpan
  split
  · exact .pure _
  · exact .throw (.tooLarge span)

theorem reachedByte_keeps : Keeps I openers openers reachedByte := by
  refine .of_view Cursor.lastEnd byteAt reachedByte_eq fun o => ?_
  cases o with
  | none => exact .pure _
  | some p => exact (byteSpan_keeps _).bind fun _ => .pure _

theorem separated_keeps (declarations : String) :
    Keeps I openers openers (separated declarations) := by
  intro n s hs h
  unfold separated
  cases s.rest with
  | nil => exact ⟨hs, h⟩
  | cons t rest =>
    dsimp only
    split
    · exact ⟨hs, h⟩
    · exact ⟨.of_cause (fun other => by cases other), h⟩

theorem endOfInput_keeps : Keeps I openers openers endOfInput := by
  intro n s hs h
  unfold endOfInput
  cases s.rest with
  | nil => exact ⟨hs, h⟩
  | cons t rest =>
    dsimp only
    cases t.kind with
    | endOfInput => exact ⟨hs, h⟩
    | _ => exact ⟨.of_cause (fun other => by cases other), h⟩

variable (hI : Invariant I)
include hI

theorem accept_keeps (p : Punctuator) : Keeps I openers openers (accept p) := by
  refine .of_reading hI fun s => ?_
  unfold accept
  cases s.rest with
  | nil => exact ⟨_, .inl rfl⟩
  | cons t rest =>
    dsimp only
    split
    · exact ⟨_, .inr ⟨t, rest, rfl⟩⟩
    · exact ⟨_, .inl rfl⟩

theorem acceptName_keeps : Keeps I openers openers acceptName := by
  refine .of_reading hI fun s => ?_
  unfold acceptName
  cases s.rest with
  | nil => exact ⟨_, .inl rfl⟩
  | cons t rest =>
    dsimp only
    cases t.kind with
    | name text => exact ⟨_, .inr ⟨t, rest, rfl⟩⟩
    | _ => exact ⟨_, .inl rfl⟩

theorem expect_keeps (p : Punctuator) : Keeps I openers openers (expect p) :=
  (accept_keeps hI p).bind fun
    | some _ => .pure _
    | none => .refuse _

theorem name_keeps (role : Expected) : Keeps I openers openers (name role) :=
  (acceptName_keeps hI).bind fun
    | some _ => (byteSpan_keeps _).bind fun _ => .pure _
    | none => .refuse _

theorem opened_keeps (c : Construct) (t : Token) :
    Keeps I openers (⟨c, t.span⟩ :: openers) (opened c t) :=
  fun n s hs h => ⟨congrArg (List.cons _) hs, hI.openers n s _ h⟩

theorem close_keeps (opener : Opener) : Keeps I (opener :: openers) openers close := by
  have closes : Keeps I (opener :: openers) openers (closing (opener :: openers)) := by
    refine (expect_keeps hI _).bind fun _ n s hs h => ⟨?_, hI.openers n s _ h⟩
    change s.openers.tail = openers
    rw [hs]
    rfl
  intro n s hs h
  rw [close_eq, hs]
  exact closes n s hs h

theorem announce_keeps (ahead : Nat) {level : Level} (quiet : level ≠ .warn) (text : String) :
    Keeps I openers openers (announce ahead level text) :=
  fun n s hs h => ⟨hs, hI.notice n s _ quiet h⟩

theorem deeper_keeps {p : Parse α} (h : Keeps I before after p) :
    Keeps I before after (deeper p) := by
  intro n s hs hn
  have inner := h (n + 1) { s with depth := s.depth + 1 } hs (hI.enter n s hn)
  rw [deeper_eq]
  cases hp : p { s with depth := s.depth + 1 } with
  | ok a s' =>
    rw [hp] at inner
    exact ⟨inner.1, hI.leave n s' inner.2⟩
  | error e s' =>
    rw [hp] at inner
    exact ⟨inner.1, hI.leave n s' inner.2⟩

omit hI in
theorem collect_keeps {step : Nat → Parse (Option α)} {h : ∀ n, Spends roundCost (step n)}
    (hs : ∀ n, Keeps I openers openers (step n)) (k : Nat) :
    Keeps I openers openers (collect step h k) := by
  intro n s
  induction hl : s.rest.length using Nat.strongRecOn generalizing k s with
  | ind len ih =>
    intro same kept
    rw [collect_eq]
    refine (hs k n s same kept).bind fun o s' hstep same' kept' => ?_
    cases o with
    | none => exact ⟨same', kept'⟩
    | some a =>
      have shorter : s'.rest.length < len := by
        have := h k s (some a) s' hstep
        simp only [roundCost] at this
        omega
      exact (ih _ shorter (k + 1) s' rfl same' kept').bind fun as s'' _ => Keeps.pure (a :: as) n s''

end Steps

section Rules

variable {I : Nat → Cursor → Prop} (hI : Invariant I) {openers : List Opener}
include hI

theorem bang_keeps : Keeps I openers openers bang :=
  (accept_keeps hI _).bind fun
    | some _ => (byteSpan_keeps _).bind fun _ => .pure _
    | none => .pure _

theorem typeRule_keeps {element : Parse (Syntax.TypeExpr ByteSpan)}
    (h : ∀ openers, Keeps I openers openers element) : Keeps I openers openers (typeRule element) :=
  (accept_keeps hI _).bind fun
    | some _ => (byteSpan_keeps _).bind fun _ => (opened_keeps hI _ _).bind fun _ =>
        (h _).bind fun _ => (close_keeps hI _).bind fun _ => (bang_keeps hI).bind fun _ =>
        reachedByte_keeps.bind fun _ => .pure _
    | none => (name_keeps hI _).bind fun _ => (bang_keeps hI).bind fun _ =>
        reachedByte_keeps.bind fun _ => .pure _

theorem typeWithin_keeps (levels : Nat) : Keeps I openers openers (typeWithin levels) := by
  induction levels generalizing openers with
  | zero => exact .fail fun _ => .tooDeep _
  | succ levels ih => exact deeper_keeps hI (typeRule_keeps hI fun _ => ih)

theorem typeExpr_keeps : Keeps I openers openers typeExpr :=
  .of_view Cursor.depth (fun depth => typeWithin (maxDepth - depth)) (fun _ => rfl)
    fun _ => typeWithin_keeps hI _

theorem colonAfter_keeps (name : String) : Keeps I openers openers (colonAfter name) :=
  (accept_keeps hI _).bind fun
    | some _ => .pure _
    | none => .fail fun s => .of_liesAhead (liesAhead_colonError name s)

theorem parameter_keeps : Keeps I openers openers parameter :=
  (name_keeps hI _).bind fun _ => (colonAfter_keeps hI _).bind fun _ =>
    (typeExpr_keeps hI).bind fun _ => reachedByte_keeps.bind fun _ => .pure _

theorem parameterAfterComma_keeps : Keeps I openers openers parameterAfterComma :=
  (accept_keeps hI _).bind fun
    | some _ => (parameter_keeps hI).bind fun _ => .pure _
    | none => .pure _

omit hI in
theorem endOfParameters_keeps : Keeps I openers openers endOfParameters :=
  (nextIs_keeps _).bind fun
    | true => .pure _
    | false => .fail fun s => .of_liesAhead (liesAhead_parameterListError s)

theorem parameterItems_keeps : Keeps I openers openers parameterItems :=
  (parameter_keeps hI).bind fun _ =>
    (collect_keeps (fun _ => parameterAfterComma_keeps hI) 0).bind fun _ =>
    endOfParameters_keeps.bind fun _ => .pure _

theorem parameters_keeps : Keeps I openers openers parameters :=
  (expect_keeps hI _).bind fun _ => (opened_keeps hI _ _).bind fun _ =>
    (accept_keeps hI _).bind fun
      | some _ => .throw (.of_cause fun other => by cases other)
      | none => (parameterItems_keeps hI).bind fun _ => (close_keeps hI _).bind fun _ => .pure _

theorem parametersIfAny_keeps : Keeps I openers openers parametersIfAny :=
  (nextIs_keeps _).bind fun
    | true => parameters_keeps hI
    | false => .pure _

theorem field_keeps : Keeps I openers openers field :=
  (name_keeps hI _).bind fun _ => (parametersIfAny_keeps hI).bind fun _ =>
    (colonAfter_keeps hI _).bind fun _ => (typeExpr_keeps hI).bind fun _ =>
    reachedByte_keeps.bind fun _ => .pure _

theorem announcedField_keeps : Keeps I openers openers announcedField :=
  (field_keeps hI).bind fun _ => (announce_keeps hI _ (by decide) _).bind fun _ => .pure _

omit hI in
theorem declaration_keeps (role : Expected) (plural : String) (n : Nat) {item : Parse α}
    (h : Keeps I openers openers item) :
    Keeps I openers openers (declaration role plural n item) := by
  have last : Keeps I openers openers (do return some (← item) : Parse (Option α)) :=
    h.bind fun _ => .pure _
  refine (nextIs_keeps _).bind fun closing => ?_
  cases closing with
  | true => exact .pure _
  | false =>
    refine nextName?_keeps.bind fun name => ?_
    cases name with
    | none => exact .refuse _
    | some _ =>
      by_cases first : n ≠ 0
      · simp only [Option.isNone_some, Bool.false_eq_true, if_false, if_pos first]
        exact (separated_keeps _).bind fun _ => last
      · simp only [Option.isNone_some, Bool.false_eq_true, if_false, if_neg first]
        exact last

theorem objectBlock_keeps : Keeps I openers openers objectBlock :=
  (expect_keeps hI _).bind fun _ => (byteSpan_keeps _).bind fun _ =>
    (opened_keeps hI _ _).bind fun _ =>
    (collect_keeps (fun _ => declaration_keeps _ _ _ (announcedField_keeps hI)) 0).bind fun _ =>
    (close_keeps hI _).bind fun _ => (announce_keeps hI _ (by decide) _).bind fun _ =>
    reachedByte_keeps.bind fun _ => .pure _

theorem enumBlock_keeps : Keeps I openers openers enumBlock :=
  (name_keeps hI _).bind fun _ => (expect_keeps hI _).bind fun _ =>
    (opened_keeps hI _ _).bind fun _ =>
    (collect_keeps (fun _ => declaration_keeps _ _ _ (name_keeps hI _)) 0).bind fun _ =>
    (close_keeps hI _).bind fun _ => (announce_keeps hI _ (by decide) _).bind fun _ =>
    reachedByte_keeps.bind fun _ => .pure _

theorem eitherBlock_keeps : Keeps I openers openers eitherBlock := by
  refine (nextIs_keeps _).bind fun
    | true => objectBlock_keeps hI
    | false => nextName?_keeps.bind fun name => ?_
  split
  · exact enumBlock_keeps hI
  · exact .refuse _

/-- Reading a whole text keeps what each change of a cursor keeps. -/
theorem block_keeps : Keeps I openers openers block := by
  rw [block_eq]
  exact (eitherBlock_keeps hI).bind fun _ => endOfInput_keeps.bind fun _ => .pure _

end Rules

theorem depth_invariant : Invariant fun n s => s.depth = n where
  advance _ _ _ _ h := h
  openers _ _ _ h := h
  notice _ _ _ _ h := h
  enter _ _ h := congrArg (· + 1) h
  leave _ _ h := congrArg (· - 1) h

theorem quiet_invariant :
    Invariant fun _ s => ∀ notice ∈ s.notices, notice.record.level ≠ .warn where
  advance _ _ _ _ h := h
  openers _ _ _ h := h
  notice _ _ _ quiet h := List.forall_mem_cons.mpr ⟨quiet, h⟩
  enter _ _ h := h
  leave _ _ h := h

theorem quiet_block (ts : List Token) :
    ∀ notice ∈ (behind (block (.ofTokens ts))).notices, notice.record.level ≠ .warn :=
  (block_keeps quiet_invariant 0 (.ofTokens ts) rfl (List.forall_mem_nil _)).behind

end Parse

end ShapeSchema
