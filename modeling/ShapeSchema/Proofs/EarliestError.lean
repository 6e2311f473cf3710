import ShapeSchema.Proofs.AcceptedTrees
import ShapeSchema.Proofs.CompletableSpots
import ShapeSchema.Proofs.MachineVerdicts
import ShapeSchema.Proofs.TokenLookahead
set_option autoImplicit false

namespace ShapeSchema

/-- Either the machine gets through a list of tokens, or it stops at one of them, whatever comes
    behind. -/
theorem run_through_or_stops (ts : List Token) (spot : Spot) (place : Place)
    (h : place.constructs = spot.constructs) :
    (∃ (later : Spot) (behind : Place), behind.constructs = later.constructs ∧
      ∀ rest, run spot place (ts ++ rest) = run later behind rest) ∨
    ∃ us t vs verdict, ts = us ++ t :: vs ∧
      ∀ rest, run spot place (us ++ t :: rest) = verdict := by
  induction ts generalizing spot place with
  | nil => exact .inl ⟨spot, place, h, fun _ => rfl⟩
  | cons t ts ih =>
    have sound : (Step.act place (some t) spot).Sound (endsBy (some t)) := Step.act_sound h
    cases hstep : Step.act place (some t) spot with
    | stopped verdict =>
      refine .inr ⟨[], t, ts, verdict, rfl, fun rest => ?_⟩
      rw [List.nil_append, run, hstep]
    | moved later behind =>
      rw [hstep] at sound
      rcases ih later behind sound.1 with
        ⟨last, stand, same, goes⟩ | ⟨us, u, vs, verdict, rfl, stops⟩
      · refine .inl ⟨last, stand, same, fun rest => ?_⟩
        rw [List.cons_append, run, hstep]
        exact goes rest
      · refine .inr ⟨t :: us, u, vs, verdict, rfl, fun rest => ?_⟩
        rw [List.cons_append, run, hstep]
        exact stops rest

theorem run_too_deep (owner : Owner) (place : Place) (ts : List Token) :
    ∃ span, run (.type owner Parse.maxDepth) place ts = .error (.tooDeep span) := by
  refine ⟨(place.cursor ts.head?).nextSpan, ?_⟩
  rw [run_eq, Step.act, Step.type, if_pos rfl]
  rfl

namespace Syntax.Block

/-- Some continuation of the tokens is accepted. -/
def Viable (ts : List Token) : Prop := ∃ more block, (ofTokens? (ts ++ more)).value = .ok block

theorem value_ofTokens?_eq_error {ts : List Token} {e : ParseError} :
    (ofTokens? ts).value = .error e ↔ ∃ s, Parse.block (.ofTokens ts) = .error e s := by
  have unfolded : (ofTokens? ts).value = (readTokens ts).1 := rfl
  rw [unfolded, readTokens]
  cases Parse.block (.ofTokens ts) with
  | ok c s => simp
  | error e s => simp

theorem exists_value_ofTokens?_iff {ts : List Token} :
    (∃ block, (ofTokens? ts).value = .ok block) ↔ run .start ⟨[], none⟩ ts = .ok () := by
  rw [← map_value_ofTokens?]
  cases (ofTokens? ts).value with
  | ok block => simp [Except.map]
  | error e => simp [Except.map]

theorem run_eq_error_iff {ts : List Token} {e : ParseError} :
    run .start ⟨[], none⟩ ts = .error e ↔ (ofTokens? ts).value = .error e := by
  rw [← map_value_ofTokens?]
  cases (ofTokens? ts).value with
  | ok block => simp [Except.map]
  | error e => simp [Except.map]

def endOf (ts : List Token) : Position := (ts.getLast?.map (·.span.stop)).getD .start

def strange (span : Span) : Token :=
  ⟨.invalid "" [], [], .empty ⟨0, 0, 0, span.start.offset + 1⟩⟩

theorem span_strange_ne (span : Span) : (strange span).span ≠ span := by
  intro same
  have start := congrArg (·.start.offset) same
  exact Nat.succ_ne_self _ start

/-- The grammar does not read on behind a token at which the machine stops: a strange token there
    would have to be blamed. -/
theorem not_stopped_inside {us vs : List Token} {t : Token} {e : ParseError} {s : Cursor}
    (telling : e.Telling) (fails : Parse.block (.ofTokens (us ++ t :: (vs ++ s.rest))) = .error e s)
    (stops : ∀ ws, run .start ⟨[], none⟩ (us ++ t :: ws) = .error e) : False := by
  obtain ⟨s', fails'⟩ := value_ofTokens?_eq_error.mp
    (run_eq_error_iff.mp (stops [strange e.span]))
  obtain ⟨used, result, follows⟩ := Parse.block_looksAhead (.ofTokens (us ++ [t, strange e.span]))
  obtain rfl := follows.runs.symm.trans fails'
  have split : us ++ [t] ++ [strange e.span] = used ++ s'.rest :=
    (List.append_assoc us [t] _).trans follows.rest
  rcases s'.rest.eq_nil_or_concat with none | ⟨later, last, hlast⟩
  · -- a strange token is never read
    rw [none, List.append_nil] at split
    have plain := follows.plain (strange e.span) (by simp [← split])
    exact plain.2 _ _ rfl
  · rw [hlast, List.concat_eq_append, ← List.append_assoc] at split
    obtain ⟨front, ⟨⟩⟩ := List.append_inj' split rfl
    rcases later.eq_nil_or_concat with none | ⟨before, u, hlater⟩
    · -- the strange token comes next, and the error would point there
      have next : s'.rest.head? = some (strange e.span) := by
        rw [hlast, none]
        rfl
      have points := follows.located e s' rfl telling
      rw [next] at points
      exact span_strange_ne e.span points.symm
    · -- as much is read in front of `vs` as in front of the strange token
      rw [hlater, List.concat_eq_append, ← List.append_assoc] at front
      obtain ⟨rfl, ⟨⟩⟩ := List.append_inj' front rfl
      have next : (before ++ t :: (vs ++ s.rest)).head? = s'.rest.head? := by
        rw [hlast, hlater]
        cases before <;> rfl
      obtain ⟨notices, again⟩ := follows.again _ [] next
      have same : Parse.block (.ofTokens (used ++ (before ++ t :: (vs ++ s.rest)))) =
          .error e (s'.facing (before ++ t :: (vs ++ s.rest)) notices) := again
      rw [← List.append_assoc, fails] at same
      have rest : s.rest = before ++ t :: (vs ++ s.rest) :=
        congrArg Cursor.rest (EStateM.Result.error.inj same).2
      have length := congrArg List.length rest
      simp only [List.length_append, List.length_cons] at length
      omega

theorem viable_of_error {us : List Token} {e : ParseError} {s : Cursor} (telling : e.Telling)
    (fails : Parse.block (.ofTokens (us ++ s.rest)) = .error e s) : Viable us := by
  have verdict : run .start ⟨[], none⟩ (us ++ s.rest) = .error e :=
    run_eq_error_iff.mpr (value_ofTokens?_eq_error.mpr ⟨s, fails⟩)
  rcases run_through_or_stops us .start ⟨[], none⟩ rfl with
    ⟨spot, place, stands, goes⟩ | ⟨vs, t, ws, other, rfl, stops⟩
  · have shallow (owner : Owner) : spot ≠ .type owner Parse.maxDepth := by
      rintro rfl
      obtain ⟨span, deep⟩ := run_too_deep owner place s.rest
      rw [← goes, verdict] at deep
      cases deep
      exact telling.within rfl
    obtain ⟨more, accepted⟩ := completable stands shallow
    obtain ⟨block, read⟩ := exists_value_ofTokens?_iff.mpr ((goes more).trans accepted)
    exact ⟨more, block, read⟩
  · rw [List.append_assoc, List.cons_append] at verdict fails
    have same : other = .error e := (stops _).symm.trans verdict
    exact (not_stopped_inside telling fails fun later => (stops later).trans same).elim

/-- What is read depends on the tokens that are read and on the next one. -/
theorem value_of_follows {ts used rest : List Token}
    {result : EStateM.Result ParseError Cursor (Block ByteSpan)}
    (follows : Parse.Follows Parse.block (.ofTokens ts) used result)
    (next : rest.head? = (Parse.behind result).rest.head?) :
    (ofTokens? ts).value = (ofTokens? (used ++ rest)).value := by
  obtain ⟨notices, again⟩ := follows.again rest [] next
  cases result with
  | ok b s =>
    rw [value_ofTokens?_eq_ok.mpr ⟨_, follows.runs⟩]
    exact (value_ofTokens?_eq_ok.mpr ⟨_, again⟩).symm
  | error fault s =>
    rw [value_ofTokens?_eq_error.mpr ⟨_, follows.runs⟩]
    exact (value_ofTokens?_eq_error.mpr ⟨_, again⟩).symm

theorem error_of_follows {ts us : List Token} {e : ParseError} {s : Cursor} {t : Token}
    (follows : Parse.Follows Parse.block (.ofTokens ts) us (.error e s))
    (next : s.rest.head? = some t) (later : List Token) :
    (ofTokens? (us ++ t :: later)).value = .error e := by
  have same : (ofTokens? ts).value = (ofTokens? (us ++ t :: later)).value :=
    value_of_follows follows next.symm
  exact same.symm.trans (value_ofTokens?_eq_error.mpr ⟨s, follows.runs⟩)

/-- A telling error is met at the earliest token: what was read before can be continued to an
    accepted list, and either the input ends there or no continuation of it with the next token is
    accepted. The error points there, and does not depend on what comes behind. -/
theorem ofTokens?_error_earliest {ts : List Token} {e : ParseError}
    (fails : (ofTokens? ts).value = .error e) (telling : e.Telling) :
    ∃ s us, Parse.block (.ofTokens ts) = .error e s ∧ ts = us ++ s.rest ∧ Viable us ∧
      ((Parse.AtEnd s.rest ∧ e.IsEnd (endOf us)) ∨
        ∃ t more, s.rest = t :: more ∧ e.span = t.span ∧ ¬ Viable (us ++ [t]) ∧
          ∀ later, (ofTokens? (us ++ t :: later)).value = .error e) := by
  obtain ⟨s, stopped⟩ := value_ofTokens?_eq_error.mp fails
  obtain ⟨us, result, follows⟩ := Parse.block_looksAhead (.ofTokens ts)
  obtain rfl := follows.runs.symm.trans stopped
  have split : ts = us ++ s.rest := follows.rest
  have reached : s.reached = endOf us := by
    have last : s.lastEnd = _ := follows.lastEnd
    rw [Cursor.reached, last, endOf]
    exact congrArg (fun o : Option Position => o.getD .start) Option.or_none
  have points := follows.located e s rfl telling
  refine ⟨s, us, stopped, split, viable_of_error telling (split ▸ stopped), ?_⟩
  cases hrest : s.rest with
  | nil =>
    rw [hrest, reached] at points
    exact .inl ⟨by simp [Parse.AtEnd], points⟩
  | cons t more =>
    rw [hrest, reached] at points
    by_cases hk : t.kind = .endOfInput
    · exact .inl ⟨by simpa [Parse.AtEnd] using hk, (if_pos hk).mp points⟩
    · have always (later : List Token) : (ofTokens? (us ++ t :: later)).value = .error e :=
        error_of_follows follows (congrArg List.head? hrest) later
      refine .inr ⟨t, more, rfl, (if_neg hk).mp points, ?_, always⟩
      rintro ⟨later, block, read⟩
      rw [List.append_assoc, List.singleton_append, always] at read
      cases read

theorem ofTokens?_error_earliest_open_bracket :
    ∃ e, (ofTokens? (Token.ofText "\x7ba:[Int b:T\x7d")).value = .error e ∧ e.Telling ∧
      ∃ s us, Parse.block (.ofTokens (Token.ofText "\x7ba:[Int b:T\x7d")) = .error e s ∧
        Token.ofText "\x7ba:[Int b:T\x7d" = us ++ s.rest ∧ Viable us ∧
        ((Parse.AtEnd s.rest ∧ e.IsEnd (endOf us)) ∨
          ∃ t more, s.rest = t :: more ∧ e.span = t.span ∧ ¬ Viable (us ++ [t]) ∧
            ∀ later, (ofTokens? (us ++ t :: later)).value = .error e) := by
  have fails : (ofTokens? (Token.ofText "\x7ba:[Int b:T\x7d")).value =
      .error (.unexpectedToken [.punctuator .bracketClose] "b" ⟨⟨0, 8, 8, 8⟩, ⟨0, 9, 9, 9⟩⟩) :=
    run_eq_error_iff.mp (by decide +kernel)
  have telling : ParseError.Telling
      (.unexpectedToken [.punctuator .bracketClose] "b" ⟨⟨0, 8, 8, 8⟩, ⟨0, 9, 9, 9⟩⟩) :=
    ⟨by simp [ParseError.unexpectedToken], by simp [ParseError.unexpectedToken]⟩
  exact ⟨_, fails, telling, ofTokens?_error_earliest fails telling⟩

end Syntax.Block

end ShapeSchema
