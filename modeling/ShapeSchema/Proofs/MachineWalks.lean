import ShapeSchema.Proofs.OpenBrackets
import ShapeSchema.Proofs.ReadingComplete
set_option autoImplicit false

/-!
# Where the machine stops

A walk is the part of a run in which tokens are read. What a step does adds up over a walk: the open
constructs are the brackets that its tokens leave open, and the end remembered is that of the last
token. A run that fails is a walk with a step behind it that stops.
-/

namespace ShapeSchema

/-- From one spot and place the machine comes to another while it reads the tokens. -/
inductive Walk : Spot → Place → List Token → Spot → Place → Prop
  | nil {spot place} : Walk spot place [] spot place
  | cons {spot place t between stop us later behind} :
      Step.act place (some t) spot = .moved between stop → Walk between stop us later behind →
      Walk spot place (t :: us) later behind

structure Standing (spot : Spot) (place : Place) (previous : Option Token) : Prop where
  constructs : place.constructs = spot.constructs
  lastEnd : place.lastEnd = previous.map (·.span.stop)
  tells : spot.Tells place.openers previous

variable {spot later : Spot} {place behind : Place} {previous next : Option Token} {t : Token}
  {ts us vs rest : List Token} {e : ParseError}

theorem standing_start : Standing .start ⟨[], none⟩ none := ⟨rfl, rfl, rfl⟩

theorem Standing.fits (h : Standing spot place previous) (fit : ∀ t ∈ previous, t.span.Fits)
    (fits : ∀ t ∈ next, t.span.Fits) : place.Fits next := by
  refine ⟨fits, ?_⟩
  rw [h.lastEnd]
  intro p hp
  obtain ⟨t, ht, rfl⟩ := Option.map_eq_some_iff.mp hp
  exact (fit t ht).2

/-- A step that reads a token leads to where the machine stands behind it. -/
theorem Standing.step (h : Standing spot place previous) (fit : ∀ t ∈ previous, t.span.Fits)
    (fits : t.span.Fits) (moves : Step.act place (some t) spot = .moved later behind) :
    Standing later behind (some t) ∧ place.Turns spot t behind := by
  have ready : place.Fits (some t) := h.fits fit (by simpa using fits)
  have effect := Step.act_effect ready h.constructs
  have sound : (Step.act place (some t) spot).Sound _ := Step.act_sound h.constructs
  rw [moves] at effect sound
  cases effect with
  | read ht turns tells =>
    cases ht
    refine ⟨⟨sound.1, ?_, tells⟩, turns⟩
    cases turns <;> rfl

theorem Place.Turns.plain (h : place.Turns spot t behind) : t.Plain := by
  cases h with
  | kept level => exact Token.plain_of_isLevel level
  | opened hk => exact Token.plain_of_punctuator hk
  | closed _ hk => exact Token.plain_of_punctuator hk

namespace Walk

theorem run_eq (h : Walk spot place us later behind) (rest : List Token) :
    run spot place (us ++ rest) = run later behind rest := by
  induction h with
  | nil => rfl
  | cons moves _ ih =>
    rw [List.cons_append, run, moves]
    exact ih

theorem append (h : Walk spot place us later behind) {last : Spot} {stop : Place}
    (h' : Walk later behind vs last stop) : Walk spot place (us ++ vs) last stop := by
  induction h with
  | nil => exact h'
  | cons moves _ ih => exact .cons moves (ih h')

theorem exists_left (h : Walk spot place (us ++ vs) later behind) :
    ∃ between stop, Walk spot place us between stop ∧ Walk between stop vs later behind := by
  induction us generalizing spot place with
  | nil => exact ⟨spot, place, .nil, h⟩
  | cons t us ih =>
    cases h with
    | cons moves tail =>
      obtain ⟨between, stop, left, right⟩ := ih tail
      exact ⟨between, stop, .cons moves left, right⟩

theorem constructs (h : Walk spot place us later behind)
    (stands : place.constructs = spot.constructs) : behind.constructs = later.constructs := by
  induction h with
  | nil => exact stands
  | @cons spot place t between stop us later behind moves _ ih =>
    have sound : (Step.act place (some t) spot).Sound _ := Step.act_sound stands
    rw [moves] at sound
    exact ih sound.1

theorem standing (h : Walk spot place us later behind) {previous : Option Token}
    (stands : Standing spot place previous) (fit : ∀ t ∈ previous, t.span.Fits) (fits : Fit us) :
    Standing later behind (us.getLast?.or previous) ∧ (∀ t ∈ us, t.Plain) ∧
      openBehind previous place.openers us = some behind.openers := by
  induction h generalizing previous with
  | nil => exact ⟨stands, by simp, rfl⟩
  | @cons spot place t between stop us later behind moves _ ih =>
    -- one step keeps `Standing`, and matches the bracket as the machine does
    obtain ⟨further, turns⟩ := stands.step fit fits.head moves
    obtain ⟨last, plain, open_⟩ := ih further (by simpa using fits.head) fits.tail
    refine ⟨?_, List.forall_mem_cons.mpr ⟨turns.plain, plain⟩, ?_⟩
    · rw [getLast?_cons_or]
      exact last
    · rw [openBehind, turns.matchBracket stands.tells]
      exact open_

end Walk

theorem exists_walk_of_error (fails : run spot place ts = .error e) :
    ∃ us rest later behind, ts = us ++ rest ∧ Walk spot place us later behind ∧
      Step.act behind rest.head? later = .failed e := by
  induction ts generalizing spot place with
  | nil =>
    obtain ⟨verdict, stops⟩ := @Step.act_none_stops place spot
    simp only [run, stops] at fails
    exact ⟨[], [], spot, place, rfl, .nil, stops.trans (congrArg Step.stopped fails)⟩
  | cons t ts ih =>
    cases hstep : Step.act place (some t) spot with
    | stopped verdict =>
      simp only [run, hstep] at fails
      exact ⟨[], t :: ts, spot, place, rfl, .nil, hstep.trans (congrArg Step.stopped fails)⟩
    | moved between stop =>
      simp only [run, hstep] at fails
      obtain ⟨us, rest, later, behind, rfl, walk, stops⟩ := ih fails
      exact ⟨t :: us, rest, later, behind, rfl, .cons hstep walk, stops⟩

/-- The machine reads the tokens `us` from the start and then stops in front of `rest`, with `e`. -/
structure StopsAt (us rest : List Token) (e : ParseError) (spot : Spot) (place : Place) :
    Prop where
  walk : Walk .start ⟨[], none⟩ us spot place
  standing : Standing spot place us.getLast?
  plain : ∀ t ∈ us, t.Plain
  openers : leftOpen us = some place.openers
  fails : Step.act place rest.head? spot = .failed e
  blames : spot.Blames place rest.head? e

theorem Walk.stopsAt (walk : Walk .start ⟨[], none⟩ us spot place) (fit : Fit (us ++ rest))
    (fails : Step.act place rest.head? spot = .failed e) : StopsAt us rest e spot place := by
  obtain ⟨stands, plain, openers⟩ := walk.standing standing_start (by simp) fit.left
  rw [Option.or_none] at stands
  have fits : place.Fits rest.head? :=
    stands.fits (fun t ht => fit.left t (List.mem_of_mem_getLast? ht))
      fun t ht => fit.right t (List.mem_of_mem_head? ht)
  have effect := Step.act_effect fits stands.constructs
  rw [fails] at effect
  refine ⟨walk, stands, plain, openers, fails, ?_⟩
  cases effect with
  | blamed blames => exact blames

theorem StopsAt.exists_opening (h : StopsAt us rest e spot place) {opener : Opener}
    (ho : opener ∈ place.openers) :
    ∃ t ∈ us, t.span = opener.span ∧ t.kind = .punctuator opener.construct.opener :=
  (ShapeSchema.exists_opening h.openers opener ho).resolve_left List.not_mem_nil

/-- Wherever a run fails, the machine stops there and blames what it sees. -/
theorem exists_stopsAt (fit : Fit ts) (fails : run .start ⟨[], none⟩ ts = .error e) :
    ∃ us rest spot place, ts = us ++ rest ∧ StopsAt us rest e spot place := by
  obtain ⟨us, rest, spot, place, rfl, walk, stops⟩ := exists_walk_of_error fails
  exact ⟨us, rest, spot, place, rfl, walk.stopsAt fit stops⟩

end ShapeSchema
