import ShapeSchema.Proofs.SpotConstructs
set_option autoImplicit false

namespace ShapeSchema

/-- The error without its spans. -/
def ParseError.words (e : ParseError) : String × Cause × List (Note.Kind × String) :=
  (e.message, e.cause, e.notes.map fun n => (n.kind, n.message))

def outcomeWords {α : Type} (outcome : Except ParseError α) :
    Except (String × Cause × List (Note.Kind × String)) α :=
  outcome.mapError ParseError.words

theorem ParseError.words_addHelp {e f : ParseError} (h : e.words = f.words) (message : String) :
    (e.addHelp message).words = (f.addHelp message).words := by
  unfold ParseError.words at h ⊢
  rw [Prod.mk.injEq, Prod.mk.injEq] at h
  simp only [addHelp, addNote, List.map_append, h]

structure Token.Alike (gap : Bool) (t u : Token) : Prop where
  kind : t.kind = u.kind
  fits : t.span.Fits
  fits' : u.span.Fits
  separated : gap = true → t.kind.startsDeclaration = true → t.isSeparated = u.isSeparated

/-- Token lists that differ in spans and in separators that are not needed; `closed` tells whether
    the token before them ended a declaration. -/
def TokensAlike (closed : Bool) : List Token → List Token → Prop
  | [], [] => True
  | t :: ts, u :: us => t.Alike closed u ∧ TokensAlike t.kind.endsDeclaration ts us
  | _, _ => False

structure Place.Alike (p q : Place) : Prop where
  constructs : p.openers.map Opener.construct = q.openers.map Opener.construct
  fits : ∀ e ∈ p.lastEnd, e.offset ≤ ByteSpan.limit
  fits' : ∀ e ∈ q.lastEnd, e.offset ≤ ByteSpan.limit

abbrev NextAlike (gap : Bool) : Option Token → Option Token → Prop := Option.Rel (Token.Alike gap)

def Step.Alike : Step → Step → Prop
  | .moved spot p, .moved spot' q => spot = spot' ∧ p.Alike q
  | .stopped v, .stopped w => outcomeWords v = outcomeWords w
  | _, _ => False

theorem Token.Alike.behind {gap : Bool} {t u : Token} (h : t.Alike gap u) {p q : Place}
    (hp : p.Alike q) : (p.behind t).Alike (q.behind u) := by
  refine ⟨hp.constructs, ?_, ?_⟩
  · rintro _ ⟨⟩
    exact h.fits.2
  · rintro _ ⟨⟩
    exact h.fits'.2

theorem Place.Alike.opened {p q : Place} (h : p.Alike q) (c : Construct) (t u : Token) :
    (p.opened c t).Alike (q.opened c u) :=
  ⟨congrArg (c :: ·) h.constructs, h.fits, h.fits'⟩

theorem Place.Alike.openers_cases {p q : Place} (h : p.Alike q) :
    p.openers = [] ∧ q.openers = [] ∨
      ∃ o outer o' outer', p.openers = o :: outer ∧ q.openers = o' :: outer' ∧
        o.construct = o'.construct ∧
        outer.map Opener.construct = outer'.map Opener.construct := by
  have constructs := h.constructs
  cases ho : p.openers with
  | nil =>
    rw [ho, List.map_nil, eq_comm, List.map_eq_nil_iff] at constructs
    exact .inl ⟨rfl, constructs⟩
  | cons o outer =>
    cases ho' : q.openers with
    | nil => simp [ho, ho'] at constructs
    | cons o' outer' =>
      rw [ho, ho', List.map_cons, List.map_cons] at constructs
      exact .inr ⟨o, outer, o', outer', rfl, rfl, List.cons.inj constructs⟩

theorem Place.Alike.endError {p q : Place} (h : p.Alike q) (next next' : Option Token)
    (expected : List Expected) : ((p.cursor next).endError expected).words =
      ((q.cursor next').endError expected).words := by
  unfold Cursor.endError Place.cursor
  rcases h.openers_cases with ⟨hp, hq⟩ | ⟨o, outer, o', outer', hp, hq, same, -⟩
  · rw [hp, hq]
    rfl
  · simp only [hp, hq, same]
    rfl

theorem Place.Alike.mismatch {p q : Place} (h : p.Alike q) (kind : Token.Kind) (a b : Span)
    (expected : List Expected) :
    (match p.openers.head?.filter fun opener =>
        kind.isClosing && kind != .punctuator opener.construct.closer with
      | some opener => Cursor.mismatchError opener kind.text a
      | none => .unexpectedToken expected kind.text a : ParseError).words =
    (match q.openers.head?.filter fun opener =>
        kind.isClosing && kind != .punctuator opener.construct.closer with
      | some opener => Cursor.mismatchError opener kind.text b
      | none => .unexpectedToken expected kind.text b : ParseError).words := by
  rcases h.openers_cases with ⟨hp, hq⟩ | ⟨o, outer, o', outer', hp, hq, same, -⟩
  · rw [hp, hq]
    rfl
  · rw [hp, hq, List.head?_cons, List.head?_cons, Option.filter_some, Option.filter_some, same]
    cases kind.isClosing && kind != .punctuator o'.construct.closer with
    | true =>
      simp only [if_true, Cursor.mismatchError, same]
      rfl
    | false => rfl

theorem Place.Alike.unexpected {p q : Place} (h : p.Alike q) {gap : Bool}
    {next next' : Option Token} (hn : NextAlike gap next next') (expected : List Expected) :
    ((p.cursor next).unexpected expected).words = ((q.cursor next').unexpected expected).words := by
  cases hn with
  | none => exact h.endError none none expected
  | @some t u ht =>
    have atEnd := h.endError (some t) (some u) expected
    have other := h.mismatch t.kind t.span u.span expected
    unfold Cursor.unexpected
    simp only [Place.cursor, Option.toList_some, ← ht.kind]
    cases hk : t.kind with
    | endOfInput => exact atEnd
    | invalid message notes => rfl
    | _ =>
      rw [hk] at other
      exact other

namespace Step

variable {gap : Bool} {p q : Place} {next next' : Option Token}

theorem failed_alike {e f : ParseError} (h : e.words = f.words) : (failed e).Alike (failed f) :=
  congrArg Except.error h

theorem refused_alike (hp : p.Alike q) (hn : NextAlike gap next next') (expected : List Expected) :
    (refused p next expected).Alike (refused q next' expected) :=
  failed_alike (hp.unexpected hn expected)

theorem fitting_alike {step step' : Step} {a b : Span} (ha : a.Fits) (hb : b.Fits)
    (h : step.Alike step') : (fitting a step).Alike (fitting b step') := by
  rw [fitting, fitting, if_pos ha, if_pos hb]
  exact h

theorem reaching_alike (hp : p.Alike q) {step step' : Step} (h : step.Alike step') :
    (reaching p step).Alike (reaching q step') := by
  rw [reaching_of_fits hp.fits, reaching_of_fits hp.fits']
  exact h

theorem onKind_alike {kind : Token.Kind} {yes yes' : Token → Place → Step} {no no' : Step}
    (hp : p.Alike q) (hn : NextAlike gap next next')
    (hyes : ∀ t u, t.Alike gap u → ∀ p' q' : Place, p'.Alike q' →
      p'.openers = p.openers → q'.openers = q.openers → (yes t p').Alike (yes' u q'))
    (hno : no.Alike no') : (onKind kind p next yes no).Alike (onKind kind q next' yes' no') := by
  cases hn with
  | none => exact hno
  | @some t u ht =>
    unfold onKind
    dsimp only
    by_cases hk : t.kind = kind
    · rw [if_pos hk, if_pos (ht.kind.symm.trans hk)]
      exact hyes t u ht _ _ (ht.behind hp) rfl rfl
    · rw [if_neg hk, if_neg fun hu => hk (ht.kind.trans hu)]
      exact hno

theorem onName_alike {yes yes' : String → Token → Place → Step} {no no' : Step}
    (hp : p.Alike q) (hn : NextAlike gap next next')
    (hyes : ∀ text t u, t.kind = .name text → t.Alike gap u → ∀ p' q' : Place, p'.Alike q' →
      (yes text t p').Alike (yes' text u q'))
    (hno : no.Alike no') : (onName p next yes no).Alike (onName q next' yes' no') := by
  cases hn with
  | none => exact hno
  | @some t u ht =>
    have kind := ht.kind
    unfold onName
    cases hk : t.kind with
    | name text =>
      have step := hyes text t u hk ht _ _ (ht.behind hp)
      rw [hk] at kind
      simpa only [hk, ← kind] using step
    | _ =>
      rw [hk] at kind
      simpa only [hk, ← kind] using hno

theorem entered_alike {t u : Token} (ht : t.Alike gap u) (hp : p.Alike q) (spot : Spot) :
    (entered t spot p).Alike (entered u spot q) :=
  fitting_alike ht.fits ht.fits' ⟨rfl, hp⟩

theorem named_alike (hp : p.Alike q) (hn : NextAlike gap next next') (role : Expected)
    (spot : String → Spot) : (named p next role spot).Alike (named q next' role spot) :=
  onName_alike hp hn (fun _ _ _ _ ht _ _ hpq => entered_alike ht hpq _) (refused_alike hp hn _)

theorem closed_alike (hp : p.Alike q) (hn : NextAlike gap next next') {yes : Place → Step}
    (hyes : ∀ p' q' : Place, p'.Alike q' → (yes p').Alike (yes q')) :
    (closed p next yes).Alike (closed q next' yes) := by
  unfold closed
  rcases hp.openers_cases with ⟨ho, ho'⟩ | ⟨o, outer, o', outer', ho, ho', same, constructs⟩
  · rw [ho, ho']
    exact failed_alike rfl
  · rw [ho, ho']
    dsimp only
    rw [same]
    refine onKind_alike hp hn (fun t u ht p' q' hpq _ _ => hyes _ _ ?_) (refused_alike hp hn _)
    exact ⟨constructs, hpq.fits, hpq.fits'⟩

theorem colonError_alike (hp : p.Alike q) (hn : NextAlike gap next next') (name : String) :
    (Parse.colonError name (p.cursor next)).words =
      (Parse.colonError name (q.cursor next')).words := by
  have words := hp.unexpected hn [.punctuator .colon]
  have causes := congrArg (·.2.1) words
  unfold Parse.colonError
  dsimp only [ParseError.words] at causes ⊢
  rw [causes]
  split
  · exact ParseError.words_addHelp words _
  · exact words

theorem colon_alike (hp : p.Alike q) (hn : NextAlike gap next next') (name : String) (spot : Spot) :
    (colon p next name spot).Alike (colon q next' name spot) :=
  onKind_alike hp hn (fun _ _ _ _ _ hpq _ _ => ⟨rfl, hpq⟩) (failed_alike (colonError_alike hp hn _))

theorem declaration_alike (hp : p.Alike q) (hn : NextAlike gap next next') (role : Expected)
    (plural : String) (first : Bool) (hgap : first = true ∨ gap = true) (spot : String → Spot) :
    (declaration p next role plural first spot).Alike
      (declaration q next' role plural first spot) := by
  refine onKind_alike hp hn (fun t u ht p' q' hpq _ _ => ?_)
    (onName_alike hp hn (fun text t u hk ht p' q' hpq => ?_) (refused_alike hp hn _))
  · exact closed_alike hp hn fun p' q' hpq => reaching_alike hpq ⟨rfl, hpq⟩
  · have same : (first || t.isSeparated) = (first || u.isSeparated) := by
      rcases hgap with hfirst | hgap
      · rw [hfirst, Bool.true_or, Bool.true_or]
      · rw [ht.separated hgap (by rw [hk]; rfl)]
    rw [same]
    split
    · exact entered_alike ht hpq _
    · exact failed_alike rfl

theorem type_alike (hp : p.Alike q) (hn : NextAlike gap next next') (owner : Owner)
    (levels : Nat) : (type p next owner levels).Alike (type q next' owner levels) := by
  unfold type
  split
  · exact failed_alike rfl
  · exact onKind_alike hp hn (fun t u ht _ _ hpq _ _ => entered_alike ht (hpq.opened _ t u) _)
      (named_alike hp hn _ _)

theorem parameterListError_alike (hp : p.Alike q) (hn : NextAlike gap next next') :
    (Parse.parameterListError (p.cursor next)).words =
      (Parse.parameterListError (q.cursor next')).words := by
  have words := hp.unexpected hn [.punctuator .comma, .punctuator .parenClose]
  have names : (p.cursor next).rest.head?.any (·.kind.isName) =
      (q.cursor next').rest.head?.any (·.kind.isName) := by
    cases hn with
    | none => rfl
    | some ht => exact congrArg Token.Kind.isName ht.kind
  unfold Parse.parameterListError
  rw [names]
  split
  · exact ParseError.words_addHelp words _
  · exact words

theorem behindType_alike (hp : p.Alike q) (hn : NextAlike gap next next') (owner : Owner)
    (levels : Nat) (hgap : (Spot.behindType owner levels).behindDeclaration = true → gap = true) :
    (behindType p next owner levels).Alike (behindType q next' owner levels) := by
  cases levels with
  | succ levels => exact closed_alike hp hn fun p' q' hpq => ⟨rfl, hpq⟩
  | zero =>
    cases owner with
    | field => exact declaration_alike hp hn _ _ _ (.inr (hgap rfl)) _
    | parameter fieldName =>
      refine onKind_alike hp hn (fun _ _ _ _ _ hpq _ _ => ⟨rfl, hpq⟩)
        (onKind_alike hp hn (fun _ _ _ _ _ _ _ _ => ?_)
          (failed_alike (parameterListError_alike hp hn)))
      exact closed_alike hp hn fun p' q' hpq => ⟨rfl, hpq⟩

theorem finished_alike (hn : NextAlike gap next next') : (finished next).Alike (finished next') := by
  cases hn with
  | none => rfl
  | @some t u ht =>
    unfold finished
    simp only [← ht.kind]
    cases t.kind <;> rfl

theorem act_alike (hp : p.Alike q) (hn : NextAlike gap next next') (spot : Spot)
    (hgap : spot.behindDeclaration = true → gap = true) :
    (act p next spot).Alike (act q next' spot) := by
  cases spot with
  | start =>
    rw [act, act, start, start]
    refine onKind_alike hp hn (fun t u ht _ _ hpq _ _ => entered_alike ht (hpq.opened _ t u) _)
      (onKind_alike hp hn (fun t u ht _ _ hpq _ _ => entered_alike ht hpq _)
        (refused_alike hp hn _))
  | enumBrace =>
    rw [act, act]
    exact onKind_alike hp hn (fun t u _ _ _ hpq _ _ => ⟨rfl, hpq.opened _ t u⟩)
      (refused_alike hp hn _)
  | firstField => exact declaration_alike hp hn _ _ _ (.inl rfl) _
  | firstValue => exact declaration_alike hp hn _ _ _ (.inl rfl) _
  | laterValue => exact declaration_alike hp hn _ _ _ (.inr (hgap rfl)) _
  | fieldHead fieldName =>
    rw [act, act]
    exact onKind_alike hp hn (fun t u _ _ _ hpq _ _ => ⟨rfl, hpq.opened _ t u⟩)
      (colon_alike hp hn _ _)
  | firstParameter fieldName =>
    rw [act, act, firstParameter, firstParameter]
    refine onKind_alike hp hn (fun t u _ p' q' hpq _ _ => ?_) (named_alike hp hn _ _)
    rcases hpq.openers_cases with ⟨ho, ho'⟩ | ⟨o, outer, o', outer', ho, ho', -, -⟩
    · rw [ho, ho']
      exact failed_alike rfl
    · rw [ho, ho']
      exact failed_alike rfl
  | laterParameter fieldName => exact named_alike hp hn _ _
  | parameterColon fieldName parameter => exact colon_alike hp hn _ _
  | fieldColon fieldName => exact colon_alike hp hn _ _
  | type owner levels => exact type_alike hp hn _ _
  | typeEnd owner levels =>
    rw [act, act, typeEnd, typeEnd]
    refine onKind_alike hp hn (fun t u ht _ _ hpq _ _ => entered_alike ht hpq _)
      (reaching_alike hp (behindType_alike hp hn _ _ fun h => hgap ?_))
    cases owner <;> cases levels <;> first | rfl | cases h
  | behindType owner levels => exact behindType_alike hp hn _ _ hgap
  | finished => exact finished_alike hn

end Step

/-- Machines on token lists alike come to the same verdict. -/
theorem run_alike {closed : Bool} {ts us : List Token} (hts : TokensAlike closed ts us)
    {p q : Place} (hp : p.Alike q) {spot : Spot} (footing : p.constructs = spot.constructs)
    (hclosed : spot.behindDeclaration = true → closed = true) :
    outcomeWords (run spot p ts) = outcomeWords (run spot q us) := by
  induction ts generalizing closed us p q spot with
  | nil =>
    cases us with
    | cons u us => exact hts.elim
    | nil =>
      have step := Step.act_alike hp .none spot hclosed
      obtain ⟨v, hv⟩ := @Step.act_none_stops p spot
      obtain ⟨w, hw⟩ := @Step.act_none_stops q spot
      rw [hv, hw] at step
      rw [run_eq, run_eq, List.head?_nil, hv, hw]
      exact step
  | cons t ts ih =>
    cases us with
    | nil => exact hts.elim
    | cons u us =>
      have step := Step.act_alike hp (.some hts.1) spot hclosed
      have sound : (Step.act p (some t) spot).Sound t.kind.endsDeclaration := Step.act_sound footing
      rw [run_eq, run_eq, List.head?_cons, List.head?_cons, List.tail_cons, List.tail_cons]
      revert step sound
      cases Step.act p (some t) spot with
      | stopped v =>
        cases Step.act q (some u) spot with
        | stopped w => exact fun step _ => step
        | moved spot' q' => exact fun step _ => step.elim
      | moved spot' p' =>
        cases Step.act q (some u) spot with
        | stopped w => exact fun step _ => step.elim
        | moved spot'' q' =>
          rintro ⟨rfl, hpq⟩ ⟨constructs, behind⟩
          exact ih hts.2 hpq constructs behind

end ShapeSchema
