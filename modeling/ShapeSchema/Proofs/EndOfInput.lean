import ShapeSchema.Proofs.ReadingLimits
import ShapeSchema.Proofs.UniqueTrees
set_option autoImplicit false

namespace ShapeSchema

/-- The same outcome, up to the span of the error that types are nested too deeply. -/
inductive SameOutcome {α : Type} : Except ParseError α → Except ParseError α → Prop
  | same (outcome : Except ParseError α) : SameOutcome outcome outcome
  | tooDeep (span other : Span) : SameOutcome (.error (.tooDeep span)) (.error (.tooDeep other))

theorem SameOutcome.eq {α : Type} {outcome other : Except ParseError α}
    (h : SameOutcome outcome other) (flat : ∀ span, outcome ≠ .error (.tooDeep span)) :
    outcome = other := by
  cases h with
  | same => rfl
  | tooDeep span other => exact absurd rfl (flat span)

theorem SameOutcome.of_map {α β : Type} {f : α → β} {outcome other : Except ParseError α}
    (h : SameOutcome (outcome.map f) (other.map f))
    (accepted : ∀ a b, outcome = .ok a → other = .ok b → a = b) : SameOutcome outcome other := by
  cases outcome with
  | error e =>
    cases other with
    | ok b => cases h
    | error e' =>
      cases h with
      | same => exact .same _
      | tooDeep span span' => exact .tooDeep span span'
  | ok a =>
    cases other with
    | error e => cases h
    | ok b =>
      rw [accepted a b rfl rfl]
      exact .same _

section EndOfInput

variable {e : Token} {place : Place}

theorem Place.unexpected_endOfInput (he : e.kind = .endOfInput) (place : Place)
    (expected : List Expected) :
    (place.cursor (some e)).unexpected expected = (place.cursor none).unexpected expected := by
  simp only [Cursor.unexpected, cursor, Option.toList_some, Option.toList_none, he]
  rfl

namespace Step

theorem refused_endOfInput (he : e.kind = .endOfInput) (place : Place) (expected : List Expected) :
    refused place (some e) expected = refused place none expected := by
  rw [refused, Place.unexpected_endOfInput he]
  rfl

theorem onKind_endOfInput (he : e.kind = .endOfInput) {kind : Token.Kind}
    (other : kind ≠ .endOfInput) (place : Place) (yes : Token → Place → Step) (no : Step) :
    onKind kind place (some e) yes no = no := by
  refine onKind_of_not_kind ?_ place yes no
  rintro _ ⟨⟩ hk
  exact other (hk.symm.trans he)

theorem onSign_endOfInput (he : e.kind = .endOfInput) (p : Punctuator) (place : Place)
    (yes : Token → Place → Step) (no : Step) :
    onKind (.punctuator p) place (some e) yes no = no :=
  onKind_endOfInput he (by simp) place yes no

theorem onName_endOfInput (he : e.kind = .endOfInput) (place : Place)
    (yes : String → Token → Place → Step) (no : Step) : onName place (some e) yes no = no := by
  refine onName_of_not_name ?_ place yes no
  rintro _ ⟨⟩
  rw [he]
  rfl

theorem named_endOfInput (he : e.kind = .endOfInput) (place : Place) (role : Expected)
    (spot : String → Spot) : named place (some e) role spot = named place none role spot := by
  rw [named, onName_endOfInput he, refused_endOfInput he]
  rfl

theorem closed_endOfInput (he : e.kind = .endOfInput) {c : Construct} {cs : List Construct}
    (h : place.constructs = c :: cs) (yes : Place → Step) :
    closed place (some e) yes = closed place none yes := by
  unfold closed
  cases ho : place.openers with
  | nil =>
    rw [Place.constructs, ho] at h
    cases h
  | cons opener outer =>
    dsimp only
    rw [onSign_endOfInput he, refused_endOfInput he]
    rfl

theorem colon_endOfInput (he : e.kind = .endOfInput) (place : Place) (name : String) (spot : Spot) :
    colon place (some e) name spot = colon place none name spot := by
  rw [colon, onSign_endOfInput he, Parse.colonError, Place.unexpected_endOfInput he]
  rfl

theorem declaration_endOfInput (he : e.kind = .endOfInput) (place : Place) (role : Expected)
    (plural : String) (first : Bool) (spot : String → Spot) :
    declaration place (some e) role plural first spot =
      declaration place none role plural first spot := by
  rw [declaration, onSign_endOfInput he, onName_endOfInput he, refused_endOfInput he]
  rfl

theorem type_endOfInput (he : e.kind = .endOfInput) (place : Place) (owner : Owner) {levels : Nat}
    (h : levels ≠ Parse.maxDepth) :
    type place (some e) owner levels = type place none owner levels := by
  rw [type, type, if_neg h, if_neg h, onSign_endOfInput he, named_endOfInput he]
  rfl

theorem parametersEnd_endOfInput (he : e.kind = .endOfInput) (place : Place) (field : String) :
    parametersEnd place (some e) field = parametersEnd place none field := by
  have unnamed : (place.cursor (some e)).rest.head?.any (·.kind.isName) = false := by
    simp [Place.cursor, he, Token.Kind.isName, Token.Kind.name?]
  rw [parametersEnd, onSign_endOfInput he, Parse.parameterListError, unnamed,
    Place.unexpected_endOfInput he]
  rfl

theorem behindType_endOfInput (he : e.kind = .endOfInput) {owner : Owner} {levels : Nat}
    (h : place.constructs = (Spot.behindType owner levels).constructs) :
    behindType place (some e) owner levels = behindType place none owner levels := by
  cases levels with
  | succ levels => exact closed_endOfInput he h _
  | zero =>
    cases owner with
    | field => exact declaration_endOfInput he _ _ _ _ _
    | parameter field =>
      rw [behindType, onSign_endOfInput he, parametersEnd_endOfInput he]
      rfl

/-- A token that says that the input ends does what no token does, unless types would become too
    deep. -/
theorem act_endOfInput (he : e.kind = .endOfInput) {spot : Spot}
    (h : place.constructs = spot.constructs)
    (shallow : ∀ owner, spot ≠ .type owner Parse.maxDepth) :
    act place (some e) spot = act place none spot := by
  cases spot with
  | start =>
    have word : Token.Kind.name "enum" ≠ .endOfInput := by simp
    rw [act, start, onSign_endOfInput he, onKind_endOfInput he word, refused_endOfInput he]
    rfl
  | enumBrace =>
    rw [act, onSign_endOfInput he, refused_endOfInput he]
    rfl
  | firstField | firstValue | laterValue => exact declaration_endOfInput he _ _ _ _ _
  | fieldHead field =>
    rw [act, onSign_endOfInput he, colon_endOfInput he]
    rfl
  | firstParameter field =>
    rw [act, firstParameter, onSign_endOfInput he, named_endOfInput he]
    rfl
  | laterParameter field => exact named_endOfInput he _ _ _
  | parameterColon field parameter => exact colon_endOfInput he _ _ _
  | fieldColon field => exact colon_endOfInput he _ _ _
  | type owner levels =>
    exact type_endOfInput he _ _ fun deep => shallow owner (by rw [deep])
  | typeEnd owner levels =>
    rw [act, typeEnd, onSign_endOfInput he, behindType_endOfInput he h]
    rfl
  | behindType owner levels => exact behindType_endOfInput he h
  | finished =>
    rw [act, finished, he]
    rfl

end Step

theorem run_endOfInput (he : e.kind = .endOfInput) (ts : List Token) (spot : Spot) (place : Place)
    (h : place.constructs = spot.constructs) :
    SameOutcome (run spot place ts) (run spot place (ts ++ [e])) := by
  -- the spot and the place keep telling the same constructs, which a closing delimiter asks for
  induction ts generalizing spot place with
  | nil =>
    by_cases deep : ∃ owner, spot = .type owner Parse.maxDepth
    · obtain ⟨owner, rfl⟩ := deep
      obtain ⟨span, bare⟩ := run_too_deep owner place []
      obtain ⟨other, ended⟩ := run_too_deep owner place [e]
      rw [bare, List.nil_append, ended]
      exact .tooDeep span other
    · have shallow (owner : Owner) : spot ≠ .type owner Parse.maxDepth := fun hs => deep ⟨owner, hs⟩
      rw [List.nil_append, run_eq spot place [e], run_eq spot place [], List.head?_cons,
        Step.act_endOfInput he h shallow]
      exact .same _
  | cons t ts ih =>
    have sound : (Step.act place (some t) spot).Sound (endsBy (some t)) := Step.act_sound h
    rw [List.cons_append, run, run]
    cases hstep : Step.act place (some t) spot with
    | stopped verdict => exact .same verdict
    | moved later behind =>
      rw [hstep] at sound
      exact ih later behind sound.1

theorem significant_concat (he : e.kind = .endOfInput) (ts : List Token) :
    significant (ts ++ [e]) = significant ts := by
  have none : [e].takeWhile (fun t => t.kind ≠ .endOfInput) = [] := by simp [he]
  rw [significant, significant, List.takeWhile_append, none, List.append_nil]
  split
  · next whole => exact (List.takeWhile_prefix _).eq_of_length whole |>.symm
  · rfl

namespace Syntax.Block

theorem ofTokens?_unique {ts us : List Token} {b c : Block ByteSpan}
    (hb : (ofTokens? ts).value = .ok b) (hc : (ofTokens? us).value = .ok c)
    (same : significant ts = significant us) : b = c := by
  obtain ⟨overB, -⟩ := over_of_value_ofTokens? hb
  obtain ⟨overC, flat⟩ := over_of_value_ofTokens? hc
  rw [← same] at overC
  refine overB.unique overC (bare_of_spells ?_ ((shallow_map _ _).mpr flat) hb)
  rw [marks_bare]
  exact overC.spells

theorem sameOutcome_endOfInput (he : e.kind = .endOfInput) (ts : List Token) :
    SameOutcome (ofTokens? ts).value (ofTokens? (ts ++ [e])).value := by
  have verdicts := run_endOfInput he ts .start ⟨[], none⟩ rfl
  rw [← map_value_ofTokens?, ← map_value_ofTokens?] at verdicts
  exact verdicts.of_map fun b c hb hc => ofTokens?_unique hb hc (significant_concat he ts).symm

theorem ofTokens?_behind_endOfInput (he : e.kind = .endOfInput) (ts later : List Token) :
    (ofTokens? (ts ++ [e])).value = (ofTokens? (ts ++ e :: later)).value := by
  obtain ⟨used, result, follows⟩ := Parse.block_looksAhead (.ofTokens (ts ++ [e]))
  have split : ts ++ [e] = used ++ (Parse.behind result).rest := follows.rest
  rcases (Parse.behind result).rest.eq_nil_or_concat with none | ⟨ahead, last, hlast⟩
  · -- the token itself is never read
    rw [none, List.append_nil] at split
    exact absurd he (follows.plain e (by simp [← split])).1
  · rw [List.concat_eq_append] at hlast
    rw [hlast, ← List.append_assoc] at split
    obtain ⟨rfl, ⟨⟩⟩ := List.append_inj' split rfl
    have next : (ahead ++ e :: later).head? = (Parse.behind result).rest.head? := by
      rw [hlast]
      cases ahead <;> rfl
    rw [value_of_follows follows next, List.append_assoc]

/-- It makes no difference whether tokens end with a token that says so, or just end, or go on
    behind such a token. Only the error for types that are nested too deeply may point elsewhere. -/
theorem ofTokens?_endOfInput (ts : List Token) {e : Token} (he : e.kind = .endOfInput)
    (later : List Token) :
    SameOutcome (ofTokens? ts).value (ofTokens? (ts ++ [e])).value ∧
      SameOutcome (ofTokens? ts).value (ofTokens? (ts ++ e :: later)).value ∧
      (ofTokens? (ts ++ [e])).value = (ofTokens? (ts ++ e :: later)).value := by
  have same := ofTokens?_behind_endOfInput he ts later
  have outcome := sameOutcome_endOfInput he ts
  exact ⟨outcome, same ▸ outcome, same⟩

def farEnd : Token := ⟨.endOfInput, [], .empty ⟨7, 0, 99, 99⟩⟩

def openLists : List Token :=
  (Token.ofText "\x7ba:").take 3 ++
    List.replicate Parse.maxDepth ⟨.punctuator .bracketOpen, [], .empty ⟨0, 3, 3, 3⟩⟩

theorem ofTokens?_endOfInput_open_block_and_too_deep :
    farEnd.kind = .endOfInput ∧
    (∃ fault, (ofTokens? ((Token.ofText "\x7ba:T").take 4)).value = .error fault ∧
      (ofTokens? ((Token.ofText "\x7ba:T").take 4 ++ [farEnd])).value = .error fault ∧
      (ofTokens? ((Token.ofText "\x7ba:T").take 4 ++ farEnd :: Token.ofText "\x7d")).value =
        .error fault) ∧
    ∃ span other, span ≠ other ∧
      (ofTokens? openLists).value = .error (.tooDeep span) ∧
      (ofTokens? (openLists ++ [farEnd])).value = .error (.tooDeep other) := by
  have fails : (ofTokens? ((Token.ofText "\x7ba:T").take 4)).value =
      .error ⟨"unclosed `\x7b`", .empty ⟨0, 4, 4, 4⟩, .unclosedDelimiter "\x7b",
        [.generalAt "object block opened here" ⟨⟨0, 0, 0, 0⟩, ⟨0, 1, 1, 1⟩⟩]⟩ :=
    run_eq_error_iff.mp (by decide +kernel)
  have flat (span : Span) : (ofTokens? ((Token.ofText "\x7ba:T").take 4)).value ≠
      .error (.tooDeep span) := by
    intro deep
    have message := congrArg ParseError.message (Except.error.inj (fails.symm.trans deep))
    simp [ParseError.tooDeep] at message
  obtain ⟨ended, goesOn, -⟩ :=
    ofTokens?_endOfInput ((Token.ofText "\x7ba:T").take 4) (e := farEnd) rfl (Token.ofText "\x7d")
  refine ⟨rfl, ⟨_, fails, (ended.eq flat).symm.trans fails, (goesOn.eq flat).symm.trans fails⟩,
    .empty ⟨0, 3, 3, 3⟩, farEnd.span, by decide, run_eq_error_iff.mp ?_, run_eq_error_iff.mp ?_⟩
  · decide +kernel
  · decide +kernel

end Syntax.Block

end EndOfInput

end ShapeSchema
