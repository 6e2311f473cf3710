import ShapeSchema.Proofs.SpotConstructs
import ShapeSchema.Proofs.TokenLookahead
set_option autoImplicit false

namespace ShapeSchema

namespace Token

def Kind.isLevel : Token.Kind → Bool
  | .name _ | .punctuator .bang | .punctuator .colon | .punctuator .comma => true
  | _ => false

theorem plain_of_name {t : Token} {text : String} (h : t.kind = .name text) : t.Plain := by
  simp [Plain, h]

theorem plain_of_punctuator {t : Token} {p : Punctuator} (h : t.kind = .punctuator p) :
    t.Plain := by
  simp [Plain, h]

theorem plain_of_isLevel {t : Token} (h : t.kind.isLevel = true) : t.Plain := by
  refine ⟨?_, fun message notes => ?_⟩
  · rintro same
    rw [same] at h
    cases h
  · rintro same
    rw [same] at h
    cases h

end Token

namespace Spot

def begins? : Spot → Option Construct
  | .start => some .objectBlock
  | .enumBrace => some .enumBlock
  | .fieldHead _ => some .parameterList
  | .type _ _ => some .listType
  | _ => none

def expectedBehind : Owner → Nat → List Expected
  | _, _ + 1 => [.punctuator .bracketClose]
  | .field, 0 => [.fieldName, .punctuator .braceClose]
  | .parameter _, 0 => [.punctuator .comma, .punctuator .parenClose]

def expected : Spot → List Expected
  | .start => [.punctuator .braceOpen, .enumOpener]
  | .enumBrace => [.punctuator .braceOpen]
  | .firstField => [.fieldName, .punctuator .braceClose]
  | .firstValue | .laterValue => [.enumValue, .punctuator .braceClose]
  | .fieldHead _ | .parameterColon _ _ | .fieldColon _ => [.punctuator .colon]
  | .firstParameter _ | .laterParameter _ => [.parameterName]
  | .type _ _ => [.typeName]
  | .typeEnd owner levels | .behindType owner levels => expectedBehind owner levels
  | .finished => []

/-- What the spot tells about the token before it. -/
def Tells (openers : List Opener) (previous : Option Token) : Spot → Prop
  | .start => previous = none
  | .enumBrace => ∃ t, previous = some t ∧ t.kind = .name "enum"
  | .firstParameter _ => ∃ t outer, previous = some t ∧ t.kind = .punctuator .parenOpen ∧
      openers = ⟨.parameterList, t.span⟩ :: outer
  | .finished => ∃ t, previous = some t ∧ t.kind = .punctuator .braceClose
  | _ => True

end Spot

inductive Place.Turns (spot : Spot) (place : Place) (t : Token) : Place → Prop
  | kept : t.kind.isLevel = true → Turns spot place t (place.behind t)
  | opened {c} : t.kind = .punctuator c.opener → spot.begins? = some c →
      Turns spot place t ((place.behind t).opened c t)
  | closed {opener outer} : place.openers = opener :: outer →
      t.kind = .punctuator opener.construct.closer →
      Turns spot place t ⟨outer, some t.span.stop⟩

/-- The errors with which the machine can stop at a spot, in front of the token `next` or of
    nothing. -/
inductive Spot.Blames (spot : Spot) (place : Place) : Option Token → ParseError → Prop
  | token {t : Token} {helps : List Note} : t.Plain → (∀ note ∈ helps, note.span = none) →
      Blames spot place (some t)
        { ParseError.unexpectedToken spot.expected t.kind.text t.span with notes := helps }
  | ended {next : Option Token} : (∀ t ∈ next, t.kind = .endOfInput) →
      Blames spot place next ((place.cursor next).endError spot.expected)
  | mismatched {t : Token} {p : Punctuator} {opener : Opener} {outer : List Opener} :
      place.openers = opener :: outer → t.kind = .punctuator p → p.isClosing = true →
      p ≠ opener.construct.closer →
      Blames spot place (some t) (Cursor.mismatchError opener p.text t.span)
  | invalid {t : Token} {message : String} {notes : List Note} : t.kind = .invalid message notes →
      Blames spot place (some t) (.ofInvalid message t.span notes)
  | joined {t : Token} {text plural : String} : t.kind = .name text →
      Blames spot place (some t) (.missingSeparator plural text t.span)
  | empty {t : Token} {field : String} {opener : Opener} {outer : List Opener} :
      spot = .firstParameter field → place.openers = opener :: outer →
      t.kind = .punctuator .parenClose →
      Blames spot place (some t) (.emptyParameterList ⟨opener.span.start, t.span.stop⟩)
  | trailing {t : Token} : spot = .finished → t.Plain →
      Blames spot place (some t) (.trailingInput t.kind.text t.span)
  | deep {next : Option Token} :
      Blames spot place next (.tooDeep (place.cursor next).nextSpan)

theorem Cursor.endError_cases (s : Cursor) (expected : List Expected) :
    (s.openers = [] ∧ s.endError expected = .unexpectedEnd expected s.reached) ∨
      ∃ opener outer, s.openers = opener :: outer ∧ s.endError expected =
        ⟨s!"unclosed `{opener.construct.opener.text}`", .empty s.reached,
          .unclosedDelimiter opener.construct.opener.text,
          [.generalAt s!"{opener.construct.description} opened here" opener.span]⟩ := by
  unfold endError
  cases s.openers with
  | nil => exact .inl ⟨rfl, rfl⟩
  | cons opener outer => exact .inr ⟨opener, outer, rfl, rfl⟩

theorem Place.unexpected_of_name (place : Place) (expected : List Expected) {t : Token}
    {text : String} (hk : t.kind = .name text) :
    (place.cursor (some t)).unexpected expected = .unexpectedToken expected text t.span := by
  have none : place.openers.head?.filter (fun opener =>
      Token.Kind.isClosing (.name text) &&
        Token.Kind.name text != .punctuator opener.construct.closer) = none :=
    Option.filter_eq_none_iff.mpr fun _ _ => Bool.false_ne_true
  simp only [Cursor.unexpected, cursor, Option.toList_some, hk, none]
  rfl

namespace Spot.Blames

variable {spot : Spot} {place : Place} {next : Option Token} {e : ParseError}

theorem unexpected : spot.Blames place next ((place.cursor next).unexpected spot.expected) := by
  cases next with
  | none => exact .ended (by simp)
  | some t =>
    cases hk : t.kind with
    | endOfInput =>
      simp only [Cursor.unexpected, Place.cursor, Option.toList_some, hk]
      exact .ended (by simpa using hk)
    | invalid message notes =>
      simp only [Cursor.unexpected, Place.cursor, Option.toList_some, hk]
      exact .invalid hk
    | name text =>
      have written : t.kind.text = text := by rw [hk]; rfl
      rw [place.unexpected_of_name _ hk, ← written]
      exact .token (Token.plain_of_name hk) (by simp)
    | punctuator p =>
      have written : t.kind.text = (Token.Kind.punctuator p).text := by rw [hk]
      simp only [Cursor.unexpected, Place.cursor, Option.toList_some, hk]
      split
      · next opener hf =>
        obtain ⟨head, wrong⟩ := Option.filter_eq_some_iff.mp hf
        obtain ⟨outer, openers⟩ := List.head?_eq_some_iff.mp head
        simp only [Token.Kind.isClosing, Bool.and_eq_true, bne_iff_ne, ne_eq,
          Token.Kind.punctuator.injEq] at wrong
        exact .mismatched openers hk wrong.1 wrong.2
      · rw [← written]
        exact .token (Token.plain_of_punctuator hk) (by simp)

theorem addHelp {expected : List String} {found : String} (h : spot.Blames place next e)
    (cause : e.cause = .unexpectedToken expected found) (message : String) :
    spot.Blames place next (e.addHelp message) := by
  cases h with
  | token plain spanless =>
    refine .token plain (List.forall_mem_append.mpr ⟨spanless, ?_⟩)
    simp [Note.help]
  | ended ends =>
    rcases (ParseError.isEnd_endError (place.cursor next) spot.expected).cause with
      ⟨delimiter, other⟩ | ⟨expected, other⟩
    · rw [other] at cause
      cases cause
    · rw [other] at cause
      cases cause
  | _ => cases cause

theorem colonError (asks : spot.expected = [.punctuator .colon]) (name : String) :
    spot.Blames place next (Parse.colonError name (place.cursor next)) := by
  have blamed : spot.Blames place next _ := unexpected
  rw [asks] at blamed
  unfold Parse.colonError
  dsimp only
  split
  · next cause => exact blamed.addHelp cause _
  · exact blamed

theorem parameterListError (asks : spot.expected = [.punctuator .comma, .punctuator .parenClose]) :
    spot.Blames place next (Parse.parameterListError (place.cursor next)) := by
  have blamed : spot.Blames place next _ := unexpected
  rw [asks] at blamed
  unfold Parse.parameterListError
  dsimp only
  split
  · next named =>
    cases next with
    | none => cases named
    | some t =>
      have named : t.kind.isName = true := named
      obtain ⟨text, hk⟩ := Token.Kind.isName_iff.mp named
      rw [place.unexpected_of_name _ hk] at blamed ⊢
      exact blamed.addHelp rfl _
  · exact blamed

end Spot.Blames

structure Place.Fits (place : Place) (next : Option Token) : Prop where
  next : ∀ t ∈ next, t.span.Fits
  lastEnd : ∀ p ∈ place.lastEnd, p.offset ≤ ByteSpan.limit

namespace Step

/-- What a step at the spot can be, in front of `next`. -/
inductive Effect (spot : Spot) (place : Place) (next : Option Token) : Step → Prop
  | read {t later behind} : next = some t → place.Turns spot t behind →
      later.Tells behind.openers (some t) → Effect spot place next (.moved later behind)
  | accepted : Effect spot place next (.stopped (.ok ()))
  | blamed {e} : spot.Blames place next e → Effect spot place next (failed e)

variable {spot later : Spot} {place : Place} {next : Option Token} {kind : Token.Kind} {t : Token}

theorem onKind_effect {yes : Token → Place → Step} {no : Step}
    (hyes : ∀ t, next = some t → t.kind = kind → (yes t (place.behind t)).Effect spot place next)
    (hno : (∀ t ∈ next, t.kind ≠ kind) → no.Effect spot place next) :
    (onKind kind place next yes no).Effect spot place next := by
  by_cases h : ∃ t, next = some t ∧ t.kind = kind
  · obtain ⟨t, ht, hk⟩ := h
    rw [onKind_of_kind ht hk]
    exact hyes t ht hk
  · have other : ∀ t ∈ next, t.kind ≠ kind := fun t ht hk => h ⟨t, ht, hk⟩
    rw [onKind_of_not_kind other]
    exact hno other

theorem onName_effect {yes : String → Token → Place → Step} {no : Step}
    (hyes : ∀ text t, next = some t → t.kind = .name text →
      (yes text t (place.behind t)).Effect spot place next)
    (hno : no.Effect spot place next) : (onName place next yes no).Effect spot place next := by
  cases next with
  | none => exact hno
  | some t =>
    unfold onName
    dsimp only
    cases hk : t.kind with
    | name text => exact hyes text t rfl hk
    | _ => exact hno

theorem refused_effect {expected : List Expected} (asks : spot.expected = expected) :
    (refused place next expected).Effect spot place next :=
  asks ▸ .blamed .unexpected

theorem entered_effect {behind : Place} (fits : place.Fits next) (ht : next = some t)
    (turns : place.Turns spot t behind) (tells : later.Tells behind.openers (some t)) :
    (entered t later behind).Effect spot place next := by
  rw [entered, fitting, if_pos (fits.next t ht)]
  exact .read ht turns tells

theorem reaching_effect {step : Step} (fits : place.Fits next)
    (h : step.Effect spot place next) : (reaching place step).Effect spot place next := by
  rw [reaching_of_fits fits.lastEnd]
  exact h

theorem named_effect {role : Expected} {later : String → Spot} (fits : place.Fits next)
    (asks : spot.expected = [role])
    (tells : ∀ text openers previous, (later text).Tells openers previous) :
    (named place next role later).Effect spot place next := by
  refine onName_effect (fun text t ht hk => ?_) (refused_effect asks)
  exact entered_effect fits ht (.kept (by rw [hk]; rfl)) (tells text _ _)

theorem closed_effect {yes : Place → Step} {c : Construct} {cs : List Construct}
    (stands : place.constructs = c :: cs)
    (hyes : ∀ t behind, next = some t → t.kind = .punctuator c.closer →
      place.Turns spot t behind → behind.lastEnd = some t.span.stop →
      (yes behind).Effect spot place next)
    (hno : (∀ t ∈ next, t.kind ≠ .punctuator c.closer) →
      (refused place next [.punctuator c.closer]).Effect spot place next) :
    (closed place next yes).Effect spot place next := by
  obtain ⟨opener, outer, openers, rfl, -⟩ := List.map_eq_cons_iff.mp stands
  unfold closed
  rw [openers]
  exact onKind_effect (fun t ht hk => hyes t _ ht hk (.closed openers hk) rfl) hno

theorem colon_effect (asks : spot.expected = [.punctuator .colon]) (name : String)
    (tells : ∀ openers previous, later.Tells openers previous) :
    (colon place next name later).Effect spot place next :=
  onKind_effect (fun t ht hk => .read ht (.kept (by rw [hk]; rfl)) (tells _ _))
    fun _ => .blamed (.colonError asks name)

theorem declaration_effect {role : Expected} {plural : String} {first : Bool}
    {later : String → Spot} {c : Construct} (fits : place.Fits next)
    (stands : place.constructs = [c]) (brace : c.closer = .braceClose)
    (asks : spot.expected = [role, .punctuator .braceClose])
    (tells : ∀ text openers previous, (later text).Tells openers previous) :
    (declaration place next role plural first later).Effect spot place next := by
  refine onKind_effect (fun t ht hk => ?_) fun _ => onName_effect (fun text t ht hk => ?_)
    (refused_effect asks)
  · -- the brace closes the block: its construct is the innermost one
    refine closed_effect stands (fun u behind hu hk turns last => ?_) fun other => ?_
    · rw [reaching_of_fits]
      · exact .read hu turns ⟨u, rfl, brace ▸ hk⟩
      · rw [last]
        rintro _ ⟨⟩
        exact (fits.next u hu).2
    · exact absurd (brace ▸ hk) (other t ht)
  · split
    · exact entered_effect fits ht (.kept (by rw [hk]; rfl)) (tells text _ _)
    · exact .blamed (ht ▸ .joined hk)

theorem type_effect {owner : Owner} {levels : Nat} (fits : place.Fits next) :
    (type place next owner levels).Effect (.type owner levels) place next := by
  unfold type
  split
  · exact .blamed .deep
  · refine onKind_effect (fun t ht hk => ?_) fun _ => named_effect fits rfl fun _ _ _ => trivial
    exact entered_effect fits ht (.opened hk rfl) trivial

theorem behindType_effect {owner : Owner} {levels : Nat} (fits : place.Fits next)
    (stands : place.constructs = (Spot.behindType owner levels).constructs)
    (asks : spot.expected = Spot.expectedBehind owner levels) :
    (behindType place next owner levels).Effect spot place next := by
  cases levels with
  | succ levels =>
    exact closed_effect stands (fun t behind ht _ turns _ => .read ht turns trivial)
      fun _ => refused_effect asks
  | zero =>
    cases owner with
    | field => exact declaration_effect fits stands rfl asks fun _ _ _ => trivial
    | parameter field =>
      refine onKind_effect (fun t ht hk => .read ht (.kept (by rw [hk]; rfl)) trivial) fun _ =>
        onKind_effect (fun t ht hk => ?_) fun _ => .blamed (.parameterListError asks)
      exact closed_effect stands (fun u behind hu _ turns _ => .read hu turns trivial)
        fun other => absurd hk (other t ht)

theorem firstParameter_effect {field : String} (fits : place.Fits next)
    (stands : place.constructs = [.parameterList, .objectBlock]) :
    (firstParameter place next field).Effect (.firstParameter field) place next := by
  obtain ⟨opener, outer, openers, -, -⟩ := List.map_eq_cons_iff.mp stands
  refine onKind_effect (fun t ht hk => ?_) fun _ => named_effect fits rfl fun _ _ _ => trivial
  have openers_behind : (place.behind t).openers = opener :: outer := openers
  rw [openers_behind]
  exact .blamed (ht ▸ .empty rfl openers hk)

theorem finished_effect : (finished next).Effect .finished place next := by
  cases next with
  | none => exact .accepted
  | some t =>
    unfold finished
    dsimp only
    cases hk : t.kind with
    | endOfInput => exact .accepted
    | invalid message notes => exact .blamed (.invalid hk)
    | name text => exact .blamed (hk ▸ .trailing rfl (Token.plain_of_name hk))
    | punctuator p => exact .blamed (hk ▸ .trailing rfl (Token.plain_of_punctuator hk))

/-- Every step reads the next token or stops with an error that the spot explains. -/
theorem act_effect (fits : place.Fits next) (stands : place.constructs = spot.constructs) :
    (act place next spot).Effect spot place next := by
  cases spot with
  | start =>
    rw [act, start]
    refine onKind_effect (fun t ht hk => ?_) fun _ => onKind_effect (fun t ht hk => ?_)
      fun _ => refused_effect rfl
    · exact entered_effect fits ht (.opened hk rfl) trivial
    · exact entered_effect fits ht (.kept (by rw [hk]; rfl)) ⟨t, rfl, hk⟩
  | enumBrace =>
    rw [act]
    exact onKind_effect (fun t ht hk => .read ht (.opened hk rfl) trivial)
      fun _ => refused_effect rfl
  | firstField => exact declaration_effect fits stands rfl rfl fun _ _ _ => trivial
  | firstValue => exact declaration_effect fits stands rfl rfl fun _ _ _ => trivial
  | laterValue => exact declaration_effect fits stands rfl rfl fun _ _ _ => trivial
  | fieldHead field =>
    rw [act]
    exact onKind_effect
      (fun t ht hk => .read ht (.opened hk rfl) ⟨t, place.openers, rfl, hk, rfl⟩)
      fun _ => colon_effect rfl field fun _ _ => trivial
  | firstParameter field => exact firstParameter_effect fits stands
  | laterParameter field => exact named_effect fits rfl fun _ _ _ => trivial
  | parameterColon field parameter => exact colon_effect rfl parameter fun _ _ => trivial
  | fieldColon field => exact colon_effect rfl field fun _ _ => trivial
  | type owner levels => exact type_effect fits
  | typeEnd owner levels =>
    rw [act, typeEnd]
    refine onKind_effect (fun t ht hk => ?_)
      fun _ => reaching_effect fits (behindType_effect fits stands rfl)
    exact entered_effect fits ht (.kept (by rw [hk]; rfl)) trivial
  | behindType owner levels => exact behindType_effect fits stands rfl
  | finished => exact finished_effect

end Step

end ShapeSchema
