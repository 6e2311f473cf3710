import ShapeSchema.Syntax.Grammar
set_option autoImplicit false

/-!
# The grammar as a machine

A machine that reads one token after the other and tells whether a token list is accepted, and with
which error it is refused otherwise. What it does next depends on the spot that it is at, on the open
delimiters and the end of the last token, and on the next token, if there is one. Trees are not built.
-/

namespace ShapeSchema

inductive Owner
  | field
  | parameter (field : String)
  deriving DecidableEq, Repr

/-- A place of the grammar between two tokens. Inside a type expression, `levels` counts the list
    types around it. -/
inductive Spot
  | start
  | enumBrace
  | firstField
  | firstValue
  | laterValue
  | fieldHead (field : String)
  | firstParameter (field : String)
  | laterParameter (field : String)
  | parameterColon (field parameter : String)
  | fieldColon (field : String)
  | type (owner : Owner) (levels : Nat)
  | typeEnd (owner : Owner) (levels : Nat)
  | behindType (owner : Owner) (levels : Nat)
  | finished
  deriving DecidableEq, Repr

/-- What the machine remembers of the tokens read. -/
structure Place where
  openers : List Opener
  lastEnd : Option Position
  deriving DecidableEq, Repr

abbrev Verdict := Except ParseError Unit

inductive Step
  | moved (spot : Spot) (place : Place)
  | stopped (verdict : Verdict)

namespace Place

def cursor (place : Place) (next : Option Token) : Cursor :=
  ⟨next.toList, place.openers, 0, place.lastEnd, []⟩

def behind (place : Place) (t : Token) : Place := { place with lastEnd := some t.span.stop }

def opened (place : Place) (c : Construct) (t : Token) : Place :=
  { place with openers := ⟨c, t.span⟩ :: place.openers }

end Place

namespace Step

def failed (e : ParseError) : Step := .stopped (.error e)

def refused (place : Place) (next : Option Token) (expected : List Expected) : Step :=
  failed ((place.cursor next).unexpected expected)

def fitting (span : Span) (step : Step) : Step :=
  if span.Fits then step else failed (.tooLarge span)

def reaching (place : Place) (step : Step) : Step :=
  match place.lastEnd with
  | none => step
  | some p => fitting (.empty p) step

theorem reaching_of_fits {place : Place} (fits : ∀ p ∈ place.lastEnd, p.offset ≤ ByteSpan.limit)
    (step : Step) : reaching place step = step := by
  unfold reaching
  cases hl : place.lastEnd with
  | none => rfl
  | some p => exact if_pos ⟨fits p hl, fits p hl⟩

def onKind (kind : Token.Kind) (place : Place) (next : Option Token) (yes : Token → Place → Step)
    (no : Step) : Step :=
  match next with
  | none => no
  | some t => if t.kind = kind then yes t (place.behind t) else no

def onName (place : Place) (next : Option Token) (yes : String → Token → Place → Step)
    (no : Step) : Step :=
  match next with
  | none => no
  | some t =>
    match t.kind with
    | .name text => yes text t (place.behind t)
    | _ => no

def entered (t : Token) (spot : Spot) (place : Place) : Step := fitting t.span (.moved spot place)

def named (place : Place) (next : Option Token) (role : Expected) (spot : String → Spot) : Step :=
  onName place next (fun text t place => entered t (spot text) place) (refused place next [role])

def closed (place : Place) (next : Option Token) (yes : Place → Step) : Step :=
  match place.openers with
  | [] => failed (.noOpenDelimiter (place.cursor next).nextSpan)
  | opener :: outer =>
    onKind (.punctuator opener.construct.closer) place next
      (fun _ place => yes { place with openers := outer })
      (refused place next [.punctuator opener.construct.closer])

def colon (place : Place) (next : Option Token) (name : String) (spot : Spot) : Step :=
  onKind (.punctuator .colon) place next (fun _ place => .moved spot place)
    (failed (Parse.colonError name (place.cursor next)))

def declaration (place : Place) (next : Option Token) (role : Expected) (plural : String)
    (first : Bool) (spot : String → Spot) : Step :=
  onKind (.punctuator .braceClose) place next
    (fun _ _ => closed place next fun place => reaching place (.moved .finished place))
    (onName place next
      (fun text t place =>
        if first || t.isSeparated then entered t (spot text) place
        else failed (.missingSeparator plural text t.span))
      (refused place next [role, .punctuator .braceClose]))

def type (place : Place) (next : Option Token) (owner : Owner) (levels : Nat) : Step :=
  if levels = Parse.maxDepth then failed (.tooDeep (place.cursor next).nextSpan)
  else
    onKind (.punctuator .bracketOpen) place next
      (fun t place => entered t (.type owner (levels + 1)) (place.opened .listType t))
      (named place next .typeName fun _ => .typeEnd owner levels)

def parametersEnd (place : Place) (next : Option Token) (field : String) : Step :=
  onKind (.punctuator .parenClose) place next
    (fun _ _ => closed place next fun place => .moved (.fieldColon field) place)
    (failed (Parse.parameterListError (place.cursor next)))

def behindType (place : Place) (next : Option Token) : Owner → Nat → Step
  | owner, levels + 1 => closed place next fun place => .moved (.typeEnd owner levels) place
  | .field, 0 => declaration place next .fieldName "fields" false .fieldHead
  | .parameter field, 0 =>
    onKind (.punctuator .comma) place next (fun _ place => .moved (.laterParameter field) place)
      (parametersEnd place next field)

def typeEnd (place : Place) (next : Option Token) (owner : Owner) (levels : Nat) : Step :=
  onKind (.punctuator .bang) place next (fun t place => entered t (.behindType owner levels) place)
    (reaching place (behindType place next owner levels))

def firstParameter (place : Place) (next : Option Token) (field : String) : Step :=
  onKind (.punctuator .parenClose) place next
    (fun t place =>
      match place.openers with
      | [] => failed (.noOpenDelimiter t.span)
      | opener :: _ => failed (.emptyParameterList ⟨opener.span.start, t.span.stop⟩))
    (named place next .parameterName (.parameterColon field))

def finished (next : Option Token) : Step :=
  match next with
  | none => .stopped (.ok ())
  | some t =>
    match t.kind with
    | .endOfInput => .stopped (.ok ())
    | .invalid message notes => failed (.ofInvalid message t.span notes)
    | kind => failed (.trailingInput kind.text t.span)

def start (place : Place) (next : Option Token) : Step :=
  onKind (.punctuator .braceOpen) place next
    (fun t place => entered t .firstField (place.opened .objectBlock t))
    (onKind (.name "enum") place next (fun t place => entered t .enumBrace place)
      (refused place next [.punctuator .braceOpen, .enumOpener]))

def act (place : Place) (next : Option Token) : Spot → Step
  | .start => start place next
  | .enumBrace =>
    onKind (.punctuator .braceOpen) place next
      (fun t place => .moved .firstValue (place.opened .enumBlock t))
      (refused place next [.punctuator .braceOpen])
  | .firstField => declaration place next .fieldName "fields" true .fieldHead
  | .firstValue => declaration place next .enumValue "enum values" true fun _ => .laterValue
  | .laterValue => declaration place next .enumValue "enum values" false fun _ => .laterValue
  | .fieldHead field =>
    onKind (.punctuator .parenOpen) place next
      (fun t place => .moved (.firstParameter field) (place.opened .parameterList t))
      (colon place next field (.type .field 0))
  | .firstParameter field => firstParameter place next field
  | .laterParameter field => named place next .parameterName (.parameterColon field)
  | .parameterColon field parameter => colon place next parameter (.type (.parameter field) 0)
  | .fieldColon field => colon place next field (.type .field 0)
  | .type owner levels => type place next owner levels
  | .typeEnd owner levels => typeEnd place next owner levels
  | .behindType owner levels => behindType place next owner levels
  | .finished => finished next

end Step

/-- The machine over a token list; no step is taken where there is no token. -/
def run (spot : Spot) (place : Place) : List Token → Verdict
  | [] =>
    match Step.act place none spot with
    | .moved _ _ => .ok ()
    | .stopped verdict => verdict
  | t :: rest =>
    match Step.act place (some t) spot with
    | .moved spot place => run spot place rest
    | .stopped verdict => verdict

def Step.outcome (step : Step) (rest : List Token) : Verdict :=
  match step with
  | .moved spot place => run spot place rest
  | .stopped verdict => verdict

namespace Step

def Stops (step : Step) : Prop := ∃ verdict, step = .stopped verdict

variable {place : Place}

theorem failed_stops (e : ParseError) : (failed e).Stops := ⟨_, rfl⟩

theorem fitting_stops {span : Span} {step : Step} (h : step.Stops) : (fitting span step).Stops := by
  unfold fitting
  split
  · exact h
  · exact failed_stops _

theorem reaching_stops {step : Step} (h : step.Stops) : (reaching place step).Stops := by
  unfold reaching
  split
  · exact h
  · exact fitting_stops h

theorem closed_stops (yes : Place → Step) : (closed place none yes).Stops := by
  unfold closed
  split <;> exact failed_stops _

theorem type_stops (owner : Owner) (levels : Nat) : (type place none owner levels).Stops := by
  unfold type
  split <;> exact failed_stops _

theorem behindType_stops (owner : Owner) (levels : Nat) :
    (behindType place none owner levels).Stops := by
  cases levels with
  | succ levels => exact closed_stops _
  | zero => cases owner <;> exact failed_stops _

theorem act_none_stops (spot : Spot) : (act place none spot).Stops := by
  cases spot with
  | type owner levels => exact type_stops owner levels
  | typeEnd owner levels => exact reaching_stops (behindType_stops owner levels)
  | behindType owner levels => exact behindType_stops owner levels
  | finished => exact ⟨_, rfl⟩
  | _ => exact failed_stops _

end Step

theorem run_eq (spot : Spot) (place : Place) (ts : List Token) :
    run spot place ts = (Step.act place ts.head? spot).outcome ts.tail := by
  cases ts with
  | nil =>
    obtain ⟨verdict, stops⟩ := @Step.act_none_stops place spot
    simp only [run, List.head?_nil, stops, Step.outcome]
  | cons t rest => rfl

end ShapeSchema
