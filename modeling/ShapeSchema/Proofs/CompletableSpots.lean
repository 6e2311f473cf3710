import ShapeSchema.Proofs.MachineSimulation
import ShapeSchema.Proofs.SpotConstructs
set_option autoImplicit false

namespace ShapeSchema

def Token.ofKind (kind : Token.Kind) : Token := ⟨kind, [], .empty .start⟩

theorem Token.fits_ofKind (kind : Token.Kind) : (ofKind kind).span.Fits :=
  ⟨Nat.zero_le _, Nat.zero_le _⟩

/-- Some tokens take the machine to an accepting end. -/
def Completable (spot : Spot) (place : Place) : Prop := ∃ ts, run spot place ts = .ok ()

variable {place : Place}

theorem Completable.of_step {spot next : Spot} {behind : Place} (kind : Token.Kind)
    (moves : Step.act place (some (.ofKind kind)) spot = .moved next behind)
    (h : Completable next behind) : Completable spot place := by
  obtain ⟨ts, hts⟩ := h
  refine ⟨.ofKind kind :: ts, ?_⟩
  rw [run, moves]
  exact hts

theorem completable_finished : Completable .finished place := ⟨[], rfl⟩

namespace Step

variable {kind other : Token.Kind} {yes : Token → Place → Step} {no : Step}

theorem onKind_ofKind : onKind kind place (some (.ofKind kind)) yes no =
    yes (.ofKind kind) (place.behind (.ofKind kind)) :=
  onKind_of_kind rfl rfl yes no

theorem onKind_ofKind_of_ne (h : other ≠ kind) :
    onKind kind place (some (.ofKind other)) yes no = no :=
  if_neg h

theorem entered_of_fits {t : Token} (fits : t.span.Fits) (spot : Spot) (place : Place) :
    entered t spot place = .moved spot place := if_pos fits

theorem entered_ofKind (spot : Spot) :
    entered (.ofKind kind) spot place = .moved spot place :=
  entered_of_fits (Token.fits_ofKind kind) spot place

theorem named_ofKind (text : String) (role : Expected) (spot : String → Spot) :
    named place (some (.ofKind (.name text))) role spot =
      .moved (spot text) (place.behind (.ofKind (.name text))) := by
  rw [named_of_name rfl rfl, entered_ofKind]

theorem closed_closer {c : Construct} {cs : List Construct} (h : place.constructs = c :: cs)
    (t : Token) (hk : t.kind = .punctuator c.closer) (yes : Place → Step) :
    ∃ behind : Place, behind.constructs = cs ∧ behind.lastEnd = some t.span.stop ∧
      closed place (some t) yes = yes behind := by
  obtain ⟨opener, outer, ho, rfl, rfl⟩ := List.map_eq_cons_iff.mp h
  refine ⟨⟨outer, some t.span.stop⟩, rfl, rfl, ?_⟩
  unfold closed
  rw [ho]
  exact onKind_of_kind rfl hk _ _

theorem declaration_brace {c : Construct} (h : place.constructs = [c])
    (brace : c.closer = .braceClose) {t : Token} (hk : t.kind = .punctuator .braceClose)
    (fits : t.span.Fits) (role : Expected) (plural : String) (first : Bool)
    (spot : String → Spot) :
    ∃ behind, declaration place (some t) role plural first spot = .moved .finished behind := by
  obtain ⟨behind, -, last, closes⟩ :=
    closed_closer h t (brace ▸ hk) fun behind => reaching behind (.moved .finished behind)
  refine ⟨behind, ?_⟩
  rw [declaration, onKind_of_kind rfl hk, closes, reaching_of_fits]
  rw [last]
  rintro _ ⟨⟩
  exact fits.2

end Step

open Step

theorem completable_of_declaration {spot : Spot} {c : Construct} {role : Expected}
    {plural : String} {first : Bool} {later : String → Spot}
    (act : ∀ next, Step.act place next spot = declaration place next role plural first later)
    (h : place.constructs = [c]) (brace : c.closer = .braceClose) : Completable spot place := by
  obtain ⟨behind, moves⟩ :=
    declaration_brace h brace rfl (Token.fits_ofKind _) role plural first later
  exact .of_step (.punctuator .braceClose) ((act _).trans moves) completable_finished

theorem completable_typeEnd {owner : Owner} {levels : Nat}
    (h : Completable (.behindType owner levels) (place.behind (.ofKind (.punctuator .bang)))) :
    Completable (.typeEnd owner levels) place := by
  refine .of_step (.punctuator .bang) ?_ h
  rw [act, typeEnd, onKind_ofKind, entered_ofKind]

theorem completable_behindType {owner : Owner}
    (outermost : ∀ place : Place, place.constructs = owner.constructs →
      Completable (.behindType owner 0) place)
    {levels : Nat} (h : place.constructs = (Spot.behindType owner levels).constructs) :
    Completable (.behindType owner levels) place := by
  induction levels generalizing place with
  | zero => exact outermost place h
  | succ levels ih =>
    obtain ⟨behind, inner, -, closes⟩ :=
      closed_closer h (.ofKind (.punctuator .bracketClose)) rfl fun behind =>
        .moved (.typeEnd owner levels) behind
    exact .of_step (.punctuator .bracketClose) closes (completable_typeEnd (ih inner))

theorem completable_type {owner : Owner} {levels : Nat} (shallow : levels ≠ Parse.maxDepth)
    (h : ∀ behind : Place, behind.constructs = place.constructs →
      Completable (.behindType owner levels) behind) : Completable (.type owner levels) place := by
  have ended : Completable (.typeEnd owner levels) (place.behind (.ofKind (.name "T"))) :=
    completable_typeEnd (h _ rfl)
  refine .of_step (.name "T") ?_ ended
  rw [act, type, if_neg shallow, onKind_ofKind_of_ne (by simp), named_ofKind]

theorem completable_colon {spot : Spot} {owner : Owner} (name : String)
    (act : ∀ next, next = some (.ofKind (.punctuator .colon)) →
      Step.act place next spot = colon place next name (.type owner 0))
    (h : ∀ behind : Place, behind.constructs = place.constructs →
      Completable (.behindType owner 0) behind) : Completable spot place := by
  have typed : Completable (.type owner 0) (place.behind (.ofKind (.punctuator .colon))) :=
    completable_type (by decide) h
  refine .of_step (.punctuator .colon) ?_ typed
  rw [act _ rfl, colon, onKind_ofKind]

theorem completable_behindFieldType {levels : Nat}
    (h : place.constructs = (Spot.behindType .field levels).constructs) :
    Completable (.behindType .field levels) place := by
  refine completable_behindType (fun place outermost => ?_) h
  have block : place.constructs = [.objectBlock] := outermost
  exact completable_of_declaration (fun _ => rfl) block rfl

theorem completable_fieldColon {field : String} (h : place.constructs = [.objectBlock]) :
    Completable (.fieldColon field) place :=
  completable_colon field (fun _ _ => rfl) fun _ same => completable_behindFieldType (same.trans h)

theorem completable_behindParameterType {field : String} {levels : Nat}
    (h : place.constructs = (Spot.behindType (.parameter field) levels).constructs) :
    Completable (.behindType (.parameter field) levels) place := by
  refine completable_behindType (fun place outermost => ?_) h
  obtain ⟨behind, inner, -, closes⟩ :=
    closed_closer outermost (.ofKind (.punctuator .parenClose)) rfl fun behind =>
      .moved (.fieldColon field) behind
  have typed : Completable (.fieldColon field) behind := completable_fieldColon inner
  refine .of_step (.punctuator .parenClose) ?_ typed
  rw [act, behindType, onKind_ofKind_of_ne (by simp), parametersEnd, onKind_ofKind]
  exact closes

theorem completable_parameterColon {field parameter : String}
    (h : place.constructs = [.parameterList, .objectBlock]) :
    Completable (.parameterColon field parameter) place :=
  completable_colon parameter (fun _ _ => rfl) fun _ same =>
    completable_behindParameterType (same.trans h)

theorem completable_behind {owner : Owner} {levels : Nat}
    (h : place.constructs = (Spot.behindType owner levels).constructs) :
    Completable (.behindType owner levels) place := by
  cases owner with
  | field => exact completable_behindFieldType h
  | parameter field => exact completable_behindParameterType h

/-- The machine can be led to an accepting end from every spot but one in front of a type that would
    be nested too deep. -/
theorem completable {spot : Spot} (h : place.constructs = spot.constructs)
    (shallow : ∀ owner, spot ≠ .type owner Parse.maxDepth) : Completable spot place := by
  have opened (c : Construct) (kind : Token.Kind) :
      ((place.behind (.ofKind kind)).opened c (.ofKind kind)).constructs = c :: spot.constructs :=
    congrArg (c :: ·) h
  cases spot with
  | start =>
    have block : Completable .firstField _ :=
      completable_of_declaration (fun _ => rfl) (opened .objectBlock (.punctuator .braceOpen)) rfl
    refine .of_step (.punctuator .braceOpen) ?_ block
    rw [act, start, onKind_ofKind, entered_ofKind]
  | enumBrace =>
    have block : Completable .firstValue _ :=
      completable_of_declaration (fun _ => rfl) (opened .enumBlock (.punctuator .braceOpen)) rfl
    refine .of_step (.punctuator .braceOpen) ?_ block
    rw [act, onKind_ofKind]
  | firstField => exact completable_of_declaration (fun _ => rfl) h rfl
  | firstValue => exact completable_of_declaration (fun _ => rfl) h rfl
  | laterValue => exact completable_of_declaration (fun _ => rfl) h rfl
  | fieldHead field =>
    refine completable_colon field (fun next colon => ?_) fun _ same =>
      completable_behindFieldType (same.trans h)
    rw [colon, act, onKind_ofKind_of_ne (by simp)]
  | firstParameter field =>
    have named : Completable (.parameterColon field "p") (place.behind (.ofKind (.name "p"))) :=
      completable_parameterColon h
    refine .of_step (.name "p") ?_ named
    rw [act, firstParameter, onKind_ofKind_of_ne (by simp), named_ofKind]
  | laterParameter field =>
    have named : Completable (.parameterColon field "p") (place.behind (.ofKind (.name "p"))) :=
      completable_parameterColon h
    refine .of_step (.name "p") ?_ named
    rw [act, named_ofKind]
  | parameterColon field parameter => exact completable_parameterColon h
  | fieldColon field => exact completable_fieldColon h
  | type owner levels =>
    have below : levels ≠ Parse.maxDepth := fun same => shallow owner (same ▸ rfl)
    exact completable_type below fun behind same => completable_behind (same.trans h)
  | typeEnd owner levels => exact completable_typeEnd (completable_behind h)
  | behindType owner levels => exact completable_behind h
  | finished => exact completable_finished

end ShapeSchema
