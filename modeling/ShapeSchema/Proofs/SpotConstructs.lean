import ShapeSchema.Proofs.ReadingMachine
import ShapeSchema.Proofs.SparedSeparators
set_option autoImplicit false

namespace ShapeSchema

def Owner.constructs : Owner → List Construct
  | .field => [.objectBlock]
  | .parameter _ => [.parameterList, .objectBlock]

namespace Spot

def constructs : Spot → List Construct
  | .start | .enumBrace | .finished => []
  | .firstField | .fieldHead _ | .fieldColon _ => [.objectBlock]
  | .firstValue | .laterValue => [.enumBlock]
  | .firstParameter _ | .laterParameter _ | .parameterColon _ _ => [.parameterList, .objectBlock]
  | .type owner levels | .typeEnd owner levels | .behindType owner levels =>
    List.replicate levels .listType ++ owner.constructs

def behindDeclaration : Spot → Bool
  | .laterValue | .typeEnd .field 0 | .behindType .field 0 => true
  | _ => false

end Spot

def Place.constructs (place : Place) : List Construct := place.openers.map Opener.construct

def endsBy (next : Option Token) : Bool := next.any (·.kind.endsDeclaration)

namespace Step

/-- Where the step leads to, the spot tells the open constructs, and it is not behind a declaration
    unless `ends`. -/
def Sound (ends : Bool) : Step → Prop
  | .moved spot place =>
    place.constructs = spot.constructs ∧ (spot.behindDeclaration = true → ends = true)
  | .stopped _ => True

variable {ends : Bool} {place : Place} {next : Option Token}

theorem fitting_sound {step : Step} {span : Span} (h : step.Sound ends) :
    (fitting span step).Sound ends := by
  unfold fitting
  split
  · exact h
  · trivial

theorem reaching_sound {step : Step} (h : step.Sound ends) : (reaching place step).Sound ends := by
  unfold reaching
  split
  · exact h
  · exact fitting_sound h

theorem onKind_sound {kind : Token.Kind} {yes : Token → Place → Step} {no : Step}
    (hyes : ∀ t, t.kind = kind → next = some t → ∀ behind : Place,
      behind.openers = place.openers → (yes t behind).Sound kind.endsDeclaration)
    (hno : no.Sound (endsBy next)) : (onKind kind place next yes no).Sound (endsBy next) := by
  cases next with
  | none => exact hno
  | some t =>
    unfold onKind
    dsimp only
    by_cases hk : t.kind = kind
    · rw [if_pos hk]
      have step := hyes t hk rfl (place.behind t) rfl
      rw [← hk] at step
      exact step
    · rw [if_neg hk]
      exact hno

theorem onName_sound {yes : String → Token → Place → Step} {no : Step}
    (hyes : ∀ text t, ∀ behind : Place, behind.openers = place.openers →
      (yes text t behind).Sound true)
    (hno : no.Sound (endsBy next)) : (onName place next yes no).Sound (endsBy next) := by
  cases next with
  | none => exact hno
  | some t =>
    unfold onName
    dsimp only
    cases hk : t.kind with
    | name text =>
      have ends : endsBy (some t) = true := by rw [endsBy, Option.any_some, hk]; rfl
      rw [ends]
      exact hyes text t (place.behind t) rfl
    | _ => exact hno

theorem entered_sound {t : Token} {spot : Spot} (h : place.constructs = spot.constructs)
    (hends : spot.behindDeclaration = true → ends = true) : (entered t spot place).Sound ends :=
  fitting_sound ⟨h, hends⟩

theorem named_sound (role : Expected) {spot : String → Spot}
    (h : ∀ text, place.constructs = (spot text).constructs) :
    (named place next role spot).Sound (endsBy next) := by
  refine onName_sound (fun text t behind same => entered_sound ?_ fun _ => rfl) trivial
  rw [Place.constructs, same]
  exact h text

theorem closed_sound {yes : Place → Step} {c : Construct} {cs : List Construct}
    (h : place.constructs = c :: cs)
    (hyes : ∀ behind : Place, behind.constructs = cs →
      (yes behind).Sound (Token.Kind.endsDeclaration (.punctuator c.closer))) :
    (closed place next yes).Sound (endsBy next) := by
  unfold closed
  cases ho : place.openers with
  | nil => trivial
  | cons opener outer =>
    rw [Place.constructs, ho, List.map_cons, List.cons.injEq] at h
    refine onKind_sound (fun t _ _ behind _ => ?_) trivial
    rw [h.1]
    exact hyes _ h.2

theorem colon_sound (name : String) {spot : Spot} (h : place.constructs = spot.constructs)
    (hspot : spot.behindDeclaration = false) : (colon place next name spot).Sound (endsBy next) := by
  refine onKind_sound (fun t _ _ behind same => ⟨?_, by simp [hspot]⟩) trivial
  rw [Place.constructs, same]
  exact h

theorem declaration_sound (role : Expected) (plural : String) (first : Bool) {spot : String → Spot}
    {c : Construct} (h : place.constructs = [c]) (hspot : ∀ text, (spot text).constructs = [c]) :
    (declaration place next role plural first spot).Sound (endsBy next) := by
  refine onKind_sound (fun t hk ht _ _ => ?_) (onName_sound (fun text t behind same => ?_) trivial)
  · have ends : Token.Kind.endsDeclaration (.punctuator .braceClose) = endsBy next := by
      rw [ht, endsBy, Option.any_some, hk]
    rw [ends]
    exact closed_sound h fun behind hb => reaching_sound ⟨hb, fun hf => by cases hf⟩
  · split
    · refine entered_sound ?_ fun _ => rfl
      rw [Place.constructs, same, hspot]
      exact h
    · trivial

theorem type_sound {owner : Owner} {levels : Nat}
    (h : place.constructs = (Spot.type owner levels).constructs) :
    (type place next owner levels).Sound (endsBy next) := by
  unfold type
  split
  · trivial
  · refine onKind_sound (fun t _ _ behind same => entered_sound ?_ fun hf => by cases hf)
      (named_sound _ fun _ => h)
    rw [Place.constructs] at h ⊢
    rw [Place.opened, same, List.map_cons, h]
    rfl

theorem behindType_sound {owner : Owner} {levels : Nat}
    (h : place.constructs = (Spot.behindType owner levels).constructs) :
    (behindType place next owner levels).Sound (endsBy next) := by
  cases levels with
  | succ levels => exact closed_sound h fun behind hb => ⟨hb, fun _ => rfl⟩
  | zero =>
    cases owner with
    | field => exact declaration_sound _ _ _ h fun _ => rfl
    | parameter fieldName =>
      refine onKind_sound (fun t _ _ behind same => ⟨?_, fun hf => by cases hf⟩)
        (onKind_sound (fun t hk ht _ _ => ?_) trivial)
      · rw [Place.constructs, same]
        exact h
      · have ends : Token.Kind.endsDeclaration (.punctuator .parenClose) = endsBy next := by
          rw [ht, endsBy, Option.any_some, hk]
        rw [ends]
        exact closed_sound h fun behind hb => ⟨hb, fun hf => by cases hf⟩

/-- Every step keeps to the constructs that the spot tells. -/
theorem act_sound {spot : Spot} (h : place.constructs = spot.constructs) :
    (act place next spot).Sound (endsBy next) := by
  have kept {behind : Place} (same : behind.openers = place.openers) :
      behind.constructs = spot.constructs := by
    rw [Place.constructs, same]
    exact h
  have opened {behind : Place} (same : behind.openers = place.openers) (c : Construct) (t : Token) :
      (behind.opened c t).constructs = c :: spot.constructs :=
    congrArg (c :: ·) (kept same)
  cases spot with
  | start =>
    rw [act, start]
    refine onKind_sound (fun t _ _ behind same => entered_sound (opened same _ t) ?_)
      (onKind_sound (fun t _ _ behind same => entered_sound (kept same) ?_) trivial)
    · exact fun hf => by cases hf
    · exact fun hf => by cases hf
  | enumBrace =>
    rw [act]
    exact onKind_sound (fun t _ _ behind same => ⟨opened same _ t, fun hf => by cases hf⟩) trivial
  | firstField => exact declaration_sound _ _ _ h fun _ => rfl
  | firstValue => exact declaration_sound _ _ _ h fun _ => rfl
  | laterValue => exact declaration_sound _ _ _ h fun _ => rfl
  | fieldHead fieldName =>
    rw [act]
    exact onKind_sound (fun t _ _ behind same => ⟨opened same _ t, fun hf => by cases hf⟩)
      (colon_sound _ h rfl)
  | firstParameter fieldName =>
    rw [act, firstParameter]
    refine onKind_sound (fun t _ _ behind _ => ?_) (named_sound _ fun _ => h)
    cases behind.openers <;> trivial
  | laterParameter fieldName => exact named_sound _ fun _ => h
  | parameterColon fieldName parameter => exact colon_sound _ h rfl
  | fieldColon fieldName => exact colon_sound _ h rfl
  | type owner levels => exact type_sound h
  | typeEnd owner levels =>
    rw [act, typeEnd]
    exact onKind_sound (fun t _ _ behind same => entered_sound (kept same) fun _ => rfl)
      (reaching_sound (behindType_sound h))
  | behindType owner levels => exact behindType_sound h
  | finished =>
    cases next with
    | none => trivial
    | some t =>
      rw [act, finished]
      cases t.kind <;> trivial

end Step

end ShapeSchema
