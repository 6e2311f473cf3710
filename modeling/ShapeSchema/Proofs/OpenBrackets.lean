import ShapeSchema.Proofs.StepEffects
set_option autoImplicit false

namespace ShapeSchema

/-- The construct that an opening bracket begins; a brace begins an enum block right behind the word
    `enum` and an object block elsewhere. -/
def Construct.begun? (previous : Option Token) : Token.Kind → Option Construct
  | .punctuator .braceOpen =>
    some (if previous.any (·.kind = .name "enum") then .enumBlock else .objectBlock)
  | .punctuator .parenOpen => some .parameterList
  | .punctuator .bracketOpen => some .listType
  | _ => none

def closeBracket (kind : Token.Kind) : List Opener → Option (List Opener)
  | [] => none
  | opener :: outer => if kind = .punctuator opener.construct.closer then some outer else none

/-- The openers behind one more token, innermost first; none when it closes another bracket than the
    innermost. -/
def matchBracket (previous : Option Token) (openers : List Opener) (t : Token) :
    Option (List Opener) :=
  match Construct.begun? previous t.kind with
  | some c => some (⟨c, t.span⟩ :: openers)
  | none => if t.kind.isClosing then closeBracket t.kind openers else some openers

/-- The openers that tokens leave open, innermost first; none when brackets do not nest. -/
def openBehind (previous : Option Token) (openers : List Opener) :
    List Token → Option (List Opener)
  | [] => some openers
  | t :: ts => (matchBracket previous openers t).bind fun openers => openBehind (some t) openers ts

/-- The brackets of a token list that are not closed again, innermost first. -/
def leftOpen (ts : List Token) : Option (List Opener) := openBehind none [] ts

variable {spot : Spot} {place behind : Place} {previous : Option Token} {t : Token}
  {openers : List Opener} {us vs : List Token}

theorem matchBracket_of_isLevel (h : t.kind.isLevel = true) :
    matchBracket previous openers t = some openers := by
  unfold matchBracket
  cases hk : t.kind with
  | name text => rfl
  | punctuator p =>
    rw [hk] at h
    cases p with
    | bang => rfl
    | colon => rfl
    | comma => rfl
    | _ => cases h
  | _ =>
    rw [hk] at h
    cases h

theorem matchBracket_endOfInput (h : t.kind = .endOfInput) :
    matchBracket previous openers t = some openers := by
  rw [matchBracket, h]
  rfl

theorem begun?_of_begins {c : Construct} (tells : spot.Tells openers previous)
    (begins : spot.begins? = some c) (hk : t.kind = .punctuator c.opener) :
    Construct.begun? previous t.kind = some c := by
  rw [hk]
  cases spot with
  | start =>
    cases begins
    have first : previous = none := tells
    rw [first]
    rfl
  | enumBrace =>
    cases begins
    obtain ⟨word, rfl, enum⟩ : ∃ word, previous = some word ∧ word.kind = .name "enum" := tells
    simp [Construct.begun?, Construct.opener, enum]
  | fieldHead field =>
    cases begins
    rfl
  | type owner levels =>
    cases begins
    rfl
  | _ => cases begins

/-- Matching one more bracket follows the machine. -/
theorem Place.Turns.matchBracket (turns : place.Turns spot t behind)
    (tells : spot.Tells place.openers previous) :
    matchBracket previous place.openers t = some behind.openers := by
  cases turns with
  | kept level => exact matchBracket_of_isLevel level
  | opened hk begins =>
    rw [ShapeSchema.matchBracket, begun?_of_begins tells begins hk]
    rfl
  | @closed opener outer open_ hk =>
    have none : Construct.begun? previous t.kind = none := by
      rw [hk]
      cases opener.construct <;> rfl
    have closing : t.kind.isClosing = true := by
      rw [hk]
      cases opener.construct <;> rfl
    rw [ShapeSchema.matchBracket, none, open_]
    exact (if_pos closing).trans (if_pos hk)

theorem getLast?_cons_or (t : Token) (us : List Token) (previous : Option Token) :
    (t :: us).getLast?.or previous = us.getLast?.or (some t) := by
  rw [List.getLast?_cons]
  cases us.getLast? <;> rfl

theorem openBehind_append : openBehind previous openers (us ++ vs) =
    (openBehind previous openers us).bind fun behind =>
      openBehind (us.getLast?.or previous) behind vs := by
  induction us generalizing previous openers with
  | nil => rfl
  | cons t us ih =>
    rw [List.cons_append, openBehind, openBehind, getLast?_cons_or, Option.bind_assoc]
    exact congrArg _ (funext fun _ => ih)

theorem opener_of_begun? {c : Construct} (h : Construct.begun? previous t.kind = some c) :
    t.kind = .punctuator c.opener := by
  unfold Construct.begun? at h
  split at h
  · next hk =>
    cases h
    rw [hk]
    split <;> rfl
  · next hk =>
    cases h
    exact hk
  · next hk =>
    cases h
    exact hk
  · cases h

theorem mem_of_matchBracket {behind : List Opener}
    (h : matchBracket previous openers t = some behind) : ∀ opener ∈ behind, opener ∈ openers ∨
      t.span = opener.span ∧ t.kind = .punctuator opener.construct.opener := by
  unfold matchBracket at h
  intro opener ho
  split at h
  · next c begun =>
    cases h
    rcases List.mem_cons.mp ho with rfl | old
    · exact .inr ⟨rfl, opener_of_begun? begun⟩
    · exact .inl old
  · split at h
    · cases openers with
      | nil => cases h
      | cons innermost outer =>
        rw [closeBracket] at h
        split at h
        · cases h
          exact .inl (List.mem_cons_of_mem _ ho)
        · cases h
    · cases h
      exact .inl ho

theorem exists_opening {behind : List Opener} (h : openBehind previous openers us = some behind) :
    ∀ opener ∈ behind, opener ∈ openers ∨
      ∃ t ∈ us, t.span = opener.span ∧ t.kind = .punctuator opener.construct.opener := by
  induction us generalizing previous openers with
  | nil =>
    cases h
    exact fun opener ho => .inl ho
  | cons t us ih =>
    obtain ⟨between, matched, later⟩ := Option.bind_eq_some_iff.mp h
    intro opener ho
    rcases ih later opener ho with new | ⟨u, hu, opens⟩
    · rcases mem_of_matchBracket matched opener new with old | opens
      · exact .inl old
      · exact .inr ⟨t, List.mem_cons_self, opens⟩
    · exact .inr ⟨u, List.mem_cons_of_mem t hu, opens⟩

end ShapeSchema
