import ShapeSchema.Proofs.MachineSimulation
set_option autoImplicit false

namespace ShapeSchema.Parse

open Syntax Outlook

variable {α : Type} {P : Cursor → Prop} {A : Outlook} {d levels : Nat} {owner : Owner}

abbrev afterMark (owner : Owner) (levels : Nat) : Outlook :=
  .acting fun place next => Step.behindType place next owner levels

theorem bang_simulates :
    Simulates (Nested d) bang (.standing (.typeEnd owner levels)) (fun _ => Nested d)
      fun _ => (afterMark owner levels).reaching := by
  have accepted : Simulates (Nested d) (accept .bang) (.standing (.typeEnd owner levels))
      (fun o s => s.depth = d ∧ ∀ t ∈ o, s.lastEnd = some t.span.stop)
      (found (fun t => .having (Step.entered t (.behindType owner levels)))
        (afterMark owner levels).reaching) := by
    refine accept_simulates (fun s t rest hs hr hk => ?_) fun s hs hne => ?_
    · refine ⟨⟨hs, ?_⟩, ?_⟩
      · rintro _ ⟨⟩
        rfl
      · rw [standing_eq, hr, Step.act, Step.typeEnd,
          Step.onKind_of_kind List.head?_cons hk]
        rfl
    · refine ⟨⟨hs, by simp⟩, ?_⟩
      rw [standing_eq, Step.act, Step.typeEnd, Step.onKind_of_not_kind hne,
        outcome_reaching]
      rfl
  apply accepted.bind
  intro o
  cases o with
  | none => exact .pure fun s hs => hs.1
  | some t =>
    apply byteSpan_simulates.bind
    intro bytes
    refine Simulates.outlook (.pure fun s hs => hs.1.1) fun s hs => ?_
    rw [having_moved, standing_eq, reaching_of_fits]
    · rfl
    · rw [hs.1.2 t rfl]
      rintro _ ⟨⟩
      exact hs.2.2

theorem mark_simulates (k : Option ByteSpan → Nat → TypeExpr ByteSpan) :
    Simulates (Nested d) (do let mark ← bang; return k mark (← reachedByte))
      (.standing (.typeEnd owner levels)) (fun _ => Ended d)
      fun _ => .standing (.behindType owner levels) := by
  apply bang_simulates.bind
  intro mark
  have reached : Simulates (Nested d) reachedByte (afterMark owner levels).reaching
      (fun _ => Ended d) fun _ => .standing (.behindType owner levels) :=
    reachedByte_simulates fun s hs => ⟨hs, by
      congr 1
      funext s
      exact (standing_eq (.behindType owner levels) s).symm⟩
  exact reached.bind fun stop => .pure fun s hs => hs

theorem typeRule_simulates {element : Parse (TypeExpr ByteSpan)} (hl : levels ≠ maxDepth)
    (he : Simulates (Nested d) element (.standing (.type owner (levels + 1))) (fun _ => Ended d)
      fun _ => .standing (.behindType owner (levels + 1))) :
    Simulates (Nested d) (typeRule element) (.standing (.type owner levels)) (fun _ => Ended d)
      fun _ => .standing (.behindType owner levels) := by
  have accepted : Simulates (Nested d) (accept .bracketOpen) (.standing (.type owner levels))
      (fun _ => Nested d)
      (found
        (fun t => .having fun place =>
          Step.entered t (.type owner (levels + 1)) (place.opened .listType t))
        (.acting fun place next =>
          Step.named place next .typeName fun _ => .typeEnd owner levels)) := by
    refine accept_simulates (fun s t rest hs hr hk => ⟨hs, ?_⟩) fun s hs hne => ⟨hs, ?_⟩
    · rw [standing_eq, hr, Step.act, Step.type, if_neg hl, Step.onKind_of_kind List.head?_cons hk]
      rfl
    · rw [standing_eq, Step.act, Step.type, if_neg hl, Step.onKind_of_not_kind hne]
      rfl
  apply accepted.bind
  intro o
  cases o with
  | none =>
    apply (name_simulates fun s hs => ⟨hs, rfl⟩).bind
    intro name
    exact (mark_simulates _).weaken (fun s hs => hs.1) fun _ s hs => hs
  | some t =>
    apply byteSpan_simulates.bind
    intro bytes
    apply (opened_simulates (Q := Nested d) fun s hs => hs.1).bind
    intro _
    apply he.bind
    intro inner
    have closing : Simulates (Ended d) close (.standing (.behindType owner (levels + 1)))
        (fun _ => Nested d) fun _ => .standing (.typeEnd owner levels) :=
      close_simulates (k := .moved (.typeEnd owner levels)) fun s hs => ⟨hs.1, standing_eq _ s⟩
    exact closing.bind fun _ => mark_simulates _

theorem typeWithin_simulates {room : Nat} (hl : room + levels = maxDepth) :
    Simulates (Nested d) (typeWithin room) (.standing (.type owner levels)) (fun _ => Ended d)
      fun _ => .standing (.behindType owner levels) := by
  induction room generalizing d levels with
  | zero =>
    refine .fail fun s hs => ?_
    rw [standing_eq, Step.act, Step.type, if_pos (by omega), s.nextSpan_place]
    rfl
  | succ room ih =>
    refine deeper_simulates (fun s n => ⟨rfl, rfl⟩) (typeRule_simulates (by omega) ?_)
    exact ih (by omega)

theorem typeExpr_simulates :
    Simulates (Nested 0) typeExpr (.standing (.type owner 0)) (fun _ => Ended 0)
      fun _ => .standing (.behindType owner 0) := by
  intro s hs
  have room : maxDepth - s.depth = maxDepth := by rw [hs]; rfl
  rw [typeExpr, room]
  exact typeWithin_simulates rfl s hs

theorem colonError_place (name : String) (s : Cursor) :
    colonError name (s.place.cursor s.rest.head?) = colonError name s := by
  rw [colonError, colonError, s.unexpected_place]

theorem colonAfter_simulates {name : String} {spot : Spot}
    (h : ∀ s, P s → s.depth = d ∧
      A s = (Step.colon s.place s.rest.head? name spot).outcome s.rest.tail) :
    Simulates P (colonAfter name) A (fun _ => Nested d) fun _ => .standing spot := by
  have accepted : Simulates P (accept .colon) A
      (found (fun _ => Nested d) fun s => A s = .error (colonError name s))
      (found (fun _ => .standing spot) A) := by
    refine accept_simulates (fun s t rest hP hr hk => ⟨(h s hP).1, ?_⟩) fun s hP hne => ⟨?_, rfl⟩
    · rw [(h s hP).2, hr, Step.colon, Step.onKind_of_kind List.head?_cons hk]
      rfl
    · change A s = _
      rw [(h s hP).2, Step.colon, Step.onKind_of_not_kind hne, colonError_place,
        Step.outcome_failed]
  apply accepted.bind
  intro o
  cases o with
  | none => exact .fail fun s hs => hs
  | some t => exact .pure fun s hs => hs

theorem reachedByte_simulates_of_ended :
    Simulates (Ended d) reachedByte A (fun _ => Ended d) fun _ => A :=
  reachedByte_simulates fun _ hs => ⟨hs.1, (reaching_of_fits hs.2).symm⟩

theorem parameter_simulates {fieldName : String}
    (h : ∀ s, P s → s.depth = 0 ∧ A s = (Step.named s.place s.rest.head? .parameterName
      (.parameterColon fieldName)).outcome s.rest.tail) :
    Simulates P parameter A (fun _ => Ended 0)
      fun _ => .standing (.behindType (.parameter fieldName) 0) := by
  apply (name_simulates h).bind
  intro name
  apply (colonAfter_simulates fun s hs => ⟨hs.1, standing_eq _ s⟩).bind
  intro _
  apply typeExpr_simulates.bind
  intro type
  exact reachedByte_simulates_of_ended.bind fun stop => .pure fun s hs => hs

abbrev atParametersEnd (fieldName : String) : Outlook :=
  .acting fun place next => Step.parametersEnd place next fieldName

theorem parameterAfterComma_simulates {fieldName : String} :
    Simulates (Nested 0) parameterAfterComma (.standing (.behindType (.parameter fieldName) 0))
      (fun _ => Nested 0)
      (.round (.standing (.behindType (.parameter fieldName) 0)) (atParametersEnd fieldName)) := by
  have accepted : Simulates (Nested 0) (accept .comma)
      (.standing (.behindType (.parameter fieldName) 0)) (fun _ => Nested 0)
      (found (fun _ => .standing (.laterParameter fieldName)) (atParametersEnd fieldName)) := by
    refine accept_simulates (fun s t rest hs hr hk => ⟨hs, ?_⟩) fun s hs hne => ⟨hs, ?_⟩
    · rw [standing_eq, hr, Step.act, Step.behindType, Step.onKind_of_kind List.head?_cons hk]
      rfl
    · rw [standing_eq, Step.act, Step.behindType, Step.onKind_of_not_kind hne]
      rfl
  apply accepted.bind
  intro o
  cases o with
  | none => exact .pure fun s hs => hs
  | some t =>
    apply (parameter_simulates fun s hs => ⟨hs, standing_eq _ s⟩).bind
    intro p
    exact .pure fun s hs => hs.1

theorem parameterListError_place (s : Cursor) :
    parameterListError (s.place.cursor s.rest.head?) = parameterListError s := by
  rw [parameterListError, parameterListError, s.unexpected_place]
  cases h : s.rest <;> rfl

theorem endOfParameters_simulates {fieldName : String} :
    Simulates (Nested 0) endOfParameters (atParametersEnd fieldName) (fun _ => Nested 0)
      fun _ => .acting fun place next =>
        Step.closed place next fun place => .moved (.fieldColon fieldName) place := by
  have looked : Simulates (Nested 0) (nextIs .parenClose) (atParametersEnd fieldName)
      (fun b s => s.depth = 0 ∧ (b = false →
        atParametersEnd fieldName s = .error (parameterListError s)))
      (fun b => if b then .acting fun place next =>
        Step.closed place next fun place => .moved (.fieldColon fieldName) place
        else atParametersEnd fieldName) := by
    refine nextIs_simulates (fun s t rest hs hr hk => ⟨⟨hs, by simp⟩, ?_⟩)
      fun s hs hne => ⟨⟨hs, fun _ => ?_⟩, rfl⟩
    · rw [if_pos rfl, atParametersEnd, acting_eq, acting_eq, hr, Step.parametersEnd,
        Step.onKind_of_kind List.head?_cons hk]
    · rw [atParametersEnd, acting_eq, Step.parametersEnd, Step.onKind_of_not_kind hne,
        parameterListError_place, Step.outcome_failed]
  apply looked.bind
  intro b
  cases b with
  | true => exact .pure fun s hs => hs.1
  | false => exact .fail fun s hs => hs.2 rfl

theorem parameterItems_simulates {fieldName : String}
    (h : ∀ s, P s → s.depth = 0 ∧ A s = (Step.named s.place s.rest.head? .parameterName
      (.parameterColon fieldName)).outcome s.rest.tail) :
    Simulates P parameterItems A (fun _ => Nested 0)
      fun _ => .acting fun place next =>
        Step.closed place next fun place => .moved (.fieldColon fieldName) place := by
  apply (parameter_simulates h).bind
  intro first
  have more : Simulates (Nested 0) (collect (fun _ => parameterAfterComma)
      (fun _ => parameterAfterComma_spends) 0)
      (.standing (.behindType (.parameter fieldName) 0)) (fun _ => Nested 0)
      fun _ => atParametersEnd fieldName :=
    collect_simulates (A := fun _ => .standing (.behindType (.parameter fieldName) 0))
      (fun _ => parameterAfterComma_simulates) 0
  refine Simulates.bind (Simulates.weaken more (fun s hs => hs.1) fun _ s hs => hs) fun items => ?_
  exact endOfParameters_simulates.bind fun _ => .pure fun s hs => hs

theorem parameters_simulates {fieldName : String} :
    Simulates (fun s => s.depth = 0 ∧ ∃ t ∈ s.rest.head?, t.kind = .punctuator .parenOpen)
      parameters (.standing (.fieldHead fieldName)) (fun _ => Nested 0)
      fun _ => .standing (.fieldColon fieldName) := by
  have paren : Simulates
      (fun s => s.depth = 0 ∧ ∃ t ∈ s.rest.head?, t.kind = .punctuator .parenOpen)
      (expect .parenOpen) (.standing (.fieldHead fieldName)) (fun _ => Nested 0)
      (fun t => .having fun place =>
        .moved (.firstParameter fieldName) (place.opened .parameterList t)) := by
    refine expect_simulates (fun s t rest hs hr hk => ⟨hs.1, ?_⟩) fun s hs hne => ?_
    · rw [standing_eq, hr, Step.act, Step.onKind_of_kind List.head?_cons hk]
      rfl
    · obtain ⟨-, t, ht, hk⟩ := hs
      exact absurd hk (hne t ht)
  apply paren.bind
  intro t
  refine (opened_simulates (Q := fun s => s.depth = 0 ∧
    s.openers.head? = some ⟨.parameterList, t.span⟩) fun s hs => ⟨hs, rfl⟩).bind fun _ => ?_
  have accepted : Simulates
      (fun s => s.depth = 0 ∧ s.openers.head? = some ⟨.parameterList, t.span⟩)
      (accept .parenClose) (.standing (.firstParameter fieldName)) (fun _ => Nested 0)
      (found
        (fun closer _ => .error (.emptyParameterList ⟨t.span.start, closer.span.stop⟩))
        (.acting fun place next =>
          Step.named place next .parameterName (.parameterColon fieldName))) := by
    refine accept_simulates (fun s u rest hs hr hk => ⟨hs.1, ?_⟩) fun s hs hne => ⟨hs.1, ?_⟩
    · obtain ⟨outer, ho⟩ := List.head?_eq_some_iff.mp hs.2
      have openers : (s.place.behind u).openers = ⟨.parameterList, t.span⟩ :: outer := ho
      rw [standing_eq, hr, Step.act, Step.firstParameter, Step.onKind_of_kind List.head?_cons hk,
        openers]
      rfl
    · rw [standing_eq, Step.act, Step.firstParameter, Step.onKind_of_not_kind hne]
      rfl
  apply accepted.bind
  intro o
  cases o with
  | some closer => exact .throw fun s _ => rfl
  | none =>
    apply (parameterItems_simulates fun s hs => ⟨hs, rfl⟩).bind
    intro items
    exact (close_simulates fun s hs => ⟨hs, rfl⟩).bind fun _ => .pure fun s hs => hs

theorem parametersIfAny_simulates {fieldName : String} {Q : Cursor → Prop}
    (h : ∀ s, Q s → s.depth = 0) :
    Simulates Q parametersIfAny (.standing (.fieldHead fieldName)) (fun _ => Nested 0)
      fun _ => .standing (.fieldColon fieldName) := by
  have looked : Simulates Q (nextIs .parenOpen) (.standing (.fieldHead fieldName))
      (fun b s => s.depth = 0 ∧ (b = true → ∃ t ∈ s.rest.head?, t.kind = .punctuator .parenOpen))
      (fun b => .standing (if b then .fieldHead fieldName else .fieldColon fieldName)) := by
    refine nextIs_simulates (fun s t rest hs hr hk => ⟨⟨h s hs, fun _ => ?_⟩, rfl⟩)
      fun s hs hne => ⟨⟨h s hs, by simp⟩, ?_⟩
    · exact ⟨t, by rw [hr]; rfl, hk⟩
    · rw [standing_eq, Step.act, Step.onKind_of_not_kind hne]
      exact (standing_eq (.fieldColon fieldName) s).symm
  apply looked.bind
  intro b
  cases b with
  | true => exact parameters_simulates.weaken (fun s hs => ⟨hs.1, hs.2 rfl⟩) fun _ s hs => hs
  | false => exact .pure fun s hs => hs.1

theorem field_simulates
    (h : ∀ s, P s → s.depth = 0 ∧
      A s = (Step.named s.place s.rest.head? .fieldName .fieldHead).outcome s.rest.tail) :
    Simulates P field A (fun _ => Ended 0) fun _ => .standing (.behindType .field 0) := by
  apply (name_simulates h).bind
  intro name
  apply (parametersIfAny_simulates fun s hs => hs.1).bind
  intro parameters
  apply (colonAfter_simulates fun s hs => ⟨hs, standing_eq _ s⟩).bind
  intro _
  apply typeExpr_simulates.bind
  intro type
  exact reachedByte_simulates_of_ended.bind fun stop => .pure fun s hs => hs

theorem announcedField_simulates
    (h : ∀ s, P s → s.depth = 0 ∧
      A s = (Step.named s.place s.rest.head? .fieldName .fieldHead).outcome s.rest.tail) :
    Simulates P announcedField A (fun _ => Nested 0)
      fun _ => .standing (.behindType .field 0) := by
  apply (field_simulates h).bind
  intro field
  exact (announce_simulates (P := Ended 0) (Q := Nested 0) (A := .standing (.behindType .field 0))
    (fun _ _ => rfl) fun _ _ hs => hs.1).bind fun _ => .pure fun s hs => hs

abbrev atBlockEnd : Outlook := .acting fun place next =>
  Step.closed place next fun place => Step.reaching place (.moved .finished place)

def AtName (s : Cursor) : Prop :=
  s.depth = 0 ∧ ∃ t rest text, s.rest = t :: rest ∧ t.kind = .name text

section Declaration

variable {role : Expected} {plural : String} {n : Nat} {item : Parse α} {spot : String → Spot}
  {B : Outlook}

theorem named_of_declaration {s : Cursor} (hs : AtName s)
    (hA : A s = (Step.declaration s.place s.rest.head? role plural (n == 0) spot).outcome
      s.rest.tail)
    (apart : ∀ t ∈ s.rest.head?, (n == 0 || t.isSeparated) = true) :
    A s = (Step.named s.place s.rest.head? role spot).outcome s.rest.tail := by
  obtain ⟨-, t, rest, text, hr, hk⟩ := hs
  have next : s.rest.head? = some t := by rw [hr]; rfl
  rw [hA, Step.declaration_of_name next hk, if_pos (apart t next), Step.named_of_name next hk]

theorem separated_simulates_of_declaration (hn : n ≠ 0)
    (hA : ∀ s, A s = (Step.declaration s.place s.rest.head? role plural (n == 0) spot).outcome
      s.rest.tail) :
    Simulates AtName (separated plural) A (fun _ s => s.depth = 0 ∧
      A s = (Step.named s.place s.rest.head? role spot).outcome s.rest.tail) fun _ => A := by
  refine separated_simulates (fun s hs hsep => ?_) fun s t rest hs hr hsep => ?_
  · refine ⟨⟨hs.1, named_of_declaration hs (hA s) fun t ht => ?_⟩, rfl⟩
    rw [hsep t ht, Bool.or_true]
  · obtain ⟨-, u, rest', text, hr', hk⟩ := hs
    rw [hr] at hr'
    cases hr'
    have next : s.rest.head? = some t := by rw [hr]; rfl
    have later : (n == 0 || t.isSeparated) = false := by simp [hn, hsep]
    rw [hA, Step.declaration_of_name next hk, later, hk]
    rfl

/-- A round of declarations, given what one declaration does behind which the outlook is `B`. -/
theorem declaration_simulates
    (hA : ∀ s, A s = (Step.declaration s.place s.rest.head? role plural (n == 0) spot).outcome
      s.rest.tail)
    (hitem : ∀ {P A}, (∀ s, P s → s.depth = 0 ∧
      A s = (Step.named s.place s.rest.head? role spot).outcome s.rest.tail) →
        Simulates P item A (fun _ => Nested 0) fun _ => B) :
    Simulates (Nested 0) (declaration role plural n item) A (fun _ => Nested 0)
      (.round B atBlockEnd) := by
  have closing : Simulates (Nested 0) (nextIs .braceClose) A
      (fun b s => s.depth = 0 ∧ (b = false → ∀ t ∈ s.rest.head?, t.kind ≠ .punctuator .braceClose))
      (fun b => if b then atBlockEnd else A) := by
    refine nextIs_simulates (fun s t rest hs hr hk => ⟨⟨hs, by simp⟩, ?_⟩)
      fun s hs hne => ⟨⟨hs, fun _ => hne⟩, rfl⟩
    rw [if_pos rfl, hA, Step.declaration, hr, Step.onKind_of_kind List.head?_cons hk, atBlockEnd,
      acting_eq, hr]
  apply closing.bind
  intro b
  cases b with
  | true => exact .pure fun s hs => hs.1
  | false =>
    have naming : Simulates
        (fun s => s.depth = 0 ∧ ∀ t ∈ s.rest.head?, t.kind ≠ .punctuator .braceClose) nextName? A
        (found (fun _ => AtName)
          fun s => A s = .error (s.unexpected [role, .punctuator .braceClose]))
        (fun _ => A) := by
      refine nextName?_simulates
        (fun s t rest text hs hr hk => ⟨⟨hs.1, t, rest, text, hr, hk⟩, rfl⟩)
        fun s hs hne => ⟨?_, rfl⟩
      change A s = _
      rw [hA, Step.declaration, Step.onKind_of_not_kind hs.2, Step.onName_of_not_name hne,
        Step.outcome_refused]
    apply (naming.weaken (fun s hs => ⟨hs.1, hs.2 rfl⟩) fun _ s hs => hs).bind
    intro o
    cases o with
    | none => exact .refuse fun s hs => hs
    | some text =>
      by_cases hn : n ≠ 0
      · have apart := separated_simulates_of_declaration hn hA
        simp only [Option.isNone_some, Bool.false_eq_true, if_false, if_pos hn]
        exact apart.bind fun _ => (hitem fun s hs => hs).bind fun _ => .pure fun s hs => hs
      · have first : (n == 0) = true := by simpa using hn
        simp only [Option.isNone_some, Bool.false_eq_true, if_false, if_neg hn]
        refine (hitem fun s hs => ⟨hs.1, ?_⟩).bind fun _ => .pure fun s hs => hs
        exact named_of_declaration hs (hA s) fun t _ => by rw [first, Bool.true_or]

end Declaration

theorem blockEnd_simulates {level : Level} {text : String} (k : Nat → Block ByteSpan) :
    Simulates (Nested 0) (do close; announce 0 level text; return k (← reachedByte)) atBlockEnd
      (fun _ _ => True) fun _ => .standing .finished := by
  apply (close_simulates fun s hs => ⟨hs, rfl⟩).bind
  intro _
  apply (announce_simulates (Q := Nested 0) (fun _ _ => rfl) fun _ _ hs => hs).bind
  intro _
  have reached : Simulates (Nested 0) reachedByte
      (.having fun place => Step.reaching place (.moved .finished place)) (fun _ => Ended 0)
      fun _ => .standing .finished :=
    reachedByte_simulates fun s hs => ⟨hs, outcome_reaching s _ _⟩
  exact reached.bind fun stop => .pure fun s hs => trivial

theorem objectBlock_simulates :
    Simulates (fun s => s.depth = 0 ∧ ∃ t ∈ s.rest.head?, t.kind = .punctuator .braceOpen)
      objectBlock (.standing .start) (fun _ _ => True) fun _ => .standing .finished := by
  have brace : Simulates
      (fun s => s.depth = 0 ∧ ∃ t ∈ s.rest.head?, t.kind = .punctuator .braceOpen)
      (expect .braceOpen) (.standing .start) (fun _ => Nested 0)
      (fun t => .having fun place => Step.entered t .firstField (place.opened .objectBlock t)) := by
    refine expect_simulates (fun s t rest hs hr hk => ⟨hs.1, ?_⟩) fun s hs hne => ?_
    · rw [standing_eq, hr, Step.act, Step.start, Step.onKind_of_kind List.head?_cons hk]
      rfl
    · obtain ⟨-, t, ht, hk⟩ := hs
      exact absurd hk (hne t ht)
  apply brace.bind
  intro t
  apply byteSpan_simulates.bind
  intro bytes
  apply (opened_simulates (Q := Nested 0) fun s hs => hs.1).bind
  intro _
  have fields : Simulates (Nested 0) (collect (declaration .fieldName "fields" · announcedField)
      (fun n => declaration_spends _ _ n announcedField_spends) 0) (.standing .firstField)
      (fun _ => Nested 0) fun _ => atBlockEnd :=
    collect_simulates (A := fun n => .standing (if n = 0 then .firstField else .behindType .field 0))
      (fun n => declaration_simulates
        (fun s => by rw [standing_eq]; cases n <;> rfl) announcedField_simulates) 0
  exact Simulates.bind fields fun _ => blockEnd_simulates _

theorem enumBlock_simulates :
    Simulates (fun s => s.depth = 0 ∧ ∃ t ∈ s.rest.head?, t.kind = .name "enum") enumBlock
      (.standing .start) (fun _ _ => True) fun _ => .standing .finished := by
  have keyword : Simulates (fun s => s.depth = 0 ∧ ∃ t ∈ s.rest.head?, t.kind = .name "enum")
      (name .enumKeyword) (.standing .start) (fun _ => Ended 0) fun _ => .standing .enumBrace := by
    refine name_simulates (k := fun _ => .enumBrace) fun s hs => ⟨hs.1, ?_⟩
    obtain ⟨-, t, ht, hk⟩ := hs
    have hne : ∀ u ∈ s.rest.head?, u.kind ≠ .punctuator .braceOpen := by
      rw [ht]
      rintro _ ⟨⟩
      simp [hk]
    rw [standing_eq, Step.act, Step.start, Step.onKind_of_not_kind hne, Step.onKind_of_kind ht hk,
      Step.named_of_name ht hk]
  apply keyword.bind
  intro word
  have brace : Simulates (Ended 0) (expect .braceOpen) (.standing .enumBrace) (fun _ => Nested 0)
      (fun t => .having fun place => .moved .firstValue (place.opened .enumBlock t)) := by
    refine expect_simulates (fun s t rest hs hr hk => ⟨hs.1, ?_⟩) fun s hs hne => ?_
    · rw [standing_eq, hr, Step.act, Step.onKind_of_kind List.head?_cons hk]
      rfl
    · rw [standing_eq, Step.act, Step.onKind_of_not_kind hne, Step.outcome_refused]
  apply brace.bind
  intro t
  apply (opened_simulates (Q := Nested 0) fun s hs => hs).bind
  intro _
  have value {P : Cursor → Prop} {A : Outlook} (h : ∀ s, P s → s.depth = 0 ∧
      A s = (Step.named s.place s.rest.head? .enumValue fun _ => .laterValue).outcome s.rest.tail) :
      Simulates P (name .enumValue) A (fun _ => Nested 0) fun _ => .standing .laterValue :=
    (name_simulates h).weaken (fun s hs => hs) fun _ s hs => hs.1
  have values : Simulates (Nested 0) (collect (declaration .enumValue "enum values" ·
      (name .enumValue)) (fun n => declaration_spends _ _ n (name_spends _)) 0)
      (.standing .firstValue) (fun _ => Nested 0) fun _ => atBlockEnd :=
    collect_simulates (A := fun n => .standing (if n = 0 then .firstValue else .laterValue))
      (fun n => declaration_simulates (fun s => by rw [standing_eq]; cases n <;> rfl) value) 0
  exact Simulates.bind values fun _ => blockEnd_simulates _

theorem endOfInput_simulates : Simulates (fun _ => True) endOfInput (.standing .finished)
    (fun _ _ => True) fun _ _ => .ok () := by
  intro s _
  rw [standing_eq]
  unfold endOfInput
  cases s.rest with
  | nil => exact ⟨trivial, rfl⟩
  | cons t rest =>
    simp only [Step.act, Step.finished, List.head?_cons]
    cases t.kind with
    | endOfInput => exact ⟨trivial, rfl⟩
    | _ => rfl

theorem standing_start_refused {s : Cursor}
    (brace : ∀ t ∈ s.rest.head?, t.kind ≠ .punctuator .braceOpen)
    (word : ∀ t ∈ s.rest.head?, t.kind ≠ .name "enum") :
    standing .start s = .error (s.unexpected [.punctuator .braceOpen, .enumOpener]) := by
  rw [standing_eq, Step.act, Step.start, Step.onKind_of_not_kind brace,
    Step.onKind_of_not_kind word, Step.outcome_refused]

theorem eitherBlock_simulates : Simulates (Nested 0) eitherBlock (.standing .start)
    (fun _ _ => True) fun _ => .standing .finished := by
  have brace : Simulates (Nested 0) (nextIs .braceOpen) (.standing .start)
      (fun b s => s.depth = 0 ∧ if b then ∃ t ∈ s.rest.head?, t.kind = .punctuator .braceOpen
        else ∀ t ∈ s.rest.head?, t.kind ≠ .punctuator .braceOpen)
      fun _ => .standing .start :=
    nextIs_simulates (fun s t rest hs hr hk => ⟨⟨hs, t, by rw [hr]; rfl, hk⟩, rfl⟩)
      fun s hs hne => ⟨⟨hs, hne⟩, rfl⟩
  apply brace.bind
  intro b
  cases b with
  | true => exact objectBlock_simulates
  | false =>
    have word : Simulates
        (fun s => s.depth = 0 ∧ ∀ t ∈ s.rest.head?, t.kind ≠ .punctuator .braceOpen) nextName?
        (.standing .start)
        (fun o s => s.depth = 0 ∧ if o = some "enum" then ∃ t ∈ s.rest.head?, t.kind = .name "enum"
          else standing .start s = .error (s.unexpected [.punctuator .braceOpen, .enumOpener]))
        fun _ => .standing .start := by
      refine nextName?_simulates (fun s t rest text hs hr hk => ⟨⟨hs.1, ?_⟩, rfl⟩)
        fun s hs hne => ⟨⟨hs.1, ?_⟩, rfl⟩
      · by_cases he : text = "enum"
        · rw [if_pos (by rw [he])]
          exact ⟨t, by rw [hr]; rfl, by rw [hk, he]⟩
        · rw [if_neg (by simpa using he)]
          refine standing_start_refused hs.2 ?_
          rw [hr]
          rintro _ ⟨⟩
          simpa [hk] using he
      · rw [if_neg (by simp)]
        refine standing_start_refused hs.2 fun t ht hk => ?_
        have := hne t ht
        simp [hk, Token.Kind.name?] at this
    apply word.bind
    intro o
    by_cases ho : o = some "enum"
    · simp only [if_pos ho]
      exact enumBlock_simulates
    · simp only [if_neg ho]
      exact .refuse fun s hs => hs.2

theorem block_simulates : Simulates (Nested 0) block (.standing .start) (fun _ _ => True)
    fun _ _ => .ok () := by
  rw [block_eq]
  apply eitherBlock_simulates.bind
  intro b
  exact endOfInput_simulates.bind fun _ => .pure fun s hs => trivial

end ShapeSchema.Parse

namespace ShapeSchema.Syntax.Block

/-- What reading a token list comes to, trees apart, is the verdict of the machine. -/
theorem map_value_ofTokens? (ts : List Token) :
    (ofTokens? ts).value.map (fun _ => ()) = run .start ⟨[], none⟩ ts := by
  have simulated := Parse.block_simulates (.ofTokens ts) rfl
  have verdict : Outlook.standing .start (.ofTokens ts) = run .start ⟨[], none⟩ ts := rfl
  have unfolded : (ofTokens? ts).value = (readTokens ts).1 := rfl
  rw [unfolded, readTokens, ← verdict]
  cases h : Parse.block (.ofTokens ts) with
  | ok block s =>
    rw [h] at simulated
    exact simulated.2.symm
  | error e s =>
    rw [h] at simulated
    exact simulated.symm

end ShapeSchema.Syntax.Block
