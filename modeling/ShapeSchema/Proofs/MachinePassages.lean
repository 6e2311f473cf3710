import ShapeSchema.Proofs.EarliestError
set_option autoImplicit false

/-!
# Passing over the tokens of a tree

Over tokens that spell a part of a tree, the machine passes from the spot in front of the part to
the spot behind it. Only two things can stop it on the way: a type that is nested too deep, or an
offset that is too large. Nothing is assumed of the offsets, and the tokens may stand in any order.
-/

namespace ShapeSchema

open Parse (NoBang)

variable {σ α : Type} {spot later last : Spot} {place : Place} {t : Token} {us vs rest : List Token}

namespace Step

/-- The step leads to the spot, or meets an offset that is too large. -/
def Leads (later : Spot) : Step → Prop
  | .moved spot _ => spot = later
  | .stopped verdict => ∃ span : Span, ¬ span.Fits ∧ verdict = .error (.tooLarge span)

theorem fitting_leads {span : Span} {step : Step} (h : step.Leads later) :
    (fitting span step).Leads later := by
  unfold fitting
  split
  · exact h
  · next large => exact ⟨span, large, rfl⟩

theorem reaching_leads {step : Step} (h : step.Leads later) :
    (reaching place step).Leads later := by
  unfold reaching
  split
  · exact h
  · exact fitting_leads h

theorem moved_leads : (moved later place).Leads later := rfl

theorem entered_leads : (entered t later place).Leads later := fitting_leads moved_leads

theorem onKind_leads {kind : Token.Kind} {yes : Token → Place → Step} {no : Step}
    (hk : t.kind = kind) (h : ∀ behind, (yes t behind).Leads later) :
    (onKind kind place (some t) yes no).Leads later := by
  rw [onKind_of_kind rfl hk]
  exact h _

theorem onKind_leads_of_ne {kind other : Token.Kind} {yes : Token → Place → Step} {no : Step}
    (hk : t.kind = other) (ne : other ≠ kind) (h : no.Leads later) :
    (onKind kind place (some t) yes no).Leads later := by
  have differs : ∀ u ∈ some t, u.kind ≠ kind := by
    rintro _ ⟨⟩
    rwa [hk]
  rw [onKind_of_not_kind differs]
  exact h

theorem named_leads {text : String} (hk : t.kind = .name text) (role : Expected)
    (spot : String → Spot) : (named place (some t) role spot).Leads (spot text) := by
  rw [named_of_name rfl hk]
  exact entered_leads

theorem closed_leads {c : Construct} {cs : List Construct} {yes : Place → Step}
    (stands : place.constructs = c :: cs) (hk : t.kind = .punctuator c.closer)
    (h : ∀ behind, (yes behind).Leads later) : (closed place (some t) yes).Leads later := by
  obtain ⟨behind, -, -, closes⟩ := closed_closer stands t hk yes
  rw [closes]
  exact h behind

theorem declaration_leads_of_name {text : String} (hk : t.kind = .name text) (role : Expected)
    (plural : String) {first : Bool} (apart : first = true ∨ t.isSeparated = true)
    (spot : String → Spot) :
    (declaration place (some t) role plural first spot).Leads (spot text) := by
  rw [declaration_of_name rfl hk, if_pos (Bool.or_eq_true_iff.mpr apart)]
  exact entered_leads

theorem declaration_leads_of_brace {c : Construct} (stands : place.constructs = [c])
    (brace : c.closer = .braceClose) (hk : t.kind = .punctuator .braceClose) (role : Expected)
    (plural : String) (first : Bool) (spot : String → Spot) :
    (declaration place (some t) role plural first spot).Leads .finished :=
  onKind_leads hk fun _ =>
    closed_leads stands (brace ▸ hk) fun _ => reaching_leads moved_leads

theorem outcome_reaching_cases (place : Place) (step : Step) (rest : List Token) :
    (reaching place step).outcome rest = step.outcome rest ∨
      ∃ span : Span, ¬ span.Fits ∧
        (reaching place step).outcome rest = .error (.tooLarge span) := by
  unfold reaching
  cases place.lastEnd with
  | none => exact .inl rfl
  | some p =>
    by_cases fits : (Span.empty p).Fits
    · exact .inl (outcome_fitting_of_fits fits step)
    · exact .inr ⟨.empty p, fits, outcome_fitting_of_not_fits fits step⟩

end Step

/-- What a run comes to that was to lead to the spot in front of `rest`. Where it is stopped by a
    type nested too deep, `deep` holds. -/
inductive Passage (deep : Prop) (later : Spot) (rest : List Token) : Verdict → Prop
  | through {behind : Place} : ¬ deep → behind.constructs = later.constructs →
      Passage deep later rest (run later behind rest)
  | tooDeep {span : Span} : deep → Passage deep later rest (.error (.tooDeep span))
  | tooLarge {span : Span} : ¬ span.Fits → Passage deep later rest (.error (.tooLarge span))

/-- The machine passes over the tokens from one spot to the other. A type at the end of them is over
    only where no `!` follows. -/
def Passes (deep : Prop) (spot : Spot) (us : List Token) (later : Spot) : Prop :=
  ∀ (place : Place) (rest : List Token), place.constructs = spot.constructs → NoBang rest →
    Passage deep later rest (run spot place (us ++ rest))

def Spot.Reads (spot : Spot) (t : Token) (later : Spot) : Prop :=
  ∀ place : Place, place.constructs = spot.constructs →
    (Step.act place (some t) spot).Leads later

variable {deep deep' : Prop}

theorem Passes.congr (h : Passes deep spot us later) (same : deep ↔ deep') :
    Passes deep' spot us later := by
  obtain rfl := propext same
  exact h

theorem noBang_append (h : NoBang us) (h' : NoBang vs) : NoBang (us ++ vs) := by
  cases us with
  | nil => exact h'
  | cons t us => exact h

theorem Spells.noBang {m : Mark} {ms : List Mark} (h : Spells (m :: ms) us)
    (other : m.kind ≠ .punctuator .bang) : NoBang us := by
  obtain ⟨t, vs, rfl, meets, -⟩ := Spells.cons_iff.mp h
  rintro _ ⟨⟩
  rw [meets.1]
  exact other

namespace Passes

theorem nil : Passes False spot [] spot := fun _ _ stands _ => .through not_false stands

theorem append (h : Passes deep spot us later) (h' : Passes deep' later vs last)
    (noBang : NoBang vs) : Passes (deep ∨ deep') spot (us ++ vs) last := by
  intro place rest stands follows
  rw [List.append_assoc]
  have first := h place (vs ++ rest) stands (noBang_append noBang follows)
  generalize run spot place (us ++ (vs ++ rest)) = verdict at first
  cases first with
  | tooDeep tooDeep => exact .tooDeep (.inl tooDeep)
  | tooLarge large => exact .tooLarge large
  | @through behind shallow stands =>
    have second := h' behind rest stands follows
    generalize run later behind (vs ++ rest) = verdict at second
    cases second with
    | tooDeep tooDeep => exact .tooDeep (.inr tooDeep)
    | tooLarge large => exact .tooLarge large
    | through shallow' stands => exact .through (not_or.mpr ⟨shallow, shallow'⟩) stands

theorem cons (tail : Passes deep later us last) (head : spot.Reads t later) :
    Passes deep spot (t :: us) last := by
  intro place rest stands follows
  have leads := head place stands
  have sound : (Step.act place (some t) spot).Sound (endsBy (some t)) := Step.act_sound stands
  rw [List.cons_append, run]
  cases hstep : Step.act place (some t) spot with
  | moved between behind =>
    rw [hstep] at leads sound
    obtain rfl : between = later := leads
    exact tail behind rest sound.1 follows
  | stopped verdict =>
    rw [hstep] at leads
    obtain ⟨span, large, rfl⟩ := leads
    exact .tooLarge large

theorem flatMap {f : α → List Mark} {deep : α → Prop} {as : List α}
    (h : ∀ a us, Spells (f a) us → Passes (deep a) spot us spot ∧ NoBang us)
    (spelled : Spells (as.flatMap f) us) : Passes (∃ a ∈ as, deep a) spot us spot ∧ NoBang us := by
  induction as generalizing us with
  | nil =>
    rw [Spells.nil_iff.mp spelled]
    exact ⟨nil.congr (by simp), by simp [NoBang]⟩
  | cons a as ih =>
    obtain ⟨vs, ws, rfl, hvs, hws⟩ := Spells.append_iff.mp spelled
    obtain ⟨first, noBang⟩ := h a vs hvs
    obtain ⟨more, noBang'⟩ := ih hws
    exact ⟨(first.append more noBang').congr (by simp), noBang_append noBang noBang'⟩

end Passes

namespace Spot

variable {owner : Owner} {levels : Nat}

theorem reads_bang (hk : t.kind = .punctuator .bang) :
    (typeEnd owner levels).Reads t (behindType owner levels) := by
  intro place _
  rw [Step.act, Step.typeEnd]
  exact Step.onKind_leads hk fun _ => Step.entered_leads

theorem reads_bracket (below : levels < Parse.maxDepth) (hk : t.kind = .punctuator .bracketOpen) :
    (type owner levels).Reads t (type owner (levels + 1)) := by
  intro place _
  rw [Step.act, Step.type, if_neg below.ne]
  exact Step.onKind_leads hk fun _ => Step.entered_leads

theorem reads_leaf {text : String} (below : levels < Parse.maxDepth) (hk : t.kind = .name text) :
    (type owner levels).Reads t (typeEnd owner levels) := by
  intro place _
  rw [Step.act, Step.type, if_neg below.ne]
  exact Step.onKind_leads_of_ne hk (by simp) (Step.named_leads hk _ _)

theorem reads_closingBracket (hk : t.kind = .punctuator .bracketClose) :
    (behindType owner (levels + 1)).Reads t (typeEnd owner levels) :=
  fun _ stands => Step.closed_leads stands hk fun _ => Step.moved_leads

theorem reads_comma {field : String} (hk : t.kind = .punctuator .comma) :
    (behindType (.parameter field) 0).Reads t (laterParameter field) := by
  intro place _
  rw [Step.act, Step.behindType]
  exact Step.onKind_leads hk fun _ => Step.moved_leads

theorem reads_closingParen (field : String) (hk : t.kind = .punctuator .parenClose) :
    (behindType (.parameter field) 0).Reads t (fieldColon field) := by
  intro place stands
  rw [Step.act, Step.behindType]
  refine Step.onKind_leads_of_ne hk (by simp) (Step.onKind_leads hk fun _ => ?_)
  exact Step.closed_leads stands hk fun _ => Step.moved_leads

theorem reads_openingParen {field : String} (hk : t.kind = .punctuator .parenOpen) :
    (fieldHead field).Reads t (firstParameter field) := by
  intro place _
  rw [Step.act]
  exact Step.onKind_leads hk fun _ => Step.moved_leads

theorem reads_colon {field : String} (hk : t.kind = .punctuator .colon) :
    (fieldHead field).Reads t (type .field 0) := by
  intro place _
  rw [Step.act]
  exact Step.onKind_leads_of_ne hk (by simp) (Step.onKind_leads hk fun _ => Step.moved_leads)

theorem reads_fieldColon {field : String} (hk : t.kind = .punctuator .colon) :
    (fieldColon field).Reads t (type .field 0) := by
  intro place _
  rw [Step.act]
  exact Step.onKind_leads hk fun _ => Step.moved_leads

theorem reads_parameterColon {field parameter : String} (hk : t.kind = .punctuator .colon) :
    (parameterColon field parameter).Reads t (type (.parameter field) 0) := by
  intro place _
  rw [Step.act]
  exact Step.onKind_leads hk fun _ => Step.moved_leads

theorem reads_firstParameter {field name : String} (hk : t.kind = .name name) :
    (firstParameter field).Reads t (parameterColon field name) := by
  intro place _
  rw [Step.act, Step.firstParameter]
  exact Step.onKind_leads_of_ne hk (by simp) (Step.named_leads hk _ _)

theorem reads_laterParameter {field name : String} (hk : t.kind = .name name) :
    (laterParameter field).Reads t (parameterColon field name) :=
  fun _ _ => Step.named_leads hk _ _

theorem reads_objectBrace (hk : t.kind = .punctuator .braceOpen) : start.Reads t firstField := by
  intro place _
  rw [Step.act, Step.start]
  exact Step.onKind_leads hk fun _ => Step.entered_leads

theorem reads_enum (hk : t.kind = .name "enum") : start.Reads t enumBrace := by
  intro place _
  rw [Step.act, Step.start]
  exact Step.onKind_leads_of_ne hk (by simp) (Step.onKind_leads hk fun _ => Step.entered_leads)

theorem reads_enumBrace (hk : t.kind = .punctuator .braceOpen) : enumBrace.Reads t firstValue := by
  intro place _
  rw [Step.act]
  exact Step.onKind_leads hk fun _ => Step.moved_leads

theorem reads_firstField {name : String} (hk : t.kind = .name name) :
    firstField.Reads t (fieldHead name) :=
  fun _ _ => Step.declaration_leads_of_name hk _ _ (.inl rfl) _

theorem reads_laterField {name : String} (hk : t.kind = .name name)
    (apart : t.isSeparated = true) : (behindType .field 0).Reads t (fieldHead name) :=
  fun _ _ => Step.declaration_leads_of_name hk _ _ (.inr apart) _

theorem reads_firstValue {name : String} (hk : t.kind = .name name) :
    firstValue.Reads t laterValue :=
  fun _ _ => Step.declaration_leads_of_name hk _ _ (.inl rfl) _

theorem reads_laterValue {name : String} (hk : t.kind = .name name)
    (apart : t.isSeparated = true) : laterValue.Reads t laterValue :=
  fun _ _ => Step.declaration_leads_of_name hk _ _ (.inr apart) _

theorem reads_closingBrace (hk : t.kind = .punctuator .braceClose) :
    ∀ spot ∈ [firstField, behindType .field 0, firstValue, laterValue],
      spot.Reads t finished := by
  simp only [List.forall_mem_cons, List.not_mem_nil, IsEmpty.forall_iff, implies_true, and_true]
  refine ⟨?_, ?_, ?_, ?_⟩ <;>
    exact fun _ stands => Step.declaration_leads_of_brace stands rfl hk _ _ _ _

end Spot

namespace Syntax

variable {owner : Owner} {levels : Nat}

theorem passes_bang {bang : Option σ} (h : Spells (bangMarks bang) us) :
    Passes False (.typeEnd owner levels) us (.behindType owner levels) := by
  cases bang with
  | some mark =>
    obtain ⟨t, vs, rfl, meets, hvs⟩ := Spells.cons_iff.mp h
    rw [Spells.nil_iff.mp hvs]
    exact Passes.nil.cons (Spot.reads_bang (Spells.sign_iff.mp meets))
  | none =>
    rw [Spells.nil_iff.mp h]
    intro place rest stands noBang
    rw [List.nil_append, run_eq, Step.act, Step.typeEnd, Step.onKind_of_not_kind noBang]
    rcases Step.outcome_reaching_cases place (Step.behindType place rest.head? owner levels)
      rest.tail with goes | ⟨span, large, stops⟩
    · have same : run (.behindType owner levels) place rest = _ := run_eq _ _ _
      rw [goes]
      exact same ▸ .through not_false stands
    · rw [stops]
      exact .tooLarge large

theorem passes_full (tooDeep : deep) : Passes deep (.type owner Parse.maxDepth) us later := by
  intro place rest _ _
  obtain ⟨span, stops⟩ := run_too_deep owner place (us ++ rest)
  rw [stops]
  exact .tooDeep tooDeep

theorem TypeExpr.passes (t : TypeExpr σ) (room : levels ≤ Parse.maxDepth)
    (h : Spells t.marks us) : Passes (Parse.maxDepth ≤ levels + t.depth) (.type owner levels) us
      (.behindType owner levels) := by
  induction t generalizing us levels with
  | named name bang span =>
    rcases room.eq_or_lt with rfl | below
    · exact passes_full (Nat.le_add_right _ _)
    · obtain ⟨t, vs, rfl, meets, hvs⟩ := Spells.cons_iff.mp h
      have shallow : ¬ Parse.maxDepth ≤ levels := below.not_ge
      exact ((passes_bang hvs).cons (Spot.reads_leaf below (Spells.word_iff.mp meets))).congr
        (iff_of_false not_false shallow)
  | list element bang span ih =>
    rcases room.eq_or_lt with rfl | below
    · exact passes_full (Nat.le_add_right _ _)
    · obtain ⟨bracket, vs, rfl, opens, hvs⟩ := Spells.cons_iff.mp h
      obtain ⟨inner, ws, rfl, hinner, hws⟩ := Spells.append_iff.mp hvs
      obtain ⟨closing, marks, rfl, closes, hmarks⟩ := Spells.cons_iff.mp hws
      have ended : Passes False (.behindType owner (levels + 1)) (closing :: marks)
          (.behindType owner levels) :=
        (passes_bang hmarks).cons (Spot.reads_closingBracket (Spells.sign_iff.mp closes))
      have whole := (ih below hinner).append ended (hws.noBang (by simp [Mark.sign]))
      refine (whole.cons (Spot.reads_bracket below (Spells.sign_iff.mp opens))).congr ?_
      rw [depth, or_false, Nat.succ_add_eq_add_succ]

theorem Parameter.passes {p : Parameter σ} {field : String}
    (named : ∀ t : Token, t.kind = .name p.name.text →
      spot.Reads t (.parameterColon field p.name.text))
    (h : Spells p.marks us) :
    Passes (Parse.maxDepth ≤ p.type.depth) spot us (.behindType (.parameter field) 0) := by
  obtain ⟨name, vs, rfl, meets, hvs⟩ := Spells.cons_iff.mp h
  obtain ⟨colon, ws, rfl, separates, hws⟩ := Spells.cons_iff.mp hvs
  have typed : Passes _ (.type (.parameter field) 0) ws (.behindType (.parameter field) 0) :=
    p.type.passes (Nat.zero_le _) hws
  rw [Nat.zero_add] at typed
  exact (typed.cons (Spot.reads_parameterColon (Spells.sign_iff.mp separates))).cons
    (named name (Spells.word_iff.mp meets))

theorem passes_moreParameters (field : String) {ps : List (Parameter σ)}
    (h : Spells (ps.flatMap fun p => .sign .comma :: p.marks) us) :
    Passes (∃ p ∈ ps, Parse.maxDepth ≤ p.type.depth) (.behindType (.parameter field) 0) us
      (.behindType (.parameter field) 0) ∧ NoBang us := by
  refine Passes.flatMap (fun p us hp => ⟨?_, hp.noBang (by simp [Mark.sign])⟩) h
  obtain ⟨comma, vs, rfl, separates, hvs⟩ := Spells.cons_iff.mp hp
  exact (Parameter.passes (fun _ => Spot.reads_laterParameter) hvs).cons
    (Spot.reads_comma (Spells.sign_iff.mp separates))

theorem passes_fieldHead {ps : List (Parameter σ)} {type : TypeExpr σ} {field : String}
    (h : Spells (parameterMarks ps ++ .sign .colon :: type.marks) us) :
    Passes ((∃ p ∈ ps, Parse.maxDepth ≤ p.type.depth) ∨ Parse.maxDepth ≤ type.depth)
      (.fieldHead field) us (.behindType .field 0) := by
  obtain ⟨vs, ws, rfl, hvs, hws⟩ := Spells.append_iff.mp h
  obtain ⟨colon, xs, rfl, separates, hxs⟩ := Spells.cons_iff.mp hws
  have typed : Passes _ (.type .field 0) xs (.behindType .field 0) :=
    type.passes (Nat.zero_le _) hxs
  rw [Nat.zero_add] at typed
  cases ps with
  | nil =>
    rw [Spells.nil_iff.mp hvs]
    exact (typed.cons (Spot.reads_colon (Spells.sign_iff.mp separates))).congr (by simp)
  | cons first more =>
    obtain ⟨paren, ys, rfl, opens, hys⟩ := Spells.cons_iff.mp hvs
    obtain ⟨zs, ending, rfl, hzs, hending⟩ := Spells.append_iff.mp hys
    obtain ⟨firsts, mores, rfl, hfirst, hmore⟩ := Spells.append_iff.mp hzs
    obtain ⟨closing, none, rfl, closes, hnone⟩ := Spells.cons_iff.mp hending
    obtain rfl := Spells.nil_iff.mp hnone
    have ended := (typed.cons (Spot.reads_fieldColon (Spells.sign_iff.mp separates))).cons
      (Spot.reads_closingParen field (Spells.sign_iff.mp closes))
    obtain ⟨later, noBang⟩ := passes_moreParameters field hmore
    have listed :=
      (Parameter.passes (fun _ => Spot.reads_firstParameter) hfirst).append later noBang
    have inside := listed.append ended (Parse.noBang_cons (Spells.sign_iff.mp closes) (by decide))
    have whole := inside.cons (Spot.reads_openingParen (Spells.sign_iff.mp opens))
    have split : paren :: (firsts ++ mores ++ [closing]) ++ colon :: xs =
        paren :: (firsts ++ mores ++ closing :: colon :: xs) := by simp
    rw [split]
    exact whole.congr (by simp)

theorem Field.passes {d : Field σ}
    (named : ∀ t ∈ us.head?, t.kind = .name d.name.text → spot.Reads t (.fieldHead d.name.text))
    (h : Spells d.marks us) :
    Passes (∃ t ∈ d.types, Parse.maxDepth ≤ t.depth) spot us (.behindType .field 0) := by
  obtain ⟨name, vs, rfl, meets, hvs⟩ := Spells.cons_iff.mp h
  refine ((passes_fieldHead hvs).cons (named name rfl (Spells.word_iff.mp meets))).congr ?_
  simp [Field.types]

theorem passes_declarations {f : α → List Mark} {deep : α → Prop} {as : List α} {first : Spot}
    (later : Spot)
    (start : ∀ a us, Spells (f a) us → Passes (deep a) first us later)
    (more : ∀ a us, Spells (f a) us → (∀ t ∈ us.head?, t.isSeparated = true) →
      Passes (deep a) later us later ∧ NoBang us)
    (closes : ∀ t : Token, t.kind = .punctuator .braceClose →
      first.Reads t .finished ∧ later.Reads t .finished)
    (h : Spells (Mark.declarations (as.map f) ++ [.sign .braceClose]) us) :
    Passes (∃ a ∈ as, deep a) first us .finished := by
  obtain ⟨vs, ending, rfl, hvs, hending⟩ := Spells.append_iff.mp h
  obtain ⟨closing, none, rfl, meets, hnone⟩ := Spells.cons_iff.mp hending
  obtain rfl := Spells.nil_iff.mp hnone
  have hk := Spells.sign_iff.mp meets
  cases as with
  | nil =>
    rw [Spells.nil_iff.mp hvs]
    exact (Passes.nil.cons (closes closing hk).1).congr (by simp)
  | cons a as =>
    rw [List.map_cons, Mark.declarations, List.flatMap_map] at hvs
    obtain ⟨ws, xs, rfl, hws, hxs⟩ := Spells.append_iff.mp hvs
    have others : Passes (∃ a ∈ as, deep a) later xs later ∧ NoBang xs :=
      Passes.flatMap (fun a us ha => more a us (Spells.standApart_iff.mp ha).1
        (Spells.standApart_iff.mp ha).2) hxs
    have listed := (start a ws hws).append others.1 others.2
    have ended := listed.append (Passes.nil.cons (closes closing hk).2)
      (Parse.noBang_cons hk (by decide))
    exact ended.congr (by simp)

/-- Over a whole block. -/
theorem Block.passes {b : Block σ} (h : Spells b.marks us) :
    Passes (∃ t ∈ b.types, Parse.maxDepth ≤ t.depth) .start us .finished := by
  cases b with
  | object fields span =>
    obtain ⟨brace, vs, rfl, opens, hvs⟩ := Spells.cons_iff.mp h
    have listed : Passes (∃ d ∈ fields, ∃ t ∈ d.types, Parse.maxDepth ≤ t.depth) .firstField vs
        .finished := by
      refine passes_declarations (.behindType .field 0) (fun d us hd => ?_)
        (fun d us hd apart => ⟨?_, ?_⟩) (fun t hk => ⟨?_, ?_⟩) hvs
      · exact Field.passes (fun t _ => Spot.reads_firstField) hd
      · exact Field.passes (fun t ht hk => Spot.reads_laterField hk (apart t ht)) hd
      · exact hd.noBang (by simp [Mark.word])
      · exact Spot.reads_closingBrace hk _ (by simp)
      · exact Spot.reads_closingBrace hk _ (by simp)
    refine (listed.cons (Spot.reads_objectBrace (Spells.sign_iff.mp opens))).congr ?_
    simp only [types, List.mem_flatMap]
    constructor
    · rintro ⟨d, hd, t, ht, deep⟩
      exact ⟨t, ⟨d, hd, ht⟩, deep⟩
    · rintro ⟨t, ⟨d, hd, ht⟩, deep⟩
      exact ⟨d, hd, t, ht, deep⟩
  | enum values span =>
    obtain ⟨keyword, vs, rfl, announces, hvs⟩ := Spells.cons_iff.mp h
    obtain ⟨brace, ws, rfl, opens, hws⟩ := Spells.cons_iff.mp hvs
    have listed : Passes (∃ v ∈ values, False) .firstValue ws .finished := by
      refine passes_declarations .laterValue (fun v us hv => ?_)
        (fun v us hv apart => ⟨?_, ?_⟩) (fun t hk => ⟨?_, ?_⟩) hws
      · obtain ⟨t, none, rfl, meets, hnone⟩ := Spells.cons_iff.mp hv
        rw [Spells.nil_iff.mp hnone]
        exact Passes.nil.cons (Spot.reads_firstValue (Spells.word_iff.mp meets))
      · obtain ⟨t, none, rfl, meets, hnone⟩ := Spells.cons_iff.mp hv
        rw [Spells.nil_iff.mp hnone]
        exact Passes.nil.cons (Spot.reads_laterValue (Spells.word_iff.mp meets) (apart t rfl))
      · exact hv.noBang (by simp [Mark.word])
      · exact Spot.reads_closingBrace hk _ (by simp)
      · exact Spot.reads_closingBrace hk _ (by simp)
    exact ((listed.cons (Spot.reads_enumBrace (Spells.sign_iff.mp opens))).cons
      (Spot.reads_enum (Spells.word_iff.mp announces))).congr (by simp [types])

end Syntax

end ShapeSchema
