import ShapeSchema.Proofs.EarliestError
import ShapeSchema.Proofs.MachineWalks
import ShapeSchema.Proofs.PrintedTrees
set_option autoImplicit false

namespace ShapeSchema

theorem append_inj_of_byteCount {before after before' after' : List Char}
    (split : before ++ after = before' ++ after') (same : byteCount before = byteCount before') :
    before = before' ∧ after = after' := by
  have front : some before = some before' := by
    rw [← takeBytes?_byteCount before after, split, same, takeBytes?_byteCount]
  obtain rfl := Option.some.inj front
  exact ⟨rfl, List.append_cancel_left split⟩

namespace Token

variable {text : String} {us more : List Token} {u t : Token}

theorem start_eq_stop (whole : ofText text = us ++ u :: t :: more)
    (touching : t.isSeparated = false) : t.span.start = u.span.stop := by
  have bare : t.trivia = [] := by simpa [isSeparated] using touching
  have pair : [(.token u.kind, u.span), (.token t.kind, t.span)] <:+:
      (ofText text).flatMap pieces := by
    refine ⟨us.flatMap pieces ++ u.trivia.map fun v => (.separator v.kind, v.span),
      more.flatMap pieces, ?_⟩
    simp [whole, pieces, bare]
  have linked := List.IsChain.infix (ofText_lossless text).gapless pair
  have adjacent := List.isChain_pair.mp linked
  exact adjacent

/-- Right behind the characters of a token, those of a name that touches it. No name could begin
    further to the front. -/
theorem touching_name {found : String} (whole : ofText text = us ++ u :: t :: more)
    (name : t.kind = .name found) (touching : t.isSeparated = false) :
    ∃ before run after, text.toList = before ++ (run ++ (found.toList ++ after)) ∧
      t.span.start.offset = byteCount (before ++ run) ∧
      (Lexeme.token u.kind).Describes before run (found.toList ++ after) ∧
      ∀ c ∈ (before ++ run).getLast?, isNameChar c = false := by
  have hu : u ∈ ofText text := by simp [whole]
  have ht : t ∈ ofText text := by simp [whole]
  obtain ⟨before, run, after, split, offsets, described⟩ := pieces_describe text _ (mem_pieces hu)
  obtain ⟨before', run', after', split', offsets', described'⟩ :=
    pieces_describe text _ (mem_pieces ht)
  rw [name] at described'
  obtain ⟨spelled, -, maximal⟩ := described'
  have start : t.span.start.offset = byteCount before' := congrArg ByteSpan.start offsets'
  have stop : u.span.stop.offset = byteCount before + byteCount run :=
    congrArg ByteSpan.stop offsets
  have place : byteCount (before ++ run) = byteCount before' := by
    rw [byteCount_append, ← stop, ← start_eq_stop whole touching, start]
  rw [split, List.append_assoc before'] at split'
  obtain ⟨rfl, rfl⟩ := append_inj_of_byteCount split' place
  obtain rfl : run' = found.toList := by rw [← spelled, String.toList_ofList]
  exact ⟨before, run, after', by rw [split, List.append_assoc], start, described, maximal.left⟩

theorem names_stand_apart {name found : String} (whole : ofText text = us ++ u :: t :: more)
    (hu : u.kind = .name name) (ht : t.kind = .name found) : t.isSeparated = true := by
  by_contra touching
  obtain ⟨before, run, after, -, -, described, ended⟩ :=
    touching_name whole ht (Bool.eq_false_iff.mpr touching)
  rw [hu] at described
  obtain ⟨-, -, maximal⟩ := described
  have last := List.getLast?_eq_some_getLast maximal.nonempty
  have inside := maximal.inside _ (List.getLast_mem maximal.nonempty)
  rw [ended _ (by rw [List.getLast?_append, last]; rfl)] at inside
  cases inside

end Token

namespace Step

/-- If the step stops for want of a separator, then at a name that has none in front of it, and only
    where `behind` tells that it may be behind a declaration. -/
def Wants (behind : Bool) (next : Option Token) : Step → Prop
  | .stopped (.error e) => ∀ found, e.cause = .missingSeparator found → behind = true ∧
      ∃ t, next = some t ∧ t.kind = .name found ∧ t.isSeparated = false ∧ e.span = t.span
  | _ => True

variable {behind : Bool} {place : Place} {next : Option Token} {step no : Step}

theorem failed_wants {e : ParseError} (other : ∀ found, e.cause ≠ .missingSeparator found) :
    (failed e).Wants behind next := fun found cause => absurd cause (other found)

theorem failed_wants_of_liesAhead {e : ParseError} (ahead : e.cause.LiesAhead) :
    (failed e).Wants behind next := by
  refine failed_wants fun found other => ?_
  rw [other] at ahead
  exact ahead

theorem refused_wants (expected : List Expected) :
    (refused place next expected).Wants behind next :=
  failed_wants_of_liesAhead (Cursor.liesAhead_unexpected _ expected)

theorem fitting_wants {span : Span} (h : step.Wants behind next) :
    (fitting span step).Wants behind next := by
  unfold fitting
  split
  · exact h
  · exact failed_wants fun found cause => by cases cause

theorem reaching_wants (h : step.Wants behind next) : (reaching place step).Wants behind next := by
  unfold reaching
  split
  · exact h
  · exact fitting_wants h

theorem entered_wants (t : Token) (spot : Spot) (later : Place) :
    (entered t spot later).Wants behind next := fitting_wants trivial

theorem onKind_wants {kind : Token.Kind} {yes : Token → Place → Step}
    (hyes : ∀ t later, (yes t later).Wants behind next) (hno : no.Wants behind next) :
    (onKind kind place next yes no).Wants behind next := by
  unfold onKind
  split
  · exact hno
  · split
    · exact hyes _ _
    · exact hno

theorem onName_wants {yes : String → Token → Place → Step}
    (hyes : ∀ name t later, next = some t → t.kind = .name name →
      (yes name t later).Wants behind next)
    (hno : no.Wants behind next) : (onName place next yes no).Wants behind next := by
  cases next with
  | none => exact hno
  | some t =>
    unfold onName
    dsimp only
    cases hk : t.kind with
    | name name => exact hyes name t _ rfl hk
    | _ => exact hno

theorem named_wants (role : Expected) (spot : String → Spot) :
    (named place next role spot).Wants behind next :=
  onName_wants (fun _ _ _ _ _ => entered_wants _ _ _) (refused_wants _)

theorem closed_wants {yes : Place → Step} (hyes : ∀ later, (yes later).Wants behind next) :
    (closed place next yes).Wants behind next := by
  unfold closed
  split
  · exact failed_wants fun found cause => by cases cause
  · exact onKind_wants (fun _ _ => hyes _) (refused_wants _)

theorem colon_wants (name : String) (spot : Spot) :
    (colon place next name spot).Wants behind next :=
  onKind_wants (fun _ _ => trivial) (failed_wants_of_liesAhead (Parse.liesAhead_colonError name _))

theorem declaration_wants (role : Expected) (plural : String) {first : Bool}
    (spot : String → Spot) (h : first = false → behind = true) :
    (declaration place next role plural first spot).Wants behind next := by
  refine onKind_wants (fun _ _ => closed_wants fun _ => reaching_wants trivial)
    (onName_wants (fun name t later ht hk => ?_) (refused_wants _))
  split
  · exact entered_wants _ _ _
  · next joined =>
    rw [Bool.or_eq_true, not_or, Bool.not_eq_true, Bool.not_eq_true] at joined
    rintro found ⟨⟩
    exact ⟨h joined.1, t, ht, hk, joined.2, rfl⟩

theorem type_wants (owner : Owner) (levels : Nat) :
    (type place next owner levels).Wants behind next := by
  unfold type
  split
  · exact failed_wants fun found cause => by cases cause
  · exact onKind_wants (fun _ _ => entered_wants _ _ _) (named_wants _ _)

theorem behindType_wants (owner : Owner) (levels : Nat)
    (h : (Spot.behindType owner levels).behindDeclaration = behind) :
    (behindType place next owner levels).Wants behind next := by
  cases levels with
  | succ levels => exact closed_wants fun _ => trivial
  | zero =>
    cases owner with
    | field => exact declaration_wants _ _ _ fun _ => h.symm
    | parameter field =>
      exact onKind_wants (fun _ _ => trivial)
        (onKind_wants (fun _ _ => closed_wants fun _ => trivial)
          (failed_wants_of_liesAhead (Parse.liesAhead_parameterListError _)))

theorem act_wants (spot : Spot) : (act place next spot).Wants spot.behindDeclaration next := by
  cases spot with
  | start =>
    rw [act, start]
    exact onKind_wants (fun _ _ => entered_wants _ _ _)
      (onKind_wants (fun _ _ => entered_wants _ _ _) (refused_wants _))
  | enumBrace =>
    rw [act]
    exact onKind_wants (fun _ _ => trivial) (refused_wants _)
  | firstField => exact declaration_wants _ _ _ fun later => by cases later
  | firstValue => exact declaration_wants _ _ _ fun later => by cases later
  | laterValue => exact declaration_wants _ _ _ fun _ => rfl
  | fieldHead field =>
    rw [act]
    exact onKind_wants (fun _ _ => trivial) (colon_wants _ _)
  | firstParameter field =>
    rw [act, firstParameter]
    refine onKind_wants (fun _ _ => ?_) (named_wants _ _)
    split <;> exact failed_wants fun found cause => by cases cause
  | laterParameter field => exact named_wants _ _
  | parameterColon field parameter => exact colon_wants _ _
  | fieldColon field => exact colon_wants _ _
  | type owner levels => exact type_wants owner levels
  | typeEnd owner levels =>
    rw [act, typeEnd]
    refine onKind_wants (fun _ _ => entered_wants _ _ _) (reaching_wants ?_)
    exact behindType_wants owner levels (by cases owner <;> cases levels <;> rfl)
  | behindType owner levels => exact behindType_wants owner levels rfl
  | finished =>
    rw [act]
    unfold finished
    split
    · trivial
    · split
      · trivial
      · exact failed_wants fun found cause => by cases cause
      · exact failed_wants fun found cause => by cases cause

theorem reaching_of_failed {e : ParseError} (fails : reaching place step = failed e)
    (cause : e.cause ≠ .invalidSyntax) (other : Step) : reaching place other = other := by
  unfold reaching at fails ⊢
  cases hl : place.lastEnd with
  | none => rfl
  | some p =>
    rw [hl] at fails
    by_cases fits : (Span.empty p).Fits
    · exact if_pos fits
    · dsimp only at fails
      rw [fitting, if_neg fits] at fails
      cases fails
      exact absurd rfl cause

/-- Where a name lacks a separator, the block could be closed instead. -/
theorem brace_finishes {spot : Spot} {t : Token} {name found : String} {e : ParseError}
    (stands : place.constructs = spot.constructs) (closes : spot.behindDeclaration = true)
    (hk : t.kind = .name name) (fails : act place (some t) spot = failed e)
    (cause : e.cause = .missingSeparator found) :
    ∃ stop, act place (some (.ofKind (.punctuator .braceClose))) spot = .moved .finished stop := by
  have brace {c : Construct} (block : place.constructs = [c]) (closer : c.closer = .braceClose)
      (role : Expected) (plural : String) (later : String → Spot) :
      ∃ stop, declaration place (some (.ofKind (.punctuator .braceClose))) role plural false later =
        .moved .finished stop :=
    declaration_brace block closer rfl (Token.fits_ofKind _) role plural false later
  cases spot with
  | laterValue => exact brace stands rfl _ _ _
  | typeEnd owner levels =>
    cases owner with
    | parameter field => cases closes
    | field =>
      cases levels with
      | succ levels => cases closes
      | zero =>
        rw [act, typeEnd, onKind, if_neg (by simp [hk])] at fails
        rw [act, typeEnd, onKind_ofKind_of_ne (by simp), reaching_of_failed fails (by simp [cause])]
        exact brace stands rfl _ _ _
  | behindType owner levels =>
    cases owner with
    | parameter field => cases closes
    | field =>
      cases levels with
      | succ levels => cases closes
      | zero => exact brace stands rfl .fieldName "fields" .fieldHead
  | _ => cases closes

end Step

theorem Walk.endsBy {spot later : Spot} {place stop : Place} {us : List Token}
    {previous : Option Token} (walk : Walk spot place us later stop)
    (stands : place.constructs = spot.constructs)
    (h : spot.behindDeclaration = true → ShapeSchema.endsBy previous = true) :
    later.behindDeclaration = true → ShapeSchema.endsBy (us.getLast?.or previous) = true := by
  induction walk generalizing previous with
  | nil => exact h
  | @cons spot place t between behind us later stop moves _ ih =>
    have sound : (Step.act place (some t) spot).Sound _ := Step.act_sound stands
    rw [moves] at sound
    rw [getLast?_cons_or]
    exact ih sound.1 sound.2

theorem Sequence.forall_tokens {α : Type} {R : α → List Token → Prop} {P : Token → Prop}
    {as : List α} {us : List Token} (h : Sequence R as us)
    (hR : ∀ a us, R a us → ∀ t ∈ us, P t) : ∀ t ∈ us, P t := by
  induction h with
  | nil => exact List.forall_mem_nil _
  | cons first _ ih => exact List.forall_mem_append.mpr ⟨hR _ _ first, ih⟩

theorem Declared.forall_tokens {α : Type} {R : α → List Token → Prop} {P : Token → Prop}
    {as : List α} {us : List Token} (h : Declared R as us)
    (hR : ∀ a us, R a us → ∀ t ∈ us, P t) : ∀ t ∈ us, P t := by
  cases h with
  | nil => exact List.forall_mem_nil _
  | cons first more =>
    have later := more.forall_tokens fun a us h => hR a us h.1
    exact List.forall_mem_append.mpr ⟨hR _ _ first, later⟩

namespace Syntax.Block

variable {text : String} {e : ParseError} {found : String}

theorem ne_endOfInput_of_append {us more : List Token} {t : Token}
    (whole : Token.ofText text = us ++ t :: more) : ∀ u ∈ us, u.kind ≠ .endOfInput := by
  obtain ⟨init, last, same, -, -, others⟩ := (Token.ofText_lossless text).ends
  have front : init = us ++ (t :: more).dropLast := by
    rw [← List.dropLast_append_of_ne_nil (List.cons_ne_nil t more), ← whole, same,
      List.dropLast_concat]
  exact fun u hu => others u (front ▸ List.mem_append_left _ hu)

/-- In place of a name that lacks a separator a brace would close the block. -/
theorem closable_of_missingSeparator (fails : (ofText? text).value = .error e)
    (cause : e.cause = .missingSeparator found) :
    ∃ us u t more, Token.ofText text = us ++ u :: t :: more ∧ t.kind = .name found ∧
      t.isSeparated = false ∧ e.span = t.span ∧ u.kind.endsDeclaration = true ∧
      ∃ b : Block ByteSpan, b.Over (us ++ [u] ++ [.ofKind (.punctuator .braceClose)]) := by
  rw [value_ofText?] at fails
  obtain ⟨read, rest, spot, place, whole, walk, stops⟩ :=
    exists_walk_of_error (run_eq_error_iff.mpr fails)
  have wants : (Step.act place rest.head? spot).Wants _ _ := Step.act_wants spot
  rw [stops] at wants
  obtain ⟨closes, t, next, name, touching, span⟩ := wants found cause
  obtain ⟨more, rfl⟩ := List.head?_eq_some_iff.mp next
  have stands := walk.constructs rfl
  have ends : ShapeSchema.endsBy (read.getLast?.or none) = true :=
    walk.endsBy rfl (fun closes => by cases closes) closes
  rw [Option.or_none] at ends
  obtain ⟨u, last, closing⟩ := (Option.any_eq_true _ _).mp ends
  obtain ⟨us, rfl⟩ := List.getLast?_eq_some_iff.mp last
  obtain ⟨stop, moves⟩ := Step.brace_finishes stands closes name stops cause
  have accepted : run .start ⟨[], none⟩ (us ++ [u] ++ [.ofKind (.punctuator .braceClose)]) =
      .ok () := by
    rw [walk.run_eq, run, moves]
    rfl
  obtain ⟨b, hb⟩ := exists_value_ofTokens?_iff.mpr accepted
  obtain ⟨covers, -⟩ := over_of_value_ofTokens? hb
  have inside := List.forall_mem_append.mpr ⟨ne_endOfInput_of_append whole,
    List.forall_mem_singleton.mpr (by decide : (Token.ofKind (.punctuator .braceClose)).kind ≠ _)⟩
  have atEnd : Parse.AtEnd [] := by simp [Parse.AtEnd]
  have all := significant_append inside atEnd
  rw [List.append_nil] at all
  rw [all] at covers
  rw [List.append_assoc, List.singleton_append] at whole
  exact ⟨us, u, t, more, whole, name, touching, span, closing, b, covers⟩

theorem Over.fields_of_mark {b : Block ByteSpan} {us : List Token} {u closing : Token}
    (covers : b.Over (us ++ [u] ++ [closing]))
    (mark : u.kind = .punctuator .bracketClose ∨ u.kind = .punctuator .bang) :
    ∃ brace vs fields, us = brace :: vs ∧ brace.kind = .punctuator .braceOpen ∧
      Declared Field.Over fields (vs ++ [u]) := by
  have noName (n : String) : u.kind ≠ .name n := by
    rcases mark with h | h <;> simp [h]
  have noBrace : u.kind ≠ .punctuator .braceOpen := by
    rcases mark with h | h <;> simp [h]
  generalize hts : us ++ [u] ++ [closing] = ts at covers
  cases covers with
  | @object fields brace vs last hbrace declared _ =>
    rw [← List.cons_append] at hts
    obtain ⟨same, -⟩ := List.append_inj' hts rfl
    cases us with
    | nil =>
      obtain ⟨rfl, -⟩ := List.cons.inj same
      exact absurd hbrace noBrace
    | cons first us =>
      obtain ⟨rfl, rfl⟩ := List.cons.inj same
      exact ⟨first, us, fields, rfl, hbrace, declared⟩
  | @enum values keyword brace vs last hkeyword hbrace declared _ =>
    rw [← List.cons_append, ← List.cons_append] at hts
    obtain ⟨same, -⟩ := List.append_inj' hts rfl
    have listed : ∀ t ∈ vs, t ≠ u := by
      refine declared.forall_tokens fun n ws hn t ht => ?_
      obtain ⟨v, rfl, kind, -⟩ := hn
      rintro rfl
      exact noName _ (List.mem_singleton.mp ht ▸ kind)
    have inside : u ∈ keyword :: brace :: vs := same ▸ List.mem_append_right us List.mem_cons_self
    rcases List.mem_cons.mp inside with rfl | inside
    · exact absurd hkeyword (noName _)
    · rcases List.mem_cons.mp inside with rfl | inside
      · exact absurd hbrace noBrace
      · exact absurd rfl (listed u inside)

theorem fields_of_missingSeparator (fails : (ofText? text).value = .error e)
    (cause : e.cause = .missingSeparator found) :
    ∃ brace us u t more fields, Token.ofText text = brace :: (us ++ u :: t :: more) ∧
      brace.kind = .punctuator .braceOpen ∧ Declared Field.Over fields (us ++ [u]) ∧
      t.kind = .name found ∧ t.isSeparated = false ∧ e.span = t.span ∧
      (u.kind = .punctuator .bracketClose ∨ u.kind = .punctuator .bang) := by
  obtain ⟨us, u, t, more, whole, name, touching, span, ends, b, covers⟩ :=
    closable_of_missingSeparator fails cause
  have mark : u.kind = .punctuator .bracketClose ∨ u.kind = .punctuator .bang := by
    cases hk : u.kind with
    | name other =>
      rw [Token.names_stand_apart whole hk name] at touching
      cases touching
    | invalid message notes => exact absurd hk ((kind_of_spells covers.spells u (by simp)).2 _ _)
    | endOfInput =>
      rw [hk] at ends
      cases ends
    | punctuator p =>
      rw [hk, Token.Kind.endsDeclaration, Bool.or_eq_true, decide_eq_true_eq,
        decide_eq_true_eq] at ends
      rcases ends with rfl | rfl
      · exact .inr rfl
      · exact .inl rfl
  obtain ⟨brace, vs, fields, rfl, hbrace, declared⟩ := covers.fields_of_mark mark
  exact ⟨brace, vs, u, t, more, fields, whole, hbrace, declared, name, touching, span, mark⟩

/-- Whenever a text is refused for want of a separator, it starts an object block with whole fields
    in front of the name that the error points at, at least one, and the character right in front
    of the name is `]` or `!`. A text that starts with `enum` is never refused for that. -/
theorem ofText?_error_missingSeparator (text : String) :
    (∀ e found, (ofText? text).value = .error e → e.cause = .missingSeparator found →
      ∃ brace us t more fields, Token.ofText text = brace :: (us ++ t :: more) ∧
        brace.kind = .punctuator .braceOpen ∧ Declared Field.Over fields us ∧ fields ≠ [] ∧
        t.kind = .name found ∧ e.span = t.span ∧
        ∃ before c after, text.toList = before ++ c :: (found.toList ++ after) ∧
          byteCount (before ++ [c]) = e.span.start.offset ∧ (c = ']' ∨ c = '!')) ∧
    ∀ t, (Token.ofText text).head? = some t → t.kind = .name "enum" →
      ∀ e found, (ofText? text).value = .error e → e.cause ≠ .missingSeparator found := by
  constructor
  · intro e found fails cause
    obtain ⟨brace, us, u, t, more, fields, whole, hbrace, declared, name, touching, span, mark⟩ :=
      fields_of_missingSeparator fails cause
    have nonempty : fields ≠ [] := by
      rintro rfl
      generalize hvs : us ++ [u] = vs at declared
      cases declared
      simp at hvs
    obtain ⟨before, run, after, split, start, described, -⟩ :=
      Token.touching_name ((List.cons_append ..).symm ▸ whole) name touching
    have char : ∃ c, run = [c] ∧ (c = ']' ∨ c = '!') := by
      rcases mark with hk | hk
      · rw [hk] at described
        exact ⟨']', described, .inl rfl⟩
      · rw [hk] at described
        exact ⟨'!', described, .inr rfl⟩
    obtain ⟨c, rfl, hc⟩ := char
    refine ⟨brace, us ++ [u], t, more, fields, ?_, hbrace, declared, nonempty, name, span,
      before, c, after, split, ?_, hc⟩
    · rw [whole, List.append_assoc, List.singleton_append]
    · rw [span, start]
  · intro t first enum e found fails cause
    obtain ⟨brace, us, u, t', more, fields, whole, hbrace, -⟩ :=
      fields_of_missingSeparator fails cause
    rw [whole, List.head?_cons, Option.some.injEq] at first
    rw [← first, hbrace] at enum
    cases enum

theorem ofText?_error_missingSeparator_behind_list :
    (∃ e, (ofText? "\x7ba(x:T):[Int]b:T\x7d").value = .error e ∧
      e.cause = .missingSeparator "b" ∧
      ∃ brace us t more fields,
        Token.ofText "\x7ba(x:T):[Int]b:T\x7d" = brace :: (us ++ t :: more) ∧
        brace.kind = .punctuator .braceOpen ∧ Declared Field.Over fields us ∧ fields ≠ [] ∧
        t.kind = .name "b" ∧ e.span = t.span ∧
        ∃ before c after, "\x7ba(x:T):[Int]b:T\x7d".toList = before ++ c :: ("b".toList ++ after) ∧
          byteCount (before ++ [c]) = e.span.start.offset ∧ (c = ']' ∨ c = '!')) ∧
    ∃ t e, (Token.ofText "enum\x7bA B").head? = some t ∧ t.kind = .name "enum" ∧
      (ofText? "enum\x7bA B").value = .error e ∧ ∀ found, e.cause ≠ .missingSeparator found := by
  have joined : (ofText? "\x7ba(x:T):[Int]b:T\x7d").value =
      .error (.missingSeparator "fields" "b" ⟨⟨0, 13, 13, 13⟩, ⟨0, 14, 14, 14⟩⟩) :=
    run_eq_error_iff.mp (by decide +kernel)
  have unclosed : (ofText? "enum\x7bA B").value = .error
      ⟨"unclosed `\x7b`", .empty ⟨0, 8, 8, 8⟩, .unclosedDelimiter "\x7b",
        [.generalAt "enum block opened here" ⟨⟨0, 4, 4, 4⟩, ⟨0, 5, 5, 5⟩⟩]⟩ :=
    run_eq_error_iff.mp (by decide +kernel)
  have keyword : (Token.ofText "enum\x7bA B").head? =
      some ⟨.name "enum", [], ⟨⟨0, 0, 0, 0⟩, ⟨0, 4, 4, 4⟩⟩⟩ := by decide +kernel
  exact ⟨⟨_, joined, rfl, (ofText?_error_missingSeparator _).1 _ _ joined rfl⟩,
    _, _, keyword, rfl, unclosed,
    fun found => (ofText?_error_missingSeparator _).2 _ keyword rfl _ found unclosed⟩

end Syntax.Block

end ShapeSchema
