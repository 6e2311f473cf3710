import ShapeSchema.Proofs.EarliestError
import ShapeSchema.Proofs.MachineWalks
import ShapeSchema.Proofs.TreeOver
set_option autoImplicit false

namespace ShapeSchema

variable {spot later : Spot} {place behind : Place} {t : Token} {role : Expected} {name : String}
  {us more ts : List Token} {e : ParseError}

namespace Expected

/-- The tokens that the words stand for; names stand apart, and where the words tell no name, it is
    the one given. -/
def marks (name : String) : Expected → List Mark
  | .punctuator p => [.sign p]
  | .enumOpener => [.word "enum", .sign .braceOpen]
  | .enumKeyword => [.word "enum"]
  | .fieldName | .enumValue | .parameterName | .typeName => [⟨.name name, true⟩]

def all : List Expected :=
  Punctuator.all.map .punctuator ++
    [.enumOpener, .enumKeyword, .fieldName, .enumValue, .parameterName, .typeName]

theorem mem_all (role : Expected) : role ∈ all := by
  cases role with
  | punctuator p => cases p <;> decide
  | _ => decide

theorem eq_punctuator {m : Mark} {p : Punctuator} (only : role.marks name = [m])
    (hk : m.kind = .punctuator p) : role = .punctuator p := by
  cases role with
  | punctuator q =>
    cases only
    cases hk
    rfl
  | enumOpener => cases only
  | _ =>
    cases only
    cases hk

theorem text_injective : Function.Injective text := by
  have apart : ∀ a ∈ all, ∀ b ∈ all, a.text = b.text → a = b := by decide +kernel
  exact fun a b => apart a (mem_all a) b (mem_all b)

end Expected

theorem Mark.Meets.kind_of_punctuator {m : Mark} {p : Punctuator} (meets : m.Meets t)
    (only : (Expected.punctuator p).marks name = [m]) : t.kind = .punctuator p := by
  cases only
  exact meets.1

namespace Spot

def isShallow : Spot → Bool
  | .type _ levels => levels != Parse.maxDepth
  | _ => true

theorem isShallow_iff {spot : Spot} :
    spot.isShallow = true ↔ ∀ owner, spot ≠ .type owner Parse.maxDepth := by
  cases spot <;> simp [isShallow]

theorem of_mem_expectedBehind {owner : Owner} {levels : Nat}
    (h : role ∈ expectedBehind owner levels) :
    role = .fieldName ∨ ∃ p, role = .punctuator p ∧ p ≠ .bang := by
  cases levels with
  | succ levels => exact .inr ⟨_, List.mem_singleton.mp h, by decide⟩
  | zero =>
    cases owner with
    | field => exact (List.mem_pair.mp h).imp_right fun same => ⟨_, same, by decide⟩
    | parameter field =>
      rcases List.mem_pair.mp h with same | same
      · exact .inr ⟨_, same, by decide⟩
      · exact .inr ⟨_, same, by decide⟩

theorem start_of_enumOpener {spot : Spot} (h : Expected.enumOpener ∈ spot.expected) :
    spot = .start := by
  have behind {owner : Owner} {levels : Nat} : Expected.enumOpener ∉ expectedBehind owner levels :=
    fun h => by simpa using of_mem_expectedBehind h
  cases spot with
  | start => rfl
  | typeEnd owner levels => exact absurd h behind
  | behindType owner levels => exact absurd h behind
  | _ => simp [expected] at h

end Spot

namespace Step

def Advances (step : Step) : Prop :=
  ∃ later behind, step = .moved later behind ∧ later.isShallow = true

theorem moved_advances (shallow : later.isShallow = true) : (moved later behind).Advances :=
  ⟨later, behind, rfl, shallow⟩

theorem entered_advances (fits : t.span.Fits) (shallow : later.isShallow = true) :
    (entered t later behind).Advances :=
  entered_of_fits fits later behind ▸ moved_advances shallow

theorem named_advances {text : String} {later : String → Spot} (fits : t.span.Fits)
    (hk : t.kind = .name text) (shallow : (later text).isShallow = true) :
    (named place (some t) role later).Advances := by
  rw [named_of_name rfl hk]
  exact entered_advances fits shallow

theorem colon_advances {owner : Owner} (hk : t.kind = .punctuator .colon) :
    (colon place (some t) name (.type owner 0)).Advances := by
  rw [colon, onKind_of_kind rfl hk]
  exact moved_advances rfl

theorem declaration_advances {names : Expected} {plural : String} {first : Bool}
    {later : String → Spot} {c : Construct} {m : Mark} (fits : t.span.Fits)
    (stands : place.constructs = [c]) (brace : c.closer = .braceClose)
    (naming : names.marks name = [⟨.name name, true⟩])
    (hrole : role ∈ [names, .punctuator .braceClose]) (only : role.marks name = [m])
    (meets : m.Meets t) (shallow : ∀ text, (later text).isShallow = true) :
    (declaration place (some t) names plural first later).Advances := by
  rcases List.mem_pair.mp hrole with rfl | rfl
  · rw [naming] at only
    cases only
    have hk : t.kind = .name name := meets.1
    have apart : t.isSeparated = true := meets.2 rfl
    rw [declaration, onKind_of_not_kind (by simp [hk]), onName_of_name rfl hk,
      if_pos (by simp [apart])]
    exact entered_advances fits (shallow name)
  · have hk := meets.kind_of_punctuator only
    obtain ⟨behind, moves⟩ := declaration_brace stands brace hk fits names plural first later
    rw [moves]
    exact moved_advances rfl

theorem behindType_advances {owner : Owner} {levels : Nat} {m : Mark} (fits : t.span.Fits)
    (stands : place.constructs = (Spot.behindType owner levels).constructs)
    (hrole : role ∈ Spot.expectedBehind owner levels) (only : role.marks name = [m])
    (meets : m.Meets t) : (behindType place (some t) owner levels).Advances := by
  cases levels with
  | succ levels =>
    obtain rfl := List.mem_singleton.mp hrole
    have hk := meets.kind_of_punctuator only
    obtain ⟨behind, -, -, closes⟩ := closed_closer stands t hk fun behind =>
      .moved (.typeEnd owner levels) behind
    rw [behindType, closes]
    exact moved_advances rfl
  | zero =>
    cases owner with
    | field =>
      exact declaration_advances fits stands rfl rfl hrole only meets fun _ => rfl
    | parameter field =>
      rcases List.mem_pair.mp hrole with rfl | rfl
      · rw [behindType, onKind_of_kind rfl (meets.kind_of_punctuator only)]
        exact moved_advances rfl
      · have hk := meets.kind_of_punctuator only
        obtain ⟨behind, -, -, closes⟩ := closed_closer stands t hk fun behind =>
          .moved (.fieldColon field) behind
        rw [behindType, onKind_of_not_kind (by simp [hk]), parametersEnd, onKind_of_kind rfl hk,
          closes]
        exact moved_advances rfl

/-- A token that is expected at the spot, for itself, is read there. -/
theorem act_advances {m : Mark} (fits : place.Fits (some t))
    (stands : place.constructs = spot.constructs) (shallow : spot.isShallow = true)
    (hrole : role ∈ spot.expected) (only : role.marks name = [m]) (meets : m.Meets t) :
    (act place (some t) spot).Advances := by
  have fit : t.span.Fits := fits.next t rfl
  cases spot with
  | start =>
    rcases List.mem_pair.mp hrole with rfl | rfl
    · rw [act, start, onKind_of_kind rfl (meets.kind_of_punctuator only)]
      exact entered_advances fit rfl
    · cases only
  | enumBrace =>
    obtain rfl := List.mem_singleton.mp hrole
    rw [act, onKind_of_kind rfl (meets.kind_of_punctuator only)]
    exact moved_advances rfl
  | firstField => exact declaration_advances fit stands rfl rfl hrole only meets fun _ => rfl
  | firstValue => exact declaration_advances fit stands rfl rfl hrole only meets fun _ => rfl
  | laterValue => exact declaration_advances fit stands rfl rfl hrole only meets fun _ => rfl
  | fieldHead field =>
    obtain rfl := List.mem_singleton.mp hrole
    have hk := meets.kind_of_punctuator only
    rw [act, onKind_of_not_kind (by simp [hk])]
    exact colon_advances hk
  | firstParameter field =>
    obtain rfl := List.mem_singleton.mp hrole
    cases only
    have hk : t.kind = .name name := meets.1
    rw [act, firstParameter, onKind_of_not_kind (by simp [hk])]
    exact named_advances fit hk rfl
  | laterParameter field =>
    obtain rfl := List.mem_singleton.mp hrole
    cases only
    exact named_advances fit meets.1 rfl
  | parameterColon field parameter =>
    obtain rfl := List.mem_singleton.mp hrole
    exact colon_advances (meets.kind_of_punctuator only)
  | fieldColon field =>
    obtain rfl := List.mem_singleton.mp hrole
    exact colon_advances (meets.kind_of_punctuator only)
  | type owner levels =>
    obtain rfl := List.mem_singleton.mp hrole
    cases only
    have hk : t.kind = .name name := meets.1
    have below : levels ≠ Parse.maxDepth := bne_iff_ne.mp shallow
    rw [act, type, if_neg below, onKind_of_not_kind (by simp [hk])]
    exact named_advances fit hk rfl
  | typeEnd owner levels =>
    have other : ∀ u ∈ some t, u.kind ≠ .punctuator .bang := by
      rintro _ ⟨⟩ hk
      obtain rfl := Expected.eq_punctuator only (meets.1.symm.trans hk)
      simpa using Spot.of_mem_expectedBehind hrole
    rw [act, typeEnd, onKind_of_not_kind other, reaching_of_fits fits.lastEnd]
    exact behindType_advances fit stands hrole only meets
  | behindType owner levels => exact behindType_advances fit stands hrole only meets
  | finished => cases hrole

end Step

/-- From the spot the machine reads the tokens and comes to where it can go on. -/
def Admits (spot : Spot) (place : Place) (ts : List Token) : Prop :=
  ∃ later behind, Walk spot place ts later behind ∧ later.isShallow = true

theorem Step.Advances.admits (h : (Step.act place (some t) spot).Advances) :
    Admits spot place [t] := by
  obtain ⟨later, behind, moves, shallow⟩ := h
  exact ⟨later, behind, .cons moves .nil, shallow⟩

theorem admits_enumOpener {word brace : Token} (fits : word.span.Fits)
    (hword : word.kind = .name "enum") (hbrace : brace.kind = .punctuator .braceOpen) :
    Admits .start place [word, brace] := by
  have named : Step.act place (some word) .start = .moved .enumBrace (place.behind word) := by
    rw [Step.act, Step.start, Step.onKind_of_not_kind (by simp [hword]),
      Step.onKind_of_kind rfl hword, Step.entered_of_fits fits]
  have opened : Step.act (place.behind word) (some brace) .enumBrace =
      .moved .firstValue (((place.behind word).behind brace).opened .enumBlock brace) := by
    rw [Step.act, Step.onKind_of_kind rfl hbrace]
  exact ⟨_, _, .cons named (.cons opened .nil), rfl⟩

/-- What is expected at a spot is admitted there. -/
theorem admits_of_expected {previous : Option Token} (stands : Standing spot place previous)
    (fit : ∀ t ∈ previous, t.span.Fits) (shallow : spot.isShallow = true)
    (hrole : role ∈ spot.expected) (spelled : Spells (role.marks name) more) (fits : Fit more) :
    Admits spot place more := by
  have single {m : Mark} (only : role.marks name = [m]) : Admits spot place more := by
    rw [only] at spelled
    obtain ⟨t, us, rfl, meets, none⟩ := Spells.cons_iff.mp spelled
    obtain rfl := Spells.nil_iff.mp none
    have ready : place.Fits (some t) := stands.fits fit (by simpa using fits.head)
    exact (Step.act_advances ready stands.constructs shallow hrole only meets).admits
  cases role with
  | enumOpener =>
    obtain rfl := Spot.start_of_enumOpener hrole
    obtain ⟨word, us, rfl, hword, spelled⟩ := Spells.cons_iff.mp spelled
    obtain ⟨brace, us, rfl, hbrace, none⟩ := Spells.cons_iff.mp spelled
    obtain rfl := Spells.nil_iff.mp none
    exact admits_enumOpener fits.head hword.1 hbrace.1
  | _ => exact single rfl

namespace ParseError

/-- The error says that the next token, or the end of input, is in place of what was expected. -/
def Expects (e : ParseError) (expected : List String) : Prop :=
  (∃ found, e.cause = .unexpectedToken expected found) ∨ e.cause = .unexpectedEnd expected

variable {expected : List String}

theorem Expects.telling (h : e.Expects expected) : e.Telling := by
  rcases h with ⟨found, cause⟩ | cause
  · exact ⟨by simp [cause], by simp [cause]⟩
  · exact ⟨by simp [cause], by simp [cause]⟩

theorem Expects.of_endError {s : Cursor} {roles : List Expected}
    (h : (s.endError roles).Expects expected) : expected = roles.map Expected.text := by
  rcases s.endError_cases roles with ⟨-, same⟩ | ⟨opener, outer, -, same⟩
  · rw [same] at h
    rcases h with ⟨found, cause⟩ | cause
    · cases cause
    · cases cause
      rfl
  · rw [same] at h
    rcases h with ⟨found, cause⟩ | cause
    · cases cause
    · cases cause

end ParseError

theorem Spot.Blames.expected_eq {next : Option Token} {expected : List String}
    (h : spot.Blames place next e) (expects : e.Expects expected) :
    expected = spot.expected.map Expected.text := by
  cases h with
  | token plain =>
    rcases expects with ⟨found, cause⟩ | cause
    · cases cause
      rfl
    · cases cause
  | ended ends => exact expects.of_endError
  | _ =>
    rcases expects with ⟨found, cause⟩ | cause
    · cases cause
    · cases cause

namespace Syntax.Block

theorem viable_of_admits (walk : Walk .start ⟨[], none⟩ us spot place)
    (admits : Admits spot place more) : Viable (us ++ more) := by
  obtain ⟨later, behind, further, shallow⟩ := admits
  have whole := walk.append further
  obtain ⟨rest, accepted⟩ := completable (whole.constructs rfl) (Spot.isShallow_iff.mp shallow)
  obtain ⟨block, read⟩ := exists_value_ofTokens?_iff.mpr ((whole.run_eq rest).trans accepted)
  exact ⟨rest, block, read⟩

theorem shallow_of_telling (telling : e.Telling) (walk : Walk .start ⟨[], none⟩ us spot place)
    (fails : (ofTokens? (us ++ more)).value = .error e) : spot.isShallow = true := by
  refine Spot.isShallow_iff.mpr fun owner same => ?_
  subst same
  obtain ⟨span, deep⟩ := run_too_deep owner place more
  have verdict := run_eq_error_iff.mpr fails
  rw [walk.run_eq, deep] at verdict
  cases verdict
  exact telling.within rfl

theorem exists_stopsAt_of_telling (fit : Fit ts) (telling : e.Telling)
    (fails : (ofTokens? ts).value = .error e) : ∃ s us spot place,
      Parse.block (.ofTokens ts) = .error e s ∧ ts = us ++ s.rest ∧
        StopsAt us s.rest e spot place := by
  obtain ⟨s, stopped⟩ := value_ofTokens?_eq_error.mp fails
  obtain ⟨us, result, follows⟩ := Parse.block_looksAhead (.ofTokens ts)
  obtain rfl := follows.runs.symm.trans stopped
  have split : ts = us ++ s.rest := follows.rest
  obtain ⟨vs, rest, spot, place, split', stops⟩ := exists_stopsAt fit (run_eq_error_iff.mpr fails)
  rcases List.append_eq_append_iff.mp (split.symm.trans split') with
    ⟨between, rfl, hrest⟩ | ⟨between, rfl, hrest⟩
  · cases between with
    | nil => exact ⟨s, us, spot, place, stopped, split, by simpa [hrest] using stops⟩
    | cons t further =>
      have walk := stops.walk
      rw [List.append_cons] at walk
      obtain ⟨later, behind, left, -⟩ := walk.exists_left
      rw [split, hrest, List.cons_append, List.append_cons] at fails
      have shallow := shallow_of_telling telling left fails
      obtain ⟨more, block, read⟩ := viable_of_admits left ⟨later, behind, .nil, shallow⟩
      have next : s.rest.head? = some t := by rw [hrest]; rfl
      have refused := error_of_follows follows next more
      rw [List.append_nil, List.append_assoc, List.singleton_append, refused] at read
      cases read
  · cases between with
    | nil =>
      rw [List.append_nil] at split
      exact ⟨s, vs, spot, place, stopped, split, by simpa [hrest] using stops⟩
    | cons t further =>
      have next : Step.act place (some t) spot = .failed e := by
        have fails := stops.fails
        rwa [hrest] at fails
      rw [split, List.append_assoc, List.cons_append] at stopped
      refine absurd stopped fun stopped => not_stopped_inside telling stopped fun later => ?_
      rw [stops.walk.run_eq, run, next]
      rfl

/-- Where an error says what was expected, each of its words names something to read, and with the
    tokens that it stands for, whatever their names, the tokens read so far can be continued to an
    accepted list. -/
theorem ofTokens?_error_expected {expected : List String} (fit : Fit ts)
    (fails : (ofTokens? ts).value = .error e) (expects : e.Expects expected) :
    ∃ s us, Parse.block (.ofTokens ts) = .error e s ∧ ts = us ++ s.rest ∧
      (∀ entry ∈ expected, ∃ role : Expected, role.text = entry) ∧
      ∀ role : Expected, role.text ∈ expected → ∀ name more, Spells (role.marks name) more →
        Fit more → Viable (us ++ more) := by
  obtain ⟨s, us, spot, place, stopped, split, stops⟩ :=
    exists_stopsAt_of_telling fit expects.telling fails
  obtain rfl := stops.blames.expected_eq expects
  refine ⟨s, us, stopped, split, fun entry he => ?_, fun role hrole name more spelled fits => ?_⟩
  · obtain ⟨role, -, same⟩ := List.mem_map.mp he
    exact ⟨role, same⟩
  · rw [List.mem_map_of_injective Expected.text_injective] at hrole
    have fitting : ∀ t ∈ us.getLast?, t.span.Fits := fun t ht =>
      fit t (split ▸ List.mem_append_left _ (List.mem_of_mem_getLast? ht))
    have shallow := shallow_of_telling expects.telling stops.walk (split ▸ fails)
    exact viable_of_admits stops.walk
      (admits_of_expected stops.standing fitting shallow hrole spelled fits)

theorem ofTokens?_error_expected_missing_comma :
    ∃ e : ParseError, e = ⟨"expected `,` or `)`, found `y`", ⟨⟨0, 9, 9, 9⟩, ⟨0, 10, 10, 10⟩⟩,
        .unexpectedToken ["`,`", "`)`"] "y", [.help "separate parameters with `,`"]⟩ ∧
      Fit (Token.ofText "\x7bf(x:Int y") ∧
      (ofTokens? (Token.ofText "\x7bf(x:Int y")).value = .error e ∧ e.Expects ["`,`", "`)`"] ∧
      ∃ s us, Parse.block (.ofTokens (Token.ofText "\x7bf(x:Int y")) = .error e s ∧
        Token.ofText "\x7bf(x:Int y" = us ++ s.rest ∧
        (∀ entry ∈ ["`,`", "`)`"], ∃ role : Expected, role.text = entry) ∧
        ∀ role : Expected, role.text ∈ ["`,`", "`)`"] → ∀ name more,
          Spells (role.marks name) more → Fit more → Viable (us ++ more) := by
  have fit : Fit (Token.ofText "\x7bf(x:Int y") := Token.fits_of_mem_ofText (by decide)
  have fails : (ofTokens? (Token.ofText "\x7bf(x:Int y")).value = .error
      ⟨"expected `,` or `)`, found `y`", ⟨⟨0, 9, 9, 9⟩, ⟨0, 10, 10, 10⟩⟩,
        .unexpectedToken ["`,`", "`)`"] "y", [.help "separate parameters with `,`"]⟩ :=
    run_eq_error_iff.mp (by decide +kernel)
  exact ⟨_, rfl, fit, fails, .inl ⟨_, rfl⟩, ofTokens?_error_expected fit fails (.inl ⟨_, rfl⟩)⟩

end Syntax.Block

end ShapeSchema
