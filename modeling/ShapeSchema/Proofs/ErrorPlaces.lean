import ShapeSchema.Proofs.OffendingTexts
import ShapeSchema.Proofs.SourceLines
set_option autoImplicit false

namespace ShapeSchema

variable {text : String} {t : Token} {us rest : List Token} {e : ParseError} {spot : Spot}
  {place : Place}

/-- The position is that of a cut of the text. -/
def Position.In (p : Position) (text : String) : Prop :=
  ∃ before after, Cut text before after ∧ p = .behind before

theorem Position.start_in (text : String) : start.In text :=
  ⟨[], text.toList, ⟨rfl, by simp [Parted]⟩, through_start []⟩

theorem Position.In.offset_le {p : Position} (h : p.In text) : p.offset ≤ text.utf8ByteSize := by
  obtain ⟨before, after, cut, rfl⟩ := h
  rw [← byteCount_toList, cut.split, byteCount_append]
  exact Nat.le_add_right _ _

structure Span.In (s : Span) (text : String) : Prop where
  start : s.start.In text
  stop : s.stop.In text

theorem Token.span_in (ht : t ∈ ofText text) : t.span.In text := by
  have hpiece : (.token t.kind, t.span) ∈ layout .start (lexemes text.toList) := by
    rw [← pieces_ofText]
    exact mem_pieces ht
  obtain ⟨front, run, after, split, same, left, right⟩ := layout_behind (lexed_lexemes text.toList)
    (border_nil_left _) (Position.through_start []) _ hpiece
  rw [List.nil_append, flatten_lexemes] at split
  have same : t.span = ⟨.behind front, .behind (front ++ run)⟩ := same
  rw [same]
  exact ⟨⟨front, run ++ after, ⟨by rw [split, List.append_assoc], left.whole⟩, rfl⟩,
    front ++ run, after, ⟨split, right.whole⟩, rfl⟩

theorem Lexeme.spanless_of_ofRun {c : Char} {cs : List Char} {message : String} {notes : List Note}
    (h : ofRun c cs = .token (.invalid message notes)) : ∀ note ∈ notes, note.span = none := by
  unfold ofRun at h
  split at h
  · cases h
  · split at h
    · cases h
    · split at h
      · cases h
      · split at h
        · cases h
        · split at h
          · cases h
            simp [Note.help]
          · cases h
            unfold adviceFor
            split_ifs <;> simp [Note.general]

theorem Token.spanless_of_invalid {message : String} {notes : List Note} (ht : t ∈ ofText text)
    (hk : t.kind = .invalid message notes) : ∀ note ∈ notes, note.span = none := by
  obtain ⟨last, whole, ends⟩ := ofText_eq_append text
  have inside : t ∈ significant (ofText text) := by
    rw [whole, List.mem_append, List.mem_singleton] at ht
    refine ht.resolve_right ?_
    rintro rfl
    rw [ends] at hk
    cases hk
  have marked := List.mem_map_of_mem (f := mark) inside
  rw [map_mark_significant] at marked
  obtain ⟨cell, hcell, same⟩ := List.mem_map.mp marked
  obtain ⟨c, cs, -, means⟩ := (sound_cellsOf text cell hcell).means
  rw [same, mark, hk] at means
  exact Lexeme.spanless_of_ofRun means

theorem prefix_of_byteCount_le {before after before' after' : List Char}
    (split : before ++ after = before' ++ after') (h : byteCount before ≤ byteCount before') :
    ∃ run, before' = before ++ run ∧ after = run ++ after' := by
  rcases List.append_eq_append_iff.mp split with longer | ⟨run, rfl, rfl⟩
  · exact longer
  · -- the other way round, what is too much takes no bytes
    cases run with
    | nil => exact ⟨[], by simp, by simp⟩
    | cons c run =>
      have size := c.utf8Size_pos
      rw [byteCount_append, byteCount] at h
      omega

theorem ByteSpan.start_le_of_slice? {s : ByteSpan} {slice : String}
    (h : s.slice? text = some slice) : s.start ≤ s.stop := by
  by_contra reversed
  simp [slice?, cut?, length?, reversed] at h

theorem Span.In.exists_run {s : Span} {slice : String} (h : s.In text)
    (covered : s.offsets.slice? text = some slice) :
    ∃ before after, Cut text before (slice.toList ++ after) ∧
      s = ⟨.behind before, .behind (before ++ slice.toList)⟩ := by
  obtain ⟨before, later, cut, first⟩ := h.start
  obtain ⟨before', after, cut', last⟩ := h.stop
  obtain rfl : s = ⟨.behind before, .behind before'⟩ := by rw [← first, ← last]
  have order : byteCount before ≤ byteCount before' := ByteSpan.start_le_of_slice? covered
  obtain ⟨run, rfl, rfl⟩ := prefix_of_byteCount_le (cut.split.symm.trans cut'.split) order
  have known : Span.offsets ⟨.behind before, .behind (before ++ run)⟩ =
      ⟨byteCount before, byteCount before + byteCount run⟩ := by
    rw [← byteCount_append]
    rfl
  rw [known, ByteSpan.slice?, cut.split, cut?_byteCount] at covered
  obtain rfl : String.ofList run = slice := Option.some.inj covered
  rw [String.toList_ofList]
  exact ⟨before, after, cut, rfl⟩

theorem Token.exists_char {p : Punctuator} (ht : t ∈ ofText text) (hk : t.kind = .punctuator p) :
    ∃ before after, Cut text before (p.char :: after) ∧
      t.span = ⟨.behind before, .behind (before ++ [p.char])⟩ ∧
        t.span.offsets.slice? text = some (String.ofList [p.char]) := by
  have slice : t.span.offsets.slice? text = some (String.ofList [p.char]) := by
    rw [slice?_of_plain ht (plain_of_punctuator hk), hk]
    exact congrArg some String.singleton_eq_ofList
  obtain ⟨before, after, cut, span⟩ := (span_in ht).exists_run slice
  rw [String.toList_ofList] at cut span
  exact ⟨before, after, cut, span, slice⟩

theorem ParseError.PointsAt.span_in {reached : Position} {next : Option Token}
    (h : e.PointsAt reached next) (ends : reached.In text) (follows : ∀ t ∈ next, t.span.In text) :
    e.span.In text := by
  have atEnd (isEnd : e.IsEnd reached) : e.span.In text := isEnd.span ▸ ⟨ends, ends⟩
  cases next with
  | none => exact atEnd h
  | some t =>
    unfold PointsAt at h
    dsimp only at h
    split at h
    · exact atEnd h
    · exact h ▸ follows t rfl

structure Place.In (place : Place) (text : String) : Prop where
  openers : ∀ opener ∈ place.openers, opener.span.In text
  lastEnd : ∀ p ∈ place.lastEnd, p.In text

namespace Place.In

variable {next : Option Token}

theorem start : (⟨[], none⟩ : Place).In text := ⟨by simp, by simp⟩

theorem behind (h : place.In text) (ht : t.span.In text) : (place.behind t).In text :=
  ⟨h.openers, by simpa [Place.behind] using ht.stop⟩

theorem opened (h : place.In text) (ht : t.span.In text) (c : Construct) :
    (place.opened c t).In text :=
  ⟨List.forall_mem_cons.mpr ⟨ht, h.openers⟩, h.lastEnd⟩

theorem closed (h : place.In text) {opener : Opener} {outer : List Opener}
    (openers : place.openers = opener :: outer) : Place.In { place with openers := outer } text :=
  ⟨fun o ho => h.openers o (openers ▸ List.mem_cons_of_mem opener ho), h.lastEnd⟩

variable (h : place.In text) (follows : ∀ t ∈ next, t.span.In text)

include h

theorem reached : (place.cursor next).reached.In text := by
  unfold Cursor.reached
  cases hl : (place.cursor next).lastEnd with
  | none => exact Position.start_in text
  | some p => exact h.lastEnd p hl

include follows

theorem nextSpan : (place.cursor next).nextSpan.In text := by
  cases next with
  | none => exact ⟨h.reached, h.reached⟩
  | some t => exact follows t rfl

theorem unexpected (expected : List Expected) :
    ((place.cursor next).unexpected expected).span.In text := by
  have points := ParseError.pointsAt_unexpected (place.cursor next) expected
  have ahead : (place.cursor next).rest.head? = next := by cases next <;> rfl
  rw [ahead] at points
  exact points.span_in h.reached follows

end Place.In

namespace Step

def In (text : String) : Step → Prop
  | .moved _ place => place.In text
  | .stopped (.ok _) => True
  | .stopped (.error e) => e.span.In text

variable {next : Option Token} {step no : Step} {span : Span}

theorem fitting_in (hs : span.In text) (h : step.In text) : (fitting span step).In text := by
  unfold fitting
  split
  · exact h
  · exact hs

theorem entered_in {later : Spot} {behind : Place} (ht : t.span.In text) (h : behind.In text) :
    (entered t later behind).In text :=
  fitting_in ht h

theorem onKind_in {kind : Token.Kind} {yes : Token → Place → Step}
    (follows : ∀ t ∈ next, t.span.In text)
    (hyes : ∀ t, t.span.In text → (yes t (place.behind t)).In text) (hno : no.In text) :
    (onKind kind place next yes no).In text := by
  unfold onKind
  split
  · exact hno
  · split
    · exact hyes _ (follows _ rfl)
    · exact hno

theorem onName_in {yes : String → Token → Place → Step}
    (follows : ∀ t ∈ next, t.span.In text)
    (hyes : ∀ name t, t.span.In text → (yes name t (place.behind t)).In text)
    (hno : no.In text) : (onName place next yes no).In text := by
  unfold onName
  split
  · exact hno
  · split
    · exact hyes _ _ (follows _ rfl)
    · exact hno

section

variable (hp : place.In text) (follows : ∀ t ∈ next, t.span.In text)

include hp

theorem reaching_in (h : step.In text) : (reaching place step).In text := by
  unfold reaching
  split
  · exact h
  · next p hl => exact fitting_in ⟨hp.lastEnd p hl, hp.lastEnd p hl⟩ h

include follows

theorem refused_in (expected : List Expected) : (refused place next expected).In text :=
  hp.unexpected follows expected

theorem named_in (role : Expected) (later : String → Spot) :
    (named place next role later).In text :=
  onName_in follows (fun _ _ ht => entered_in ht (hp.behind ht)) (refused_in hp follows _)

theorem closed_in {yes : Place → Step} (hyes : ∀ behind : Place, behind.In text →
    (yes behind).In text) : (closed place next yes).In text := by
  unfold closed
  split
  · exact hp.nextSpan follows
  · next opener outer openers =>
    refine onKind_in follows (fun t ht => hyes _ ?_) (refused_in hp follows _)
    exact (hp.behind ht).closed openers

theorem colon_in (name : String) (later : Spot) : (colon place next name later).In text := by
  refine onKind_in follows (fun t ht => hp.behind ht) ?_
  unfold Parse.colonError
  dsimp only
  split <;> exact hp.unexpected follows _

theorem declaration_in (role : Expected) (plural : String) (first : Bool) (later : String → Spot) :
    (declaration place next role plural first later).In text := by
  refine onKind_in follows (fun t ht => ?_)
    (onName_in follows (fun name t ht => ?_) (refused_in hp follows _))
  · exact closed_in hp follows fun behind hb => reaching_in hb hb
  · split
    · exact entered_in ht (hp.behind ht)
    · exact ht

theorem type_in (owner : Owner) (levels : Nat) : (type place next owner levels).In text := by
  unfold type
  split
  · exact hp.nextSpan follows
  · exact onKind_in follows (fun t ht => entered_in ht ((hp.behind ht).opened ht _))
      (named_in hp follows _ _)

theorem behindType_in (owner : Owner) (levels : Nat) :
    (behindType place next owner levels).In text := by
  cases levels with
  | succ levels => exact closed_in hp follows fun behind hb => hb
  | zero =>
    cases owner with
    | field => exact declaration_in hp follows _ _ _ _
    | parameter field =>
      refine onKind_in follows (fun t ht => hp.behind ht)
        (onKind_in follows (fun t ht => closed_in hp follows fun behind hb => hb) ?_)
      unfold Parse.parameterListError
      dsimp only
      split <;> exact hp.unexpected follows _

theorem firstParameter_in (field : String) : (firstParameter place next field).In text := by
  refine onKind_in follows (fun t ht => ?_) (named_in hp follows _ _)
  split
  · exact ht
  · next opener outer openers =>
    have opened : opener.span.In text := hp.openers opener (openers ▸ List.mem_cons_self)
    exact ⟨opened.start, ht.stop⟩

theorem act_in (spot : Spot) : (act place next spot).In text := by
  cases spot with
  | start =>
    rw [act, start]
    exact onKind_in follows (fun t ht => entered_in ht ((hp.behind ht).opened ht _))
      (onKind_in follows (fun t ht => entered_in ht (hp.behind ht)) (refused_in hp follows _))
  | enumBrace =>
    rw [act]
    exact onKind_in follows (fun t ht => (hp.behind ht).opened ht _) (refused_in hp follows _)
  | firstField => exact declaration_in hp follows _ _ _ _
  | firstValue => exact declaration_in hp follows _ _ _ _
  | laterValue => exact declaration_in hp follows _ _ _ _
  | fieldHead field =>
    rw [act]
    exact onKind_in follows (fun t ht => (hp.behind ht).opened ht _) (colon_in hp follows _ _)
  | firstParameter field => exact firstParameter_in hp follows field
  | laterParameter field => exact named_in hp follows _ _
  | parameterColon field parameter => exact colon_in hp follows _ _
  | fieldColon field => exact colon_in hp follows _ _
  | type owner levels => exact type_in hp follows owner levels
  | typeEnd owner levels =>
    rw [act, typeEnd]
    exact onKind_in follows (fun t ht => entered_in ht (hp.behind ht))
      (reaching_in hp (behindType_in hp follows owner levels))
  | behindType owner levels => exact behindType_in hp follows owner levels
  | finished =>
    rw [act]
    unfold finished
    split
    · trivial
    · split
      · trivial
      · exact follows _ rfl
      · exact follows _ rfl

end

end Step

/-- Every error of the machine is in the text that its tokens come from, however long that is. -/
theorem run_error_in {ts : List Token} (hp : place.In text) (inside : ∀ t ∈ ts, t.span.In text)
    (fails : run spot place ts = .error e) : e.span.In text := by
  induction ts generalizing spot place with
  | nil =>
    have step : (Step.act place none spot).In text := Step.act_in hp (by simp) spot
    obtain ⟨verdict, stops⟩ := @Step.act_none_stops place spot
    simp only [run, stops] at fails
    rw [stops, fails] at step
    exact step
  | cons t ts ih =>
    rw [List.forall_mem_cons] at inside
    have step : (Step.act place (some t) spot).In text :=
      Step.act_in hp (by simpa using inside.1) spot
    cases hstep : Step.act place (some t) spot with
    | stopped verdict =>
      simp only [run, hstep] at fails
      rw [hstep, fails] at step
      exact step
    | moved later behind =>
      simp only [run, hstep] at fails
      rw [hstep] at step
      exact ih step inside.2 fails

theorem Syntax.Block.ofText?_error_in (fails : (ofText? text).value = .error e) : e.span.In text :=
  run_error_in .start (fun _ ht => Token.span_in ht) (run_eq_error_iff.mpr fails)

namespace StopsAt

theorem notes_cite (h : StopsAt us rest e spot place) (split : Token.ofText text = us ++ rest) :
    ∀ note ∈ e.notes, ∀ s ∈ note.span, ∃ t ∈ Token.ofText text, t.span = s ∧
      ∃ p, t.kind = .punctuator p := by
  have opener {o : Opener} (ho : o ∈ place.openers) : ∃ t ∈ Token.ofText text,
      t.span = o.span ∧ ∃ p, t.kind = .punctuator p := by
    obtain ⟨t, read, span, hk⟩ := h.exists_opening ho
    exact ⟨t, split ▸ List.mem_append_left rest read, span, _, hk⟩
  have silent {notes : List Note} (spanless : ∀ note ∈ notes, note.span = none) :
      ∀ note ∈ notes, ∀ s ∈ note.span, ∃ t ∈ Token.ofText text, t.span = s ∧
        ∃ p, t.kind = .punctuator p := by
    intro note hnote s hs
    rw [spanless note hnote] at hs
    cases hs
  have blames := h.blames
  generalize hnext : rest.head? = first at blames
  cases blames with
  | token _ spanless => exact silent spanless
  | ended =>
    rcases (place.cursor first).endError_cases spot.expected with
      ⟨-, same⟩ | ⟨o, outer, openers, same⟩
    · rw [same]
      exact silent (List.forall_mem_nil _)
    · have openers : place.openers = o :: outer := openers
      rw [same]
      simpa [Note.generalAt] using opener (openers ▸ List.mem_cons_self)
  | mismatched openers =>
    simpa [Cursor.mismatchError, Note.generalAt] using opener (openers ▸ List.mem_cons_self)
  | invalid hk =>
    exact silent (Token.spanless_of_invalid (mem_ofText_of_mem_head? split hnext) hk)
  | joined => exact silent (List.forall_mem_singleton.mpr rfl)
  | empty => exact silent (List.forall_mem_singleton.mpr rfl)
  | trailing => exact silent (List.forall_mem_singleton.mpr rfl)
  | deep => exact silent (List.forall_mem_nil _)

end StopsAt

end ShapeSchema
