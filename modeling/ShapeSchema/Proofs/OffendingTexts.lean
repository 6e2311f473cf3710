import ShapeSchema.Proofs.EarliestError
import ShapeSchema.Proofs.ExactSpans
import ShapeSchema.Proofs.MachineWalks
set_option autoImplicit false

namespace ShapeSchema

variable {text : String} {t u : Token} {us : List Token} {e : ParseError}

theorem Span.bytes_eq_offsets {s : Span} (h : s.Fits) : s.bytes = s.offsets :=
  bytes_eq_of_bytes? (bytes?_eq_some.mpr ⟨h, rfl⟩)

theorem Token.slice?_of_plain (ht : t ∈ ofText text) (plain : t.Plain) :
    t.span.offsets.slice? text = some t.kind.text := by
  obtain ⟨before, run, after, -, described, slice⟩ := exists_slice ht
  rw [slice]
  cases hk : t.kind with
  | name n =>
    rw [hk] at described
    rw [described.1]
    rfl
  | punctuator p =>
    rw [hk] at described
    have only : run = [p.char] := described
    rw [only]
    exact congrArg some String.singleton_eq_ofList.symm
  | endOfInput => exact absurd hk plain.1
  | invalid message notes => exact absurd hk (plain.2 message notes)

theorem slice?_endOf (h : ∀ t ∈ us, t ∈ Token.ofText text) :
    (Span.empty (Syntax.Block.endOf us)).offsets.slice? text = some "" := by
  unfold Syntax.Block.endOf
  cases hlast : us.getLast? with
  | none =>
    have cut := cut?_byteCount [] [] text.toList
    exact congrArg (Option.map String.ofList) cut
  | some t =>
    have ht := h t (List.mem_of_mem_getLast? hlast)
    have hpiece : (.token t.kind, t.span) ∈ (Token.ofText text).flatMap Token.pieces :=
      List.mem_flatMap.mpr ⟨t, ht, by simp [Token.pieces]⟩
    obtain ⟨before, run, after, split, offsets, -⟩ := Token.pieces_describe text _ hpiece
    have stop : t.span.stop.offset = byteCount (before ++ run) := by
      rw [byteCount_append]
      exact congrArg ByteSpan.stop offsets
    have cut := cut?_byteCount (before ++ run) [] after
    rw [List.nil_append, ← split] at cut
    change ByteSpan.slice? ⟨t.span.stop.offset, t.span.stop.offset⟩ text = some ""
    rw [ByteSpan.slice?, stop]
    exact congrArg (Option.map String.ofList) cut

theorem char_of_ofRun {c : Char} {rest : List Char} {p : Punctuator}
    (h : Lexeme.ofRun c rest = .token (.punctuator p)) : c = p.char := by
  rcases kind_of_ofRun h with ⟨q, hq, hc⟩ | ⟨-, starts, -⟩
  · cases hq
    exact hc
  · cases starts

theorem Excerpt.between {before after : List Char} {runs : List (List Char)} {p q : Punctuator}
    (h : Excerpt text [t, u] before runs after) (ht : t.kind = .punctuator p)
    (hu : u.kind = .punctuator q) : ∃ gap, (∀ c ∈ gap, isSeparator c = true) ∧
      runs.flatten = p.char :: (gap ++ [q.char]) := by
  obtain ⟨apart, whole⟩ := h.sites
  obtain ⟨c, rest, k, more, rfl, hk⟩ := h.first
  simp only [ShapeSchema.sites, hk, List.map_cons, List.map_nil, List.cons.injEq] at whole
  obtain ⟨first, second⟩ := whole
  obtain rfl : k = .punctuator p := (congrArg (·.mark.kind) first).symm.trans ht
  obtain ⟨seps, d, rest', k', later, rfl, hk', none⟩ := sites_eq_cons second.symm
  rw [sites_append, none, List.nil_append] at second
  simp only [ShapeSchema.sites, hk', List.cons.injEq] at second
  obtain rfl : k' = .punctuator q := (congrArg (·.mark.kind) second.1).symm.trans hu
  have chain (run : List Char) (hr : run ∈ (c :: rest) :: (seps ++ (d :: rest') :: later)) :
      run.IsChain fun a b => sameLexeme a b := (h.lexed.forall run hr).2
  have alone : rest = [] := rest_eq_nil_of_isPunctuator (chain (c :: rest) (by simp))
    (char_of_ofRun hk ▸ isPunctuator_char p)
  have alone' : rest' = [] := rest_eq_nil_of_isPunctuator (chain (d :: rest') (by simp))
    (char_of_ofRun hk' ▸ isPunctuator_char q)
  have closed : gapBehind false later = false := by
    have closed := h.closed
    simpa only [gapBehind, gapBehind_append, hk, hk'] using closed
  have empty : later.flatten = [] := by
    rcases stop_of_closed closed with ⟨-, -, empty⟩ | ⟨s, last, -⟩
    · exact empty
    · rw [← second.2] at last
      cases last
  have inside : seps <:+: (c :: rest) :: (seps ++ (d :: rest') :: later) :=
    ⟨[c :: rest], (d :: rest') :: later, by simp⟩
  refine ⟨seps.flatten, isSeparator_of_sites_eq_nil (h.lexed.restrict inside) none, ?_⟩
  simp [alone, alone', empty, char_of_ofRun hk, char_of_ofRun hk']

namespace ParseError

/-- What the span of an error covers, and what is there, for each cause. -/
def PointsInto (e : ParseError) (text : String) : Prop :=
  match e.cause with
  | .unexpectedToken _ found | .mismatchedDelimiter _ found | .missingSeparator found =>
    e.offending? text = some found
  | .unclosedDelimiter _ | .unexpectedEnd _ =>
    e.offending? text = some "" ∧
      e.span = .empty (Syntax.Block.endOf (significant (Token.ofText text)))
  | .emptyConstruct _ =>
    ∃ gap, (∀ c ∈ gap, isSeparator c = true) ∧
      e.offending? text = some (String.ofList ('(' :: (gap ++ [')'])))
  | .trailingInput =>
    ∃ us t more, Token.ofText text = us ++ t :: more ∧
      (∃ block, (Syntax.Block.ofTokens? us).value = .ok block) ∧
      (∃ brace, us.getLast? = some brace ∧ brace.kind = .punctuator .braceClose) ∧
      e.span = t.span ∧ e.offending? text = some t.kind.text
  | .invalidToken =>
    ∃ us t more, Token.ofText text = us ++ t :: more ∧ (∀ u ∈ us, u.Plain) ∧
      t.kind = .invalid e.message e.notes ∧ e.span = t.span ∧
      ∃ before run after, text.toList = before ++ run ++ after ∧
        (Lexeme.token t.kind).Describes before run after ∧
        e.offending? text = some (String.ofList run)
  | .invalidSyntax => e = .tooDeep e.span ∧ (e.offending? text).isSome = true

theorem offending?_eq (fits : e.span.Fits) :
    e.offending? text = e.span.offsets.slice? text := by
  rw [offending?, Span.bytes_eq_offsets fits]

end ParseError

section

variable {rest : List Token} {spot : Spot} {place : Place}
  (split : Token.ofText text = us ++ rest) (fit : Fit (Token.ofText text))

include split

theorem mem_ofText_of_mem_head? (ht : t ∈ rest.head?) : t ∈ Token.ofText text := by
  rw [split]
  exact List.mem_append_right us (List.mem_of_mem_head? ht)

theorem significant_eq (plain : ∀ t ∈ us, t.Plain) (ends : ∀ t ∈ rest.head?, t.kind = .endOfInput) :
    significant (Token.ofText text) = us := by
  rw [split]
  exact significant_append (fun t ht => (plain t ht).1) ends

include fit

theorem offending?_of_span (ht : t ∈ rest.head?) (span : e.span = t.span) :
    e.offending? text = t.span.offsets.slice? text := by
  have fits : e.span.Fits := span ▸ fit t (mem_ofText_of_mem_head? split ht)
  rw [ParseError.offending?_eq fits, span]

theorem offending?_of_plain (ht : t ∈ rest.head?) (plain : t.Plain) (span : e.span = t.span) :
    e.offending? text = some t.kind.text := by
  rw [offending?_of_span split fit ht span]
  exact Token.slice?_of_plain (mem_ofText_of_mem_head? split ht) plain

theorem isSome_offending?_of_span (ht : t ∈ rest.head?) (span : e.span = t.span) :
    (e.offending? text).isSome = true := by
  rw [offending?_of_span split fit ht span]
  obtain ⟨before, run, after, -, -, slice⟩ :=
    Token.exists_slice (mem_ofText_of_mem_head? split ht)
  rw [slice]
  rfl

theorem offending?_of_empty (span : e.span = .empty (Syntax.Block.endOf us)) :
    e.offending? text = some "" := by
  have inside : ∀ t ∈ us, t ∈ Token.ofText text := fun t ht =>
    split ▸ List.mem_append_left rest ht
  have fits : e.span.Fits := by
    rw [span, Syntax.Block.endOf]
    cases hlast : us.getLast? with
    | none => exact ⟨Nat.zero_le _, Nat.zero_le _⟩
    | some t =>
      have stop := (fit t (inside t (List.mem_of_mem_getLast? hlast))).2
      exact ⟨stop, stop⟩
  rw [ParseError.offending?_eq fits, span]
  exact slice?_endOf inside

end

namespace StopsAt

variable {rest : List Token} {spot : Spot} {place : Place}

theorem reached_eq (h : StopsAt us rest e spot place) (next : Option Token) :
    (place.cursor next).reached = Syntax.Block.endOf us :=
  congrArg (·.getD .start) h.standing.lastEnd

theorem exists_block (h : StopsAt us rest e .finished place) :
    ∃ block, (Syntax.Block.ofTokens? us).value = .ok block := by
  have whole := h.walk.run_eq []
  rw [List.append_nil] at whole
  exact Syntax.Block.exists_value_ofTokens?_iff.mpr whole

/-- Empty parentheses are all that stands between the end of the one before them and the start of
    the token behind. -/
theorem exists_gap {field : String} {opener : Opener} {outer : List Opener}
    (h : StopsAt us rest e (.firstParameter field) place) (ht : rest.head? = some t)
    (hk : t.kind = .punctuator .parenClose) (openers : place.openers = opener :: outer)
    (split : Token.ofText text = us ++ rest) :
    ∃ gap, (∀ c ∈ gap, isSeparator c = true) ∧
      ByteSpan.slice? ⟨opener.span.start.offset, t.span.stop.offset⟩ text =
        some (String.ofList ('(' :: (gap ++ [')']))) := by
  obtain ⟨paren, others, last, opens, same⟩ := h.standing.tells
  rw [openers, List.cons.injEq] at same
  obtain ⟨init, rfl⟩ := List.getLast?_eq_some_iff.mp last
  obtain ⟨more, rfl⟩ := List.head?_eq_some_iff.mp ht
  have plain : ∀ u ∈ init ++ [paren, t], u.kind ≠ .endOfInput := by
    intro u hu
    have whole : init ++ [paren, t] = init ++ [paren] ++ [t] := by simp
    rw [whole, List.mem_append, List.mem_singleton] at hu
    rcases hu with hu | rfl
    · exact (h.plain u hu).1
    · simp [hk]
  have tokens : init ++ [paren, t] ++ significant more = significant (Token.ofText text) := by
    have cut : Token.ofText text = init ++ [paren, t] ++ more := by simp [split]
    rw [cut]
    exact (List.takeWhile_append_of_pos (by simpa using plain)).symm
  obtain ⟨before, runs, after, excerpt, -⟩ := exists_excerpt tokens (by simp)
  obtain ⟨gap, separators, covered⟩ := excerpt.between opens hk
  refine ⟨gap, separators, ?_⟩
  have slice := excerpt.slice?
  rw [covered] at slice
  rw [same.1]
  exact slice

theorem pointsInto_endError (h : StopsAt us rest e spot place)
    (split : Token.ofText text = us ++ rest) (fit : Fit (Token.ofText text))
    (ends : ∀ t ∈ rest.head?, t.kind = .endOfInput) :
    ((place.cursor rest.head?).endError spot.expected).PointsInto text := by
  have tokens := significant_eq split h.plain ends
  have span := (ParseError.isEnd_endError (place.cursor rest.head?) spot.expected).span
  rw [h.reached_eq] at span
  have covered := offending?_of_empty split fit span
  rw [← tokens] at span
  rcases (place.cursor rest.head?).endError_cases spot.expected with
    ⟨-, same⟩ | ⟨opener, outer, -, same⟩
  · rw [same] at covered span ⊢
    exact ⟨covered, span⟩
  · rw [same] at covered span ⊢
    exact ⟨covered, span⟩

theorem pointsInto_emptyParameterList {field : String} {opener : Opener} {outer : List Opener}
    (h : StopsAt us rest e (.firstParameter field) place) (ht : rest.head? = some t)
    (hk : t.kind = .punctuator .parenClose) (openers : place.openers = opener :: outer)
    (split : Token.ofText text = us ++ rest) (fit : Fit (Token.ofText text)) :
    (ParseError.emptyParameterList ⟨opener.span.start, t.span.stop⟩).PointsInto text := by
  obtain ⟨gap, separators, slice⟩ := h.exists_gap ht hk openers split
  obtain ⟨paren, read, span, -⟩ := h.exists_opening (openers ▸ List.mem_cons_self)
  have start := fit paren (split ▸ List.mem_append_left rest read)
  have stop := fit t (mem_ofText_of_mem_head? split ht)
  have fits : (ParseError.emptyParameterList ⟨opener.span.start, t.span.stop⟩).span.Fits :=
    ⟨span ▸ start.1, stop.2⟩
  exact ⟨gap, separators, (ParseError.offending?_eq fits).trans slice⟩

theorem pointsInto_tooDeep (h : StopsAt us rest e spot place)
    (split : Token.ofText text = us ++ rest) (fit : Fit (Token.ofText text)) :
    (ParseError.tooDeep (place.cursor rest.head?).nextSpan).PointsInto text := by
  refine ⟨rfl, ?_⟩
  cases hnext : rest.head? with
  | none =>
    have span : (ParseError.tooDeep (place.cursor none).nextSpan).span =
        .empty (Syntax.Block.endOf us) := congrArg Span.empty (h.reached_eq none)
    rw [offending?_of_empty split fit span]
    rfl
  | some t =>
    have span : (ParseError.tooDeep (place.cursor (some t)).nextSpan).span = t.span := rfl
    exact isSome_offending?_of_span split fit hnext span

/-- Whatever the machine blames where it stops points at what it names. -/
theorem pointsInto (h : StopsAt us rest e spot place) (split : Token.ofText text = us ++ rest)
    (fit : Fit (Token.ofText text)) : e.PointsInto text := by
  have blames := h.blames
  generalize hnext : rest.head? = next at blames
  cases blames with
  | token plain => exact offending?_of_plain split fit hnext plain rfl
  | ended ends =>
    subst hnext
    exact h.pointsInto_endError split fit ends
  | @mismatched t p opener outer openers hk =>
    have covered : (Cursor.mismatchError opener p.text t.span).offending? text = some t.kind.text :=
      offending?_of_plain split fit hnext (Token.plain_of_punctuator hk) rfl
    rw [hk] at covered
    exact covered
  | @invalid t message notes hk =>
    obtain ⟨more, hrest⟩ := List.head?_eq_some_iff.mp hnext
    obtain ⟨before, run, after, pieces, described, slice⟩ :=
      Token.exists_slice (mem_ofText_of_mem_head? split hnext)
    have covered : (ParseError.ofInvalid message t.span notes).offending? text =
        t.span.offsets.slice? text := offending?_of_span split fit hnext rfl
    exact ⟨us, t, more, hrest ▸ split, h.plain, hk, rfl, before, run, after, pieces, described,
      covered.trans slice⟩
  | @joined t found plural hk =>
    have covered : (ParseError.missingSeparator plural found t.span).offending? text =
        some t.kind.text :=
      offending?_of_plain split fit hnext (Token.plain_of_name hk) rfl
    rw [hk] at covered
    exact covered
  | empty hspot openers hk =>
    subst hspot
    exact h.pointsInto_emptyParameterList hnext hk openers split fit
  | @trailing t hspot plain =>
    subst hspot
    obtain ⟨more, hrest⟩ := List.head?_eq_some_iff.mp hnext
    exact ⟨us, t, more, hrest ▸ split, h.exists_block, h.standing.tells, rfl,
      offending?_of_plain split fit hnext plain rfl⟩
  | deep =>
    subst hnext
    exact h.pointsInto_tooDeep split fit

end StopsAt

theorem ParseError.PointsInto.isSome (h : e.PointsInto text) :
    (e.offending? text).isSome = true := by
  unfold PointsInto at h
  split at h
  · exact Option.isSome_of_eq_some h
  · exact Option.isSome_of_eq_some h
  · exact Option.isSome_of_eq_some h
  · exact Option.isSome_of_eq_some h.1
  · exact Option.isSome_of_eq_some h.1
  · obtain ⟨gap, -, covered⟩ := h
    exact Option.isSome_of_eq_some covered
  · obtain ⟨us, t, more, -, -, -, -, covered⟩ := h
    exact Option.isSome_of_eq_some covered
  · obtain ⟨us, t, more, -, -, -, -, before, run, after, -, -, covered⟩ := h
    exact Option.isSome_of_eq_some covered
  · exact h.2

namespace Syntax.Block

/-- Every error with which a text is refused covers a part of the text, the one that it names. -/
theorem ofText?_error_points (size : text.utf8ByteSize ≤ ByteSpan.limit)
    (fails : (ofText? text).value = .error e) :
    (e.offending? text).isSome = true ∧ e.PointsInto text := by
  have fit : Fit (Token.ofText text) := Token.fits_of_mem_ofText size
  obtain ⟨us, rest, spot, place, split, stops⟩ :=
    exists_stopsAt fit (run_eq_error_iff.mpr fails)
  have points := stops.pointsInto split fit
  exact ⟨points.isSome, points⟩

/-- A byte order mark is a separator: the parentheses around it are empty, and the error covers
    five bytes. -/
theorem ofText?_error_points_empty_parentheses :
    ∃ e : ParseError, e = .emptyParameterList ⟨⟨0, 2, 2, 2⟩, ⟨0, 5, 5, 7⟩⟩ ∧
      "\x7bf(\uFEFF):Int\x7d".utf8ByteSize ≤ ByteSpan.limit ∧
      (ofText? "\x7bf(\uFEFF):Int\x7d").value = .error e ∧
      (e.offending? "\x7bf(\uFEFF):Int\x7d").isSome = true ∧
      e.PointsInto "\x7bf(\uFEFF):Int\x7d" := by
  have size : "\x7bf(\uFEFF):Int\x7d".utf8ByteSize ≤ ByteSpan.limit := by decide
  have fails : (ofText? "\x7bf(\uFEFF):Int\x7d").value =
      .error (.emptyParameterList ⟨⟨0, 2, 2, 2⟩, ⟨0, 5, 5, 7⟩⟩) :=
    run_eq_error_iff.mp (by decide +kernel)
  exact ⟨_, rfl, size, fails, ofText?_error_points size fails⟩

end Syntax.Block

end ShapeSchema
