import ShapeSchema.Proofs.TextLexemes
import ShapeSchema.Text.Span
set_option autoImplicit false

/-!
# Lexing loses nothing

The separators and tokens of a text, in the order of their spans, cover it from the first byte to the
last without gap or overlap, and each of them covers characters of the right kind, as many as there
are.
-/

namespace ShapeSchema

theorem utf8ByteSize_ofList (cs : List Char) : (String.ofList cs).utf8ByteSize = byteCount cs := by
  induction cs with
  | nil => rfl
  | cons c cs ih =>
    rw [String.ofList_cons, String.utf8ByteSize_append, String.utf8ByteSize_singleton, ih]
    simp [byteCount]

theorem byteCount_toList (text : String) : byteCount text.toList = text.utf8ByteSize := by
  rw [← utf8ByteSize_ofList, String.ofList_toList]

theorem byteCount_append (cs ds : List Char) : byteCount (cs ++ ds) = byteCount cs + byteCount ds := by
  induction cs with
  | nil => simp [byteCount]
  | cons c cs ih => rw [List.cons_append, byteCount, byteCount, ih, Nat.add_assoc]

/-- The longest run of characters of a class at some place. -/
structure MaximalRun (P : Char → Bool) (before run after : List Char) : Prop where
  nonempty : run ≠ []
  inside : ∀ c ∈ run, P c = true
  left : ∀ c ∈ before.getLast?, P c = false
  right : ∀ c ∈ after.head?, P c = false

/-- What a lexeme says about the characters `run` that it covers. -/
def Lexeme.Describes (before run after : List Char) : Lexeme → Prop
  | .separator .whitespace => MaximalRun isWhitespace before run after
  | .separator .semicolon => run = [';']
  | .token (.punctuator p) => run = [p.char]
  | .token (.name n) =>
    String.ofList run = n ∧ isValidName n = true ∧ MaximalRun isNameChar before run after
  | .token .endOfInput => run = [] ∧ after = []
  | .token (.invalid _ _) =>
    MaximalRun isNameChar before run after ∧ run.head?.any Char.isDigit = true ∨
      ∃ c, run = [c] ∧ isSeparator c = false ∧ isPunctuator c = false ∧ isNameChar c = false

theorem maximalRun_of_border {P : Char → Bool} {before rest after : List Char} {c : Char}
    (shared : ∀ {a b}, sameLexeme a b = true → P a = P b)
    (joined : ∀ {a b}, P a = true → P b = true → sameLexeme a b = true)
    (chain : (c :: rest).IsChain fun a b => sameLexeme a b) (left : Border before (c :: rest))
    (right : Border (c :: rest) after) (hc : P c = true) :
    MaximalRun P before (c :: rest) after := by
  have inside : ∀ d ∈ c :: rest, P d = true := fun d hd =>
    (eq_of_isChain shared chain d hd).trans hc
  refine ⟨List.cons_ne_nil _ _, inside, fun a ha => ?_, fun d hd => ?_⟩
  · by_contra hP
    have apart := left a ha c rfl
    rw [joined (by simpa using hP) hc] at apart
    cases apart
  · by_contra hP
    have hlast := List.getLast_mem_getLast? (List.cons_ne_nil c rest)
    have apart := right _ hlast d hd
    rw [joined (inside _ (List.mem_of_mem_getLast? hlast)) (by simpa using hP)] at apart
    cases apart

theorem describes_ofRun {before rest after : List Char} {c : Char}
    (chain : (c :: rest).IsChain fun a b => sameLexeme a b) (left : Border before (c :: rest))
    (right : Border (c :: rest) after) :
    (Lexeme.ofRun c rest).Describes before (c :: rest) after := by
  have names (hc : isNameChar c = true) : MaximalRun isNameChar before (c :: rest) after :=
    maximalRun_of_border isNameChar_of_sameLexeme
      (fun ha hb => by simp [sameLexeme, ha, hb]) chain left right hc
  unfold Lexeme.ofRun
  split
  · next hw =>
    exact maximalRun_of_border isWhitespace_of_sameLexeme
      (fun ha hb => by simp [sameLexeme, ha, hb]) chain left right hw
  · next hw =>
    have alone (hn : isNameChar c = false) : c :: rest = [c] := by
      rw [rest_eq_nil_of_isChain chain (by simpa using hw) hn]
    split
    · next hs =>
      rw [alone (by rw [hs]; decide), hs]
      rfl
    · next hs =>
      split
      · next p hp =>
        have hp := Punctuator.char_eq_of_ofChar? hp
        rw [alone (by rw [← hp]; exact not_isNameChar_char p), ← hp]
        rfl
      · next hp =>
        split
        · next hn =>
          have run := names (isNameChar_of_isNameStart hn)
          have valid : isValidName (String.ofList (c :: rest)) = true := by
            rw [isValidName, String.toList_ofList]
            simpa [hn] using fun d hd => run.inside d (List.mem_cons_of_mem _ hd)
          exact ⟨rfl, valid, run⟩
        · next hn =>
          split
          · next hc =>
            refine .inl ⟨names hc, ?_⟩
            simp only [isNameStart, isNameChar, Char.isAlphanum, Bool.or_eq_true, not_or] at hn hc
            simpa [hn.1, hn.2] using hc
          · next hc =>
            have hc : isNameChar c = false := by simpa using hc
            refine .inr ⟨c, alone hc, ?_, ?_, hc⟩
            · simpa [isSeparator, hs] using hw
            · simp [isPunctuator, hp]

namespace Token

def pieces (t : Token) : List (Lexeme × Span) :=
  t.trivia.map (fun v => (.separator v.kind, v.span)) ++ [(.token t.kind, t.span)]

theorem mem_pieces {ts : List Token} {t : Token} (ht : t ∈ ts) :
    (.token t.kind, t.span) ∈ ts.flatMap pieces :=
  List.mem_flatMap.mpr ⟨t, ht, by simp [pieces]⟩

/-- The lexemes of runs that start at `p`, each with its span, and the end of input behind them. -/
def layout (p : Position) : List (List Char) → List (Lexeme × Span)
  | [] => [(.token .endOfInput, .empty p)]
  | [] :: more => layout p more
  | (c :: rest) :: more =>
    (Lexeme.ofRun c rest, ⟨p, p.through (c :: rest)⟩) :: layout (p.through (c :: rest)) more

theorem scan_ne_nil (p : Position) (runs : List (List Char)) : scan p runs ≠ [] := by
  fun_induction scan p runs with
  | case1 => simp
  | case2 _ _ ih => exact ih
  | case3 p c rest more stop k hk ih =>
    cases h : scan stop more with
    | nil => exact absurd h ih
    | cons t ts => simp [addTrivia]
  | case4 => simp

theorem flatMap_pieces_addTrivia {ts : List Token} (h : ts ≠ []) (v : Trivia) :
    (addTrivia v ts).flatMap pieces = (.separator v.kind, v.span) :: ts.flatMap pieces := by
  cases ts with
  | nil => exact absurd rfl h
  | cons t ts => simp [addTrivia, pieces]

theorem flatMap_pieces_scan (p : Position) (runs : List (List Char)) :
    (scan p runs).flatMap pieces = layout p runs := by
  fun_induction scan p runs with
  | case1 => rfl
  | case2 _ _ ih => exact ih
  | case3 p c rest more stop k hk ih =>
    rw [flatMap_pieces_addTrivia (scan_ne_nil _ _), ih, layout, hk]
  | case4 p c rest more stop k hk ih =>
    rw [List.flatMap_cons, ih, layout, hk]
    rfl

theorem start_of_mem_head?_layout (p : Position) (runs : List (List Char)) :
    ∀ piece ∈ (layout p runs).head?, piece.2.start = p := by
  fun_induction layout p runs with
  | case1 => simp [Span.empty]
  | case2 _ _ ih => exact ih
  | case3 => simp

theorem isChain_layout (p : Position) (runs : List (List Char)) :
    (layout p runs).IsChain fun a b => b.2.start = a.2.stop := by
  fun_induction layout p runs with
  | case1 => exact .singleton _
  | case2 _ _ ih => exact ih
  | case3 p c rest more ih =>
    refine List.isChain_cons.mpr ⟨?_, ih⟩
    exact start_of_mem_head?_layout _ _

theorem layout_describes {runs : List (List Char)} {before : List Char} {p : Position}
    (lexed : Lexed runs) (border : Border before runs.flatten) (hp : p.offset = byteCount before) :
    ∀ piece ∈ layout p runs, ∃ front run after, before ++ runs.flatten = front ++ run ++ after ∧
      piece.2.offsets = ⟨byteCount front, byteCount front + byteCount run⟩ ∧
      piece.1.Describes front run after := by
  induction runs generalizing before p with
  | nil =>
    intro piece hpiece
    rw [List.mem_singleton.mp hpiece]
    exact ⟨before, [], [], by simp, by simp [Span.offsets, Span.empty, hp, byteCount], rfl, rfl⟩
  | cons run more ih =>
    have hrun : run ≠ [] := lexed.1
    have moved : (p.through run).offset = byteCount (before ++ run) := by
      rw [Position.offset_through, hp, byteCount_append]
    have later : Border (before ++ run) more.flatten :=
      (border_append_left hrun _ _).mpr lexed.2.2.1
    have tail := ih lexed.2.2.2 later moved
    rw [List.append_assoc] at tail
    rw [List.flatten_cons, border_append_right hrun] at border
    cases run with
    | nil => exact absurd rfl hrun
    | cons c rest =>
      rw [layout, List.forall_mem_cons]
      refine ⟨⟨before, c :: rest, more.flatten, ?_, ?_, ?_⟩, tail⟩
      · rw [List.flatten_cons, List.append_assoc]
      · rw [Span.offsets, moved, hp, byteCount_append]
      · exact describes_ofRun lexed.2.1 border lexed.2.2.1

theorem slice?_layout {text : String} {runs : List (List Char)} {before : List Char} {p : Position}
    (split : text.toList = before ++ runs.flatten) (nonempty : ∀ run ∈ runs, run ≠ [])
    (hp : p.offset = byteCount before) :
    (layout p runs).mapM (fun piece => piece.2.offsets.slice? text) =
      some ((runs ++ [[]]).map String.ofList) := by
  induction runs generalizing before p with
  | nil =>
    have whole := cut?_byteCount before [] []
    have here : Span.offsets (.empty p) = ⟨byteCount before, byteCount before + byteCount []⟩ := by
      simp [Span.offsets, Span.empty, hp, byteCount]
    have slice : ByteSpan.slice? (Span.offsets (.empty p)) text = some "" := by
      rw [ByteSpan.slice?, split, here, List.flatten_nil]
      exact congrArg _ whole
    simp [layout, slice]
  | cons run more ih =>
    have moved : (p.through run).offset = byteCount (before ++ run) := by
      rw [Position.offset_through, hp, byteCount_append]
    have tail := ih (by rw [split, List.flatten_cons, List.append_assoc])
      (fun r hr => nonempty r (List.mem_cons_of_mem _ hr)) moved
    have head := cut?_byteCount before run more.flatten
    cases run with
    | nil => exact absurd rfl (nonempty [] List.mem_cons_self)
    | cons c rest =>
      have here : Span.offsets ⟨p, p.through (c :: rest)⟩ =
          ⟨byteCount before, byteCount before + byteCount (c :: rest)⟩ := by
        rw [Span.offsets, moved, hp, byteCount_append]
      have slice : ByteSpan.slice? (Span.offsets ⟨p, p.through (c :: rest)⟩) text =
          some (String.ofList (c :: rest)) := by
        rw [ByteSpan.slice?, split, here, List.flatten_cons, head, Option.map_some]
      rw [layout, List.mapM_cons, slice, tail]
      rfl

theorem ofRun_ne_endOfInput (c : Char) (rest : List Char) :
    Lexeme.ofRun c rest ≠ .token .endOfInput := by
  unfold Lexeme.ofRun
  split
  · simp
  · split
    · simp
    · split
      · simp
      · split
        · simp
        · split <;> simp [Lexeme.digitLed, Lexeme.unexpectedChar]

theorem scan_eq_append (p : Position) (runs : List (List Char)) :
    ∃ init last, scan p runs = init ++ [last] ∧ last.kind = .endOfInput ∧
      last.span.offsets = ⟨p.offset + byteCount runs.flatten, p.offset + byteCount runs.flatten⟩ ∧
      ∀ t ∈ init, t.kind ≠ .endOfInput := by
  fun_induction scan p runs with
  | case1 p => exact ⟨[], _, rfl, rfl, rfl, by simp⟩
  | case2 _ _ ih => exact ih
  | case3 p c rest more stop k hk ih =>
    obtain ⟨init, last, same, isLast, hspan, others⟩ := ih
    rw [show stop.offset = p.offset + byteCount (c :: rest) from Position.offset_through p _,
      Nat.add_assoc, ← byteCount_append] at hspan
    rw [same]
    cases init with
    | nil => exact ⟨[], _, rfl, isLast, hspan, by simp⟩
    | cons t init =>
      refine ⟨{ t with trivia := ⟨k, ⟨p, stop⟩⟩ :: t.trivia } :: init, last, rfl, isLast, hspan, ?_⟩
      exact List.forall_mem_cons.mpr (List.forall_mem_cons.mp others)
  | case4 p c rest more stop k hk ih =>
    obtain ⟨init, last, same, isLast, hspan, others⟩ := ih
    rw [show stop.offset = p.offset + byteCount (c :: rest) from Position.offset_through p _,
      Nat.add_assoc, ← byteCount_append] at hspan
    have hne : k ≠ .endOfInput := by
      intro h
      exact ofRun_ne_endOfInput c rest (by rw [hk, h])
    exact ⟨_ :: init, last, by rw [same]; rfl, isLast, hspan, List.forall_mem_cons.mpr ⟨hne, others⟩⟩

theorem pieces_ofText (text : String) :
    (ofText text).flatMap pieces = layout .start (lexemes text.toList) :=
  flatMap_pieces_scan _ _

theorem pieces_describe (text : String) : ∀ piece ∈ (ofText text).flatMap pieces,
    ∃ before run after, text.toList = before ++ run ++ after ∧
      piece.2.offsets = ⟨byteCount before, byteCount before + byteCount run⟩ ∧
      piece.1.Describes before run after := by
  have described := layout_describes (p := .start) (lexed_lexemes text.toList)
    (border_nil_left _) rfl
  rw [List.nil_append, flatten_lexemes] at described
  rw [pieces_ofText]
  exact described

theorem fits_of_mem_ofText {text : String} (size : text.utf8ByteSize ≤ ByteSpan.limit) :
    ∀ t ∈ ofText text, t.span.Fits := by
  intro t ht
  obtain ⟨before, run, after, split, offsets, -⟩ := pieces_describe text _ (mem_pieces ht)
  have total := byteCount_toList text
  rw [split, byteCount_append, byteCount_append] at total
  have hstart := congrArg ByteSpan.start offsets
  have hstop := congrArg ByteSpan.stop offsets
  simp only [Span.offsets] at hstart hstop
  constructor <;> omega

/-- The tokens and separators of a text are the text, cut into maximal pieces. -/
structure Lossless (text : String) (ts : List Token) : Prop where
  /-- One end of input, in last place and empty. -/
  ends : ∃ init last, ts = init ++ [last] ∧ last.kind = .endOfInput ∧
    last.span.offsets = ⟨text.utf8ByteSize, text.utf8ByteSize⟩ ∧ ∀ t ∈ init, t.kind ≠ .endOfInput
  starts : ∀ piece ∈ (ts.flatMap pieces).head?, piece.2.start = .start
  /-- Each piece starts where the one before it stops. -/
  gapless : (ts.flatMap pieces).IsChain fun a b => b.2.start = a.2.stop
  /-- Each piece lies between characters and covers what its lexeme describes. -/
  describes : ∀ piece ∈ ts.flatMap pieces, ∃ before run after,
    text.toList = before ++ run ++ after ∧
      piece.2.offsets = ⟨byteCount before, byteCount before + byteCount run⟩ ∧
      piece.1.Describes before run after
  whole : ∃ slices, (ts.flatMap pieces).mapM (fun piece => piece.2.offsets.slice? text) =
    some slices ∧ String.join slices = text

theorem ofText_lossless (text : String) : Lossless text (ofText text) := by
  have lexed := lexed_lexemes text.toList
  have same := flatten_lexemes text.toList
  refine ⟨?_, ?_, ?_, pieces_describe text, ?_⟩
  · have ends := scan_eq_append .start (lexemes text.toList)
    rw [same, byteCount_toList, show Position.start.offset = 0 from rfl, Nat.zero_add] at ends
    exact ends
  · rw [pieces_ofText]
    exact start_of_mem_head?_layout _ _
  · rw [pieces_ofText]
    exact isChain_layout _ _
  · have split : text.toList = [] ++ (lexemes text.toList).flatten := same.symm
    have slices := slice?_layout (p := .start) split (fun run hr => (lexed.forall run hr).1) rfl
    rw [pieces_ofText]
    refine ⟨_, slices, ?_⟩
    rw [← String.toList_inj, String.toList_join, List.flatMap_map]
    simpa [List.flatMap_def] using same

end Token

end ShapeSchema
