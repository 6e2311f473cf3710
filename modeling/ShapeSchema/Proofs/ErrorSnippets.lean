import ShapeSchema.Diagnostic.Render
import ShapeSchema.Proofs.ErrorPlaces
set_option autoImplicit false

namespace ShapeSchema

open ParseError

variable {text : String} {e : ParseError} {line : List Char}

def EndsRow (cs : List Char) : Prop := ∀ c ∈ cs.getLast?, c = '\n'

/-- Two rows of the output. The first one is the line behind a margin; below it, behind a margin of
    the same width, the marks begin `column` characters to the right. -/
def ShowsMarked (output line : List Char) (column : Nat) (marks : List Char) : Prop :=
  ∃ above margin blank below,
    output = above ++ (margin ++ line ++ ['\n']) ++ (blank ++ spaces column ++ marks ++ ['\n']) ++
      below ∧
    EndsRow above ∧ '\n' ∉ margin ∧ (∀ c ∈ blank, c = ' ' ∨ c = '|') ∧
    margin.length = blank.length

/-- The carets below characters: one for each if they are in one line, and one at least. -/
def caretsBelow (off : List Char) : List Char :=
  List.replicate (if off.any isLineEnd then 1 else max 1 off.length) '^'

/-- The line is a piece of the text, and the place is in it or at its end. -/
def HoldsPlace (text : String) (line : List Char) (offset : Nat) : Prop :=
  ∃ front left right back, text.toList = front ++ (left ++ right) ++ back ∧ line = left ++ right ∧
    offset = byteCount (front ++ left)

namespace ParseError

def printedLine? (e : ParseError) (text : String) : Option (List Char) :=
  (Text.lines text.toList)[e.span.start.line]?

/-- The printed error shows what is wrong where it is. At the end of a text that is empty or ends in
    a line feed there is no line to show. -/
structure Shown (e : ParseError) (text : String) : Prop where
  error : (text = "" ∨ text.toList.getLast? = some '\n') ∧
      e.span.start.offset = text.utf8ByteSize ∨
    ∃ left right off, HasLineAt text e.span.start.offset left right ∧
      e.offending? text = some (String.ofList off) ∧
      (off.any isLineEnd = false → off <+: right) ∧
      ShowsMarked (e.detailed (some text)).toList (left ++ right) left.length (caretsBelow off)
  notes : ∀ note ∈ e.notes, ∀ s ∈ note.span, ∃ left c right rest,
    HasLineAt text s.start.offset left (c :: right) ∧
      s.bytes.slice? text = some (String.ofList (c :: rest)) ∧
      ShowsMarked (e.detailed (some text)).toList (left ++ c :: right) left.length ['-']

end ParseError

theorem endsRow_append (front : List Char) {back : List Char} (h : back.getLast? = some '\n') :
    EndsRow (front ++ back) := by
  rw [EndsRow, List.getLast?_append, h]
  simp

theorem ShowsMarked.within {output marks : List Char} {column : Nat}
    (h : ShowsMarked output line column marks) {front : List Char}
    (ends : EndsRow front) (back : List Char) :
    ShowsMarked (front ++ output ++ back) line column marks := by
  obtain ⟨above, margin, blank, below, rfl, hrows⟩ := h
  refine ⟨front ++ above, margin, blank, below ++ back, by simp, fun c hc => ?_, hrows.2⟩
  rw [List.getLast?_append, Option.mem_def, Option.or_eq_some_iff] at hc
  exact hc.elim (hrows.1 c) fun h => ends c h.2

theorem length_padLeft {width : Nat} {s : List Char} (h : s.length ≤ width) :
    (padLeft width s).length = width := by
  rw [padLeft, List.length_append, spaces, List.length_replicate]
  omega

/-- A numbered line and a row of marks below it, both indented alike. -/
theorem showsMarked_rows (indent number : Nat) (line : List Char) (column : Nat)
    (marks : List Char) :
    ShowsMarked (spaces indent ++ numberedLine number line ++
      (spaces indent ++ markRow number column marks)) line column marks := by
  have blank {n : Nat} {c : Char} (hc : c ∈ spaces n) : c = ' ' := List.eq_of_mem_replicate hc
  have bar : " | ".toList = [' ', '|', ' '] := by decide
  refine ⟨[], spaces indent ++ (padLeft (gutter number) (Nat.toDigits 10 (number + 1)) ++
      " | ".toList), spaces indent ++ (spaces (gutter number) ++ " | ".toList), [],
    by simp [numberedLine, markRow], by simp [EndsRow], ?_, ?_, ?_⟩
  · intro feed
    simp only [padLeft, List.mem_append] at feed
    rcases feed with feed | (feed | feed) | feed
    · exact absurd (blank feed) (by decide)
    · exact absurd (blank feed) (by decide)
    · exact absurd (Nat.isDigit_of_mem_toDigits (by decide) (by decide) feed) (by decide)
    · exact absurd feed (by decide)
  · intro c hc
    rw [List.mem_append, List.mem_append] at hc
    rcases hc with hc | hc | hc
    · exact .inl (blank hc)
    · exact .inl (blank hc)
    · simp only [bar, List.mem_cons, List.not_mem_nil, or_false] at hc
      rcases hc with rfl | rfl | rfl <;> decide
  · have fits : (Nat.toDigits 10 (number + 1)).length ≤ gutter number := Nat.le_max_right 2 _
    simp [length_padLeft fits, spaces]

namespace ParseError

theorem toList_detailed (e : ParseError) (text : String) :
    (e.detailed (some text)).toList = s!"error: {e.message}\n".toList ++
      ("  --> ".toList ++ e.place.toList ++ ['\n']) ++ (snippet? text e.span).getD [] ++
        e.notes.flatMap (renderNote (some text)) :=
  String.toList_ofList

theorem showsMarked_error (h : e.printedLine? text = some line) :
    ShowsMarked (e.detailed (some text)).toList line e.span.start.column
      (List.replicate (caretCount e.span) '^') := by
  have rows := showsMarked_rows 0 e.span.start.line line e.span.start.column
    (List.replicate (caretCount e.span) '^')
  have printed : snippet? text e.span = _ := congrArg (Option.map _) h
  rw [toList_detailed, printed]
  have above : EndsRow (s!"error: {e.message}\n".toList ++
      ("  --> ".toList ++ e.place.toList ++ ['\n']) ++ spaces (gutter e.span.start.line) ++
        " |\n".toList) := endsRow_append _ (by decide)
  simpa [spaces] using rows.within above (e.notes.flatMap (renderNote (some text)))

theorem showsMarked_note {note : Note} {s : Span} (hnote : note ∈ e.notes) (hs : note.span = some s)
    (h : (Text.lines text.toList)[s.start.line]? = some line) :
    ShowsMarked (e.detailed (some text)).toList line s.start.column ['-'] := by
  obtain ⟨before, after, split⟩ := List.append_of_mem hnote
  have rows := showsMarked_rows 5 s.start.line line s.start.column ['-']
  have printed : noteSnippet? text s = _ := congrArg (Option.map _) h
  have rendered : renderNote (some text) note = s!"   = {note.kind.label}: {note.message}".toList ++
      "\n".toList ++ (noteSnippet? text s).getD [] := by
    rw [renderNote, hs, ← String.toList_append]
    rfl
  rw [toList_detailed, split, List.flatMap_append, List.flatMap_cons, rendered, printed]
  have above : EndsRow (s!"error: {e.message}\n".toList ++
      ("  --> ".toList ++ e.place.toList ++ ['\n']) ++ (snippet? text e.span).getD [] ++
        before.flatMap (renderNote (some text)) ++
          s!"   = {note.kind.label}: {note.message}".toList ++ "\n".toList) :=
    endsRow_append _ (by decide)
  simpa using rows.within above (after.flatMap (renderNote (some text)))

end ParseError

theorem replicate_caretCount {before off after : List Char} (cut : Cut text before (off ++ after)) :
    List.replicate (caretCount ⟨.behind before, .behind (before ++ off)⟩) '^' = caretsBelow off := by
  have whole : ¬ Parted before off := by
    rintro ⟨ret, feed⟩
    exact cut.whole ⟨ret, by rw [List.head?_append, feed]; rfl⟩
  have moved : Position.behind (before ++ off) = (Position.behind before).through off := by
    rw [← Position.through_start, ← Position.through_start, Position.through_append _ _ _ whole]
  have line : (Position.behind (before ++ off)).line = (Position.behind before).line ↔
      off.any isLineEnd = false := by
    rw [moved, Position.through_eq, ← lineBreaks_eq_zero_iff]
    exact Nat.add_eq_left
  rw [caretsBelow, caretCount]
  cases broken : off.any isLineEnd with
  | true => rw [if_neg (by simp [line, broken]), if_pos rfl]
  | false =>
    have column : (Position.behind (before ++ off)).column =
        (Position.behind before).column + off.length := by
      rw [moved, Position.through_eq, broken, lastLine_of_unbroken broken]
      rfl
    rw [if_pos (line.mpr broken), if_neg Bool.false_ne_true, column, Nat.add_sub_cancel_left]

theorem ParseError.exists_offending (inside : e.span.In text)
    (size : text.utf8ByteSize ≤ ByteSpan.limit) (quotes : (e.offending? text).isSome = true) :
    ∃ before off after, Cut text before (off ++ after) ∧
      e.span = ⟨.behind before, .behind (before ++ off)⟩ ∧
        e.offending? text = some (String.ofList off) := by
  obtain ⟨slice, covered⟩ := Option.isSome_iff_exists.mp quotes
  have fits : e.span.Fits :=
    ⟨inside.start.offset_le.trans size, inside.stop.offset_le.trans size⟩
  rw [offending?_eq fits] at covered
  obtain ⟨before, after, cut, same⟩ := inside.exists_run covered
  refine ⟨before, slice.toList, after, cut, same, ?_⟩
  rw [offending?_eq fits, covered, String.ofList_toList]

/-- For the line that is printed to be where the error starts, no more is needed than that the
    carriage returns before it have their line feeds. -/
theorem ParseError.holdsPlace (inside : e.span.start.In text)
    (printed : e.printedLine? text = some line)
    (paired : ∀ before, takeBytes? e.span.start.offset text.toList = some before →
      returnsPaired before = true) : HoldsPlace text line e.span.start.offset := by
  obtain ⟨before, after, cut, start⟩ := inside
  have cuts : takeBytes? e.span.start.offset text.toList = some before := by
    rw [start, cut.split]
    exact takeBytes?_byteCount before _
  have listed := Text.getElem?_lines (paired before cuts) after
  rw [← cut.split] at listed
  rw [printedLine?, start] at printed
  rw [start]
  obtain ⟨front, left, -⟩ := exists_front before
  obtain ⟨back, first⟩ := Text.firstLine_prefix after
  refine ⟨front, lastLine before, firstLine after, back, ?_, ?_, by rw [left]; rfl⟩
  · rw [← List.append_assoc, left, List.append_assoc, first, cut.split]
  · have same := listed.symm.trans printed
    split at same
    · cases same
    · exact (Option.some.inj same).symm

theorem StopsAt.shown {us rest : List Token} {spot : Spot} {place : Place}
    (h : StopsAt us rest e spot place) (split : Token.ofText text = us ++ rest)
    (size : text.utf8ByteSize ≤ ByteSpan.limit) (inside : e.span.In text)
    (paired : returnsPaired text.toList = true) : e.Shown text where
  error := by
    obtain ⟨before, off, after, cut, span, covered⟩ := exists_offending inside size
      (h.pointsInto split (Token.fits_of_mem_ofText size)).isSome
    have line : e.printedLine? text = (Text.lines text.toList)[lineBreaks before]? := by
      rw [ParseError.printedLine?, span]
      rfl
    rw [cut.getElem?_lines paired] at line
    by_cases nothing : lastLine before = [] ∧ off ++ after = []
    · rw [span]
      exact .inl (cut.ends paired nothing)
    · rw [if_neg nothing] at line
      have rows := showsMarked_error line
      rw [span, replicate_caretCount cut] at rows
      rw [span]
      refine .inr ⟨_, _, off, cut.hasLineAt, covered, fun unbroken => ?_, rows⟩
      rw [restOfLine_append unbroken]
      exact List.prefix_append off _
  notes := by
    intro note hnote s hs
    obtain ⟨t, ht, rfl, p, hk⟩ := h.notes_cite split note hnote s hs
    obtain ⟨before, after, cut, span, covered⟩ := Token.exists_char ht hk
    rw [← Span.bytes_eq_offsets (Token.fits_of_mem_ofText size t ht)] at covered
    have unbroken : [p.char].any isLineEnd = false := by cases p <;> decide
    have goes := restOfLine_append unbroken after
    rw [List.singleton_append, List.singleton_append] at goes
    have line := cut.hasLineAt
    have printed := cut.getElem?_lines paired
    rw [goes] at line
    rw [if_neg (by simp), goes] at printed
    refine ⟨lastLine before, p.char, restOfLine after, [], ?_, covered, ?_⟩
    · rw [span]
      exact line
    · have rows := showsMarked_note hnote hs (by rw [span]; exact printed)
      rw [span] at rows
      exact rows

namespace Syntax.Block

/-- Every error with which a text is refused shows, when it is printed, the line of the text where
    it is, with carets below what is wrong there; and so do its notes. -/
theorem ofText?_error_shown (size : text.utf8ByteSize ≤ ByteSpan.limit)
    (paired : returnsPaired text.toList = true) (fails : (ofText? text).value = .error e) :
    e.Shown text := by
  obtain ⟨us, rest, spot, place, split, stops⟩ :=
    exists_stopsAt (Token.fits_of_mem_ofText size) (run_eq_error_iff.mpr fails)
  exact stops.shown split size (ofText?_error_in fails) paired

theorem ofText?_error_shown_second_line :
    ∃ e : ParseError, e = ⟨"expected `]`, found `)`", ⟨⟨1, 5, 5, 10⟩, ⟨1, 6, 6, 11⟩⟩,
        .mismatchedDelimiter "]" ")",
        [.generalAt "list type opened with `[` here" ⟨⟨1, 3, 3, 8⟩, ⟨1, 4, 4, 9⟩⟩]⟩ ∧
      "\x7b\r\n\uFEFFa:[T)\x7d".utf8ByteSize ≤ ByteSpan.limit ∧
      returnsPaired "\x7b\r\n\uFEFFa:[T)\x7d".toList = true ∧
      (ofText? "\x7b\r\n\uFEFFa:[T)\x7d").value = .error e ∧
      e.Shown "\x7b\r\n\uFEFFa:[T)\x7d" := by
  have size : "\x7b\r\n\uFEFFa:[T)\x7d".utf8ByteSize ≤ ByteSpan.limit := by decide
  have paired : returnsPaired "\x7b\r\n\uFEFFa:[T)\x7d".toList = true := by decide
  have fails : (ofText? "\x7b\r\n\uFEFFa:[T)\x7d").value = .error
      ⟨"expected `]`, found `)`", ⟨⟨1, 5, 5, 10⟩, ⟨1, 6, 6, 11⟩⟩, .mismatchedDelimiter "]" ")",
        [.generalAt "list type opened with `[` here" ⟨⟨1, 3, 3, 8⟩, ⟨1, 4, 4, 9⟩⟩]⟩ :=
    run_eq_error_iff.mp (by decide +kernel)
  exact ⟨_, rfl, size, paired, fails, ofText?_error_shown size paired fails⟩

/-- If a source line is printed with an error, the error starts in it, as long as the carriage
    returns before the error have their line feeds. -/
theorem ofText?_error_printedLine (fails : (ofText? text).value = .error e)
    (printed : e.printedLine? text = some line)
    (paired : ∀ before, takeBytes? e.span.start.offset text.toList = some before →
      returnsPaired before = true) :
    ShowsMarked (e.detailed (some text)).toList line e.span.start.column
      (List.replicate (caretCount e.span) '^') ∧ HoldsPlace text line e.span.start.offset :=
  ⟨showsMarked_error printed, holdsPlace (ofText?_error_in fails).start printed paired⟩

theorem ofText?_error_printedLine_behind_pair :
    ∃ e : ParseError, e = (ParseError.unexpectedToken [.punctuator .colon] "Int"
        ⟨⟨1, 1, 1, 5⟩, ⟨1, 4, 4, 8⟩⟩).addHelp
          "declarations need a `:` between the name and its type, e.g. `a: Type`" ∧
      (ofText? "\x7ba\r\n Int\r\x7d").value = .error e ∧
      e.printedLine? "\x7ba\r\n Int\r\x7d" = some " Int\r\x7d".toList ∧
      (∀ before, takeBytes? e.span.start.offset "\x7ba\r\n Int\r\x7d".toList = some before →
        returnsPaired before = true) ∧
      ShowsMarked (e.detailed (some "\x7ba\r\n Int\r\x7d")).toList " Int\r\x7d".toList
        e.span.start.column (List.replicate (caretCount e.span) '^') ∧
      HoldsPlace "\x7ba\r\n Int\r\x7d" " Int\r\x7d".toList e.span.start.offset := by
  have fails : (ofText? "\x7ba\r\n Int\r\x7d").value = .error
      ((ParseError.unexpectedToken [.punctuator .colon] "Int"
        ⟨⟨1, 1, 1, 5⟩, ⟨1, 4, 4, 8⟩⟩).addHelp
          "declarations need a `:` between the name and its type, e.g. `a: Type`") :=
    run_eq_error_iff.mp (by decide +kernel)
  have paired : ∀ before, takeBytes? 5 "\x7ba\r\n Int\r\x7d".toList = some before →
      returnsPaired before = true := by
    have known : takeBytes? 5 "\x7ba\r\n Int\r\x7d".toList = some "\x7ba\r\n ".toList := by decide
    intro before cut
    obtain rfl := Option.some.inj (known.symm.trans cut)
    decide
  exact ⟨_, rfl, fails, rfl, paired, ofText?_error_printedLine fails rfl paired⟩

/-- Behind a carriage return by itself another line is printed: the error starts at byte 4, and the
    line begins at byte 8. -/
theorem ofText?_error_printedLine_elsewhere :
    ∃ e line, (ofText? "\x7b\ra Int\nb:c\x7d").value = .error e ∧
      e.printedLine? "\x7b\ra Int\nb:c\x7d" = some line ∧
      ¬ HoldsPlace "\x7b\ra Int\nb:c\x7d" line e.span.start.offset := by
  have fails : (ofText? "\x7b\ra Int\nb:c\x7d").value = .error
      ((ParseError.unexpectedToken [.punctuator .colon] "Int"
        ⟨⟨1, 2, 2, 4⟩, ⟨1, 5, 5, 7⟩⟩).addHelp
          "declarations need a `:` between the name and its type, e.g. `a: Type`") :=
    run_eq_error_iff.mp (by decide +kernel)
  have known : takeBytes? 4 "\x7b\ra Int\nb:c\x7d".toList = some "\x7b\ra ".toList := by decide
  refine ⟨_, "b:c\x7d".toList, fails, rfl, ?_⟩
  rintro ⟨front, left, right, back, split, line, offset⟩
  have offset : 4 = byteCount (front ++ left) := offset
  have cut : takeBytes? 4 "\x7b\ra Int\nb:c\x7d".toList = some (front ++ left) := by
    rw [offset, split, ← List.append_assoc, List.append_assoc (front ++ left)]
    exact takeBytes?_byteCount (front ++ left) _
  have before : "\x7b\ra ".toList = front ++ left := Option.some.inj (known.symm.trans cut)
  cases left with
  | nil =>
    have parts : "\x7b\ra Int\nb:c\x7d".toList = "\x7b\ra ".toList ++ "Int\nb:c\x7d".toList := by
      decide
    rw [List.append_nil] at before
    rw [parts, ← before, List.append_assoc, List.append_cancel_left_eq, ← line] at split
    simp at split
  | cons b left =>
    obtain rfl : b = 'b' := (List.cons.inj line).1.symm
    have inside : 'b' ∈ "\x7b\ra ".toList := before ▸ List.mem_append_right front List.mem_cons_self
    exact absurd inside (by decide)

end Syntax.Block

end ShapeSchema
