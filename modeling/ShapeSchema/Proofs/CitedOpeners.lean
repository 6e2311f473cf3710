import ShapeSchema.Proofs.OffendingTexts
set_option autoImplicit false

namespace ShapeSchema

variable {text : String} {us rest : List Token} {e : ParseError} {spot : Spot} {place : Place}
  {opener : Opener}

/-- What an error about a delimiter says about the brackets of the text. -/
def ParseError.CitesOpener (e : ParseError) (text : String) : Prop :=
  match e.cause with
  | .unclosedDelimiter delimiter =>
    ∃ opener outer, leftOpen (Token.ofText text) = some (opener :: outer) ∧
      delimiter = opener.construct.opener.text ∧
      e.notes.head? =
        some (.generalAt s!"{opener.construct.description} opened here" opener.span) ∧
      opener.span.bytes.slice? text = some delimiter
  | .mismatchedDelimiter expected found =>
    ∃ before t after p opener outer, Token.ofText text = before ++ t :: after ∧ e.span = t.span ∧
      leftOpen before = some (opener :: outer) ∧
      e.notes.head? = some (.generalAt
        s!"{opener.construct.description} opened with `{opener.construct.opener.text}` here"
        opener.span) ∧
      opener.span.bytes.slice? text = some opener.construct.opener.text ∧
      expected = opener.construct.closer.text ∧ t.kind = .punctuator p ∧ found = p.text ∧
      p.isClosing = true ∧ p ≠ opener.construct.closer
  | _ => True

namespace StopsAt

theorem slice?_opener (h : StopsAt us rest e spot place) (ho : opener ∈ place.openers)
    (split : Token.ofText text = us ++ rest) (fit : Fit (Token.ofText text)) :
    opener.span.bytes.slice? text = some opener.construct.opener.text := by
  obtain ⟨t, read, span, hk⟩ := h.exists_opening ho
  have ht : t ∈ Token.ofText text := split ▸ List.mem_append_left rest read
  have slice := Token.slice?_of_plain ht (Token.plain_of_punctuator hk)
  rw [hk] at slice
  rw [← span, Span.bytes_eq_offsets (fit t ht)]
  exact slice

theorem leftOpen_ofText (h : StopsAt us rest e spot place)
    (split : Token.ofText text = us ++ rest) (ends : ∀ t ∈ rest.head?, t.kind = .endOfInput) :
    leftOpen (Token.ofText text) = some place.openers := by
  obtain ⟨last, whole, hk⟩ := Token.ofText_eq_append text
  rw [significant_eq split h.plain ends] at whole
  have open_ : openBehind none [] us = some place.openers := h.openers
  rw [whole, leftOpen, openBehind_append, open_, Option.bind_some, openBehind,
    matchBracket_endOfInput hk]
  rfl

theorem citesOpener_endError (h : StopsAt us rest e spot place)
    (split : Token.ofText text = us ++ rest) (fit : Fit (Token.ofText text))
    (ends : ∀ t ∈ rest.head?, t.kind = .endOfInput) :
    ((place.cursor rest.head?).endError spot.expected).CitesOpener text := by
  rcases (place.cursor rest.head?).endError_cases spot.expected with
    ⟨-, same⟩ | ⟨opener, outer, openers, same⟩
  · rw [same]
    exact trivial
  · have openers : place.openers = opener :: outer := openers
    have open_ := h.leftOpen_ofText split ends
    rw [openers] at open_
    rw [same]
    exact ⟨opener, outer, open_, rfl, rfl,
      h.slice?_opener (openers ▸ List.mem_cons_self) split fit⟩

/-- Whatever the machine blames where it stops, an opener that it cites is the right one. -/
theorem citesOpener (h : StopsAt us rest e spot place) (split : Token.ofText text = us ++ rest)
    (fit : Fit (Token.ofText text)) : e.CitesOpener text := by
  have blames := h.blames
  generalize hnext : rest.head? = next at blames
  cases blames with
  | ended ends =>
    subst hnext
    exact h.citesOpener_endError split fit ends
  | @mismatched t p opener outer openers hk closing other =>
    obtain ⟨more, hrest⟩ := List.head?_eq_some_iff.mp hnext
    have open_ := h.openers
    rw [openers] at open_
    exact ⟨us, t, more, p, opener, outer, hrest ▸ split, rfl, open_, rfl,
      h.slice?_opener (openers ▸ List.mem_cons_self) split fit, rfl, hk, rfl, closing, other⟩
  | _ => exact trivial

end StopsAt

namespace Syntax.Block

/-- Of every text that is refused for a delimiter, the error cites the innermost opener that bracket
    matching leaves open. -/
theorem ofText?_error_opener (size : text.utf8ByteSize ≤ ByteSpan.limit)
    (fails : (ofText? text).value = .error e) : e.CitesOpener text := by
  have fit : Fit (Token.ofText text) := Token.fits_of_mem_ofText size
  obtain ⟨us, rest, spot, place, split, stops⟩ :=
    exists_stopsAt fit (run_eq_error_iff.mpr fails)
  exact stops.citesOpener split fit

theorem ofText?_error_opener_bracket_and_brace :
    (∃ e : ParseError, e = ⟨"expected `]`, found `)`", ⟨⟨0, 7, 7, 7⟩, ⟨0, 8, 8, 8⟩⟩,
          .mismatchedDelimiter "]" ")",
          [.generalAt "list type opened with `[` here" ⟨⟨0, 5, 5, 5⟩, ⟨0, 6, 6, 6⟩⟩]⟩ ∧
        "\x7bf(x:[T):U\x7d".utf8ByteSize ≤ ByteSpan.limit ∧
        (ofText? "\x7bf(x:[T):U\x7d").value = .error e ∧ e.CitesOpener "\x7bf(x:[T):U\x7d") ∧
      ∃ e : ParseError, e = ⟨"unclosed `\x7b`", .empty ⟨0, 6, 6, 6⟩, .unclosedDelimiter "\x7b",
          [.generalAt "enum block opened here" ⟨⟨0, 4, 4, 4⟩, ⟨0, 5, 5, 5⟩⟩]⟩ ∧
        "enum\x7bA".utf8ByteSize ≤ ByteSpan.limit ∧ (ofText? "enum\x7bA").value = .error e ∧
        e.CitesOpener "enum\x7bA" := by
  have small : "\x7bf(x:[T):U\x7d".utf8ByteSize ≤ ByteSpan.limit := by decide
  have mismatched : (ofText? "\x7bf(x:[T):U\x7d").value = .error ⟨"expected `]`, found `)`",
      ⟨⟨0, 7, 7, 7⟩, ⟨0, 8, 8, 8⟩⟩, .mismatchedDelimiter "]" ")",
      [.generalAt "list type opened with `[` here" ⟨⟨0, 5, 5, 5⟩, ⟨0, 6, 6, 6⟩⟩]⟩ :=
    run_eq_error_iff.mp (by decide +kernel)
  have short : "enum\x7bA".utf8ByteSize ≤ ByteSpan.limit := by decide
  have unclosed : (ofText? "enum\x7bA").value = .error ⟨"unclosed `\x7b`",
      .empty ⟨0, 6, 6, 6⟩, .unclosedDelimiter "\x7b",
      [.generalAt "enum block opened here" ⟨⟨0, 4, 4, 4⟩, ⟨0, 5, 5, 5⟩⟩]⟩ :=
    run_eq_error_iff.mp (by decide +kernel)
  exact ⟨⟨_, rfl, small, mismatched, ofText?_error_opener small mismatched⟩,
    _, rfl, short, unclosed, ofText?_error_opener short unclosed⟩

end Syntax.Block

end ShapeSchema
