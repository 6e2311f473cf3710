import ShapeSchema.Proofs.MachinePassages
import ShapeSchema.Proofs.MachineWalks
import ShapeSchema.Proofs.PrintedTrees
import ShapeSchema.Proofs.RereadExcerpts
import ShapeSchema.Proofs.StoredOffsets
set_option autoImplicit false

namespace ShapeSchema

variable {σ : Type} {ts us : List Token}

def Token.unplaced (t : Token) : Token := { t with span := .empty .start }

theorem Spells.unplaced {ms : List Mark} (h : Spells ms us) : Spells ms (us.map Token.unplaced) :=
  List.forall₂_map_right_iff.mpr h

theorem significant_unplaced (ts : List Token) :
    significant (ts.map Token.unplaced) = (significant ts).map Token.unplaced :=
  List.takeWhile_map

theorem fit_unplaced (ts : List Token) : Fit (ts.map Token.unplaced) := by
  intro t ht
  obtain ⟨u, -, rfl⟩ := List.mem_map.mp ht
  exact ⟨Nat.zero_le _, Nat.zero_le _⟩

namespace Syntax.Block

theorem eq_of_writtenBy_anywhere {b c : Block Unit} (hb : b.WrittenBy ts)
    (hc : c.WrittenBy ts) : b = c := by
  have moved {d : Block Unit} (hd : d.WrittenBy ts) : d.WrittenBy (ts.map Token.unplaced) := by
    refine ⟨hd.1, ?_⟩
    rw [significant_unplaced]
    exact hd.2.unplaced
  exact eq_of_writtenBy (fit_unplaced ts) (moved hb) (moved hc)

end Syntax.Block

theorem run_finished {place : Place} (ends : Parse.AtEnd ts) : run .finished place ts = .ok () := by
  cases ts with
  | nil => rfl
  | cons t ts => simp only [run, Step.act, Step.finished, ends t rfl]

theorem Spot.Blames.ne_tooLarge {spot : Spot} {place : Place} {next : Option Token} {e : ParseError}
    (h : spot.Blames place next e) (span : Span) : e ≠ .tooLarge span := by
  rintro rfl
  generalize same : ParseError.tooLarge span = e at h
  have cause := congrArg ParseError.cause same
  cases h with
  | ended ends =>
    rcases (place.cursor next).endError_cases spot.expected with
      ⟨-, ended⟩ | ⟨opener, outer, -, ended⟩
    · rw [ended] at cause
      cases cause
    · rw [ended] at cause
      cases cause
  | deep =>
    have message := congrArg ParseError.message same
    simp [ParseError.tooLarge, ParseError.tooDeep] at message
  | _ => cases cause

theorem run_ne_tooLarge (fit : Fit ts) (span : Span) :
    run .start ⟨[], none⟩ ts ≠ .error (.tooLarge span) := by
  intro fails
  obtain ⟨us, rest, spot, place, -, stops⟩ := exists_stopsAt fit fails
  exact stops.blames.ne_tooLarge span rfl

namespace Syntax.Block

/-- What becomes of tokens that spell a tree. -/
theorem run_of_spells {b : Block σ} (h : Spells b.marks (significant ts)) :
    (b.Shallow ∧ run .start ⟨[], none⟩ ts = .ok ()) ∨
      (¬ b.Shallow ∧ ∃ span, run .start ⟨[], none⟩ ts = .error (.tooDeep span)) ∨
      ∃ span : Span, ¬ span.Fits ∧ run .start ⟨[], none⟩ ts = .error (.tooLarge span) := by
  have shallow : b.Shallow ↔ ¬ ∃ t ∈ b.types, Parse.maxDepth ≤ t.depth := by
    simp [Shallow]
  have ends := atEnd_dropWhile ts
  have noBang : Parse.NoBang (ts.dropWhile fun t => t.kind ≠ .endOfInput) := by
    intro t ht
    rw [ends t ht]
    simp
  have passage := Block.passes h ⟨[], none⟩ _ rfl noBang
  rw [← significant_append_dropWhile] at passage
  generalize run .start ⟨[], none⟩ ts = verdict at passage ⊢
  cases passage with
  | tooDeep deep => exact .inr (.inl ⟨fun flat => shallow.mp flat deep, _, rfl⟩)
  | tooLarge large => exact .inr (.inr ⟨_, large, rfl⟩)
  | through flat stands => exact .inl ⟨shallow.mpr flat, run_finished ends⟩

theorem bare_of_spells {b : Block Unit} {block : Block ByteSpan}
    (spelled : Spells b.marks (significant ts)) (flat : b.Shallow)
    (read : (ofTokens? ts).value = .ok block) : block.bare = b := by
  obtain ⟨lies, shallow⟩ := over_of_value_ofTokens? read
  have written : block.bare.WrittenBy ts := by
    refine ⟨(shallow_map _ _).mpr shallow, ?_⟩
    rw [marks_bare]
    exact lies.spells
  exact eq_of_writtenBy_anywhere written ⟨flat, spelled⟩

/-- Of tokens that spell a tree, the block is read if no type has `Parse.maxDepth` list levels or
    more; and if one has, that is the error. -/
theorem ofTokens?_nesting_limit (fit : Fit ts) {b : Block Unit}
    (spelled : Spells b.marks (significant ts)) :
    ((∀ t ∈ b.types, t.depth < Parse.maxDepth) →
      ∃ block, (ofTokens? ts).value = .ok block ∧ block.bare = b) ∧
    ((∃ t ∈ b.types, Parse.maxDepth ≤ t.depth) →
      ∃ span, (ofTokens? ts).value = .error (.tooDeep span)) := by
  refine ⟨fun flat => (exists_read_iff fit).mpr ⟨flat, spelled⟩, ?_⟩
  rintro ⟨t, ht, deep⟩
  rcases run_of_spells spelled with ⟨flat, -⟩ | ⟨-, span, stops⟩ | ⟨span, -, stops⟩
  · exact absurd (flat t ht) deep.not_gt
  · exact ⟨span, run_eq_error_iff.mp stops⟩
  · exact absurd stops (run_ne_tooLarge fit span)

def nested : Nat → TypeExpr Unit
  | 0 => .named ⟨"Int", ()⟩ none ()
  | levels + 1 => .list (nested levels) none ()

theorem depth_nested (levels : Nat) : (nested levels).depth = levels := by
  induction levels with
  | zero => rfl
  | succ levels ih => rw [nested, TypeExpr.depth, ih]

theorem leaf_nested (levels : Nat) : (nested levels).leaf = ⟨"Int", ()⟩ := by
  induction levels with
  | zero => rfl
  | succ levels ih => rw [nested, TypeExpr.leaf, ih]

theorem spells_nested (levels : Nat) : Spells (ofType (nested levels)).marks
    (significant (Token.ofText (ofType (nested levels)).print)) := by
  refine spells_print ?_
  have valid : isValidName "f" = true ∧ isValidName "Int" = true := by decide
  simpa [ofType, ofField, names, leaf_nested] using valid

theorem ofTokens?_nesting_limit_below_and_beyond :
    (Fit (Token.ofText (ofType (nested 63)).print) ∧
      ∃ block, (ofTokens? (Token.ofText (ofType (nested 63)).print)).value = .ok block ∧
        block.bare = ofType (nested 63)) ∧
    (Fit (Token.ofText (ofType (nested 65)).print) ∧
      ∃ span, (ofTokens? (Token.ofText (ofType (nested 65)).print)).value =
        .error (.tooDeep span)) := by
  have fit (levels : Nat) (size : (ofType (nested levels)).print.utf8ByteSize ≤ ByteSpan.limit) :
      Fit (Token.ofText (ofType (nested levels)).print) := Token.fits_of_mem_ofText size
  have below := fit 63 (by decide +kernel)
  have beyond := fit 65 (by decide +kernel)
  refine ⟨⟨below, (ofTokens?_nesting_limit below (spells_nested 63)).1 ?_⟩,
    beyond, (ofTokens?_nesting_limit beyond (spells_nested 65)).2 ?_⟩
  · decide +kernel
  · decide +kernel

/-- A type of 64 list levels is refused, though it is not deeper than `Parse.maxDepth`: the name
    inside the lists takes a level as well. -/
theorem ofText?_nesting_limit_refused :
    (nested 64).depth ≤ Parse.maxDepth ∧
      Spells (ofType (nested 64)).marks (significant (Token.ofText (ofType (nested 64)).print)) ∧
      (ofText? (ofType (nested 64)).print).value =
        .error (.tooDeep ⟨⟨0, 67, 67, 67⟩, ⟨0, 70, 70, 70⟩⟩) := by
  have stops : run .start ⟨[], none⟩ (Token.ofText (ofType (nested 64)).print) =
      .error (.tooDeep ⟨⟨0, 67, 67, 67⟩, ⟨0, 70, 70, 70⟩⟩) := by
    decide +kernel
  rw [value_ofText?]
  exact ⟨(depth_nested 64).le, spells_nested 64, run_eq_error_iff.mp stops⟩

/-- A token list that writes down a tree is read as this tree, with the offsets of the tokens that
    delimit each node, or an offset is too large to be stored. Where all offsets are small enough,
    it is read. -/
theorem ofTokens?_exact_or_too_large {b : Block Unit} (written : b.WrittenBy ts) :
    ((∃ block, (ofTokens? ts).value = .ok block ∧ block.bare = b ∧ block.Over (significant ts) ∧
        block.map ByteSpan.narrow = block) ∨
      ∃ span, (ofTokens? ts).value = .error (.tooLarge span) ∧
        (ByteSpan.limit < span.start.offset ∨ ByteSpan.limit < span.stop.offset)) ∧
    ((∀ t ∈ ts, t.span.Fits) → ∃ block, (ofTokens? ts).value = .ok block) := by
  obtain ⟨flat, spelled⟩ := written
  refine ⟨?_, fun fit => ?_⟩
  · rcases run_of_spells spelled with ⟨-, accepts⟩ | ⟨deep, -⟩ | ⟨span, large, stops⟩
    · obtain ⟨block, read⟩ := exists_value_ofTokens?_iff.mpr accepts
      obtain ⟨s, yields⟩ := value_ofTokens?_eq_ok.mp read
      exact .inl ⟨block, read, bare_of_spells spelled flat read, (over_of_value_ofTokens? read).1,
        Parse.block_gives _ _ _ yields⟩
    · exact absurd flat deep
    · refine .inr ⟨span, run_eq_error_iff.mp stops, ?_⟩
      rw [Span.Fits, not_and_or, Nat.not_le, Nat.not_le] at large
      exact large
  · obtain ⟨block, read, -⟩ := (exists_read_iff fit).mpr ⟨flat, spelled⟩
    exact ⟨block, read⟩

def fieldTokens (colon brace : Nat) : List Token :=
  let place (offset : Nat) : Position := ⟨0, offset, offset, offset⟩
  [⟨.punctuator .braceOpen, [], ⟨place 0, place 1⟩⟩, ⟨.name "f", [], ⟨place 1, place 2⟩⟩,
    ⟨.punctuator .colon, [], ⟨place colon, place (colon + 1)⟩⟩,
    ⟨.name "Int", [], ⟨place 3, place 6⟩⟩,
    ⟨.punctuator .braceClose, [], ⟨place brace, place (brace + 1)⟩⟩]

/-- No span tells where the colon is, which may be far away; but not so the brace. -/
theorem ofTokens?_exact_or_too_large_far_away :
    ((ofType (nested 0)).WrittenBy (fieldTokens (2 ^ 52) 6) ∧
      ∃ block, (ofTokens? (fieldTokens (2 ^ 52) 6)).value = .ok block ∧
        block.bare = ofType (nested 0) ∧ block.Over (significant (fieldTokens (2 ^ 52) 6)) ∧
        block.map ByteSpan.narrow = block) ∧
    ((ofType (nested 0)).WrittenBy (fieldTokens 2 (2 ^ 52)) ∧
      ∃ span, (ofTokens? (fieldTokens 2 (2 ^ 52))).value = .error (.tooLarge span) ∧
        (ByteSpan.limit < span.start.offset ∨ ByteSpan.limit < span.stop.offset)) := by
  have colon : (ofType (nested 0)).WrittenBy (fieldTokens (2 ^ 52) 6) := by decide
  have brace : (ofType (nested 0)).WrittenBy (fieldTokens 2 (2 ^ 52)) := by decide
  have accepts : run .start ⟨[], none⟩ (fieldTokens (2 ^ 52) 6) = .ok () := by decide +kernel
  have refuses : run .start ⟨[], none⟩ (fieldTokens 2 (2 ^ 52)) ≠ .ok () := by decide +kernel
  refine ⟨⟨colon, ?_⟩, brace, ?_⟩
  · refine (ofTokens?_exact_or_too_large colon).1.resolve_right ?_
    rintro ⟨span, fails, -⟩
    rw [run_eq_error_iff.mpr fails] at accepts
    cases accepts
  · refine (ofTokens?_exact_or_too_large brace).1.resolve_left ?_
    rintro ⟨block, read, -⟩
    exact refuses (exists_value_ofTokens?_iff.mp ⟨block, read⟩)

end Syntax.Block

end ShapeSchema
