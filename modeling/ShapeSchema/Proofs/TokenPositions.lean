import Mathlib.Algebra.GroupWithZero.Nat
import Mathlib.Data.List.DropRight
import ShapeSchema.Proofs.LosslessTokens
set_option autoImplicit false

namespace ShapeSchema

def isLineEnd (c : Char) : Bool := c == '\n' || c == '\r'

def lineEndPairs (cs : List Char) : Nat := cs.tails.countP (['\r', '\n'].isPrefixOf ·)

/-- The number of line breaks: every line end character counts once, and so does every pair. -/
def lineBreaks (cs : List Char) : Nat := cs.countP isLineEnd - lineEndPairs cs

def lastLine (cs : List Char) : List Char := cs.rtakeWhile fun c => !isLineEnd c

/-- A carriage return and its line feed, the last of the first characters and the first of the
    others. -/
def Parted (before after : List Char) : Prop :=
  before.getLast? = some '\r' ∧ after.head? = some '\n'

/-- The position at the end of a text. -/
def Position.behind (text : List Char) : Position where
  line := lineBreaks text
  column := (lastLine text).length
  column16 := ((lastLine text).map units16).sum
  offset := byteCount text

theorem lineEndPairs_cons (c : Char) (cs : List Char) :
    lineEndPairs (c :: cs) =
      lineEndPairs cs + if ['\r', '\n'].isPrefixOf (c :: cs) then 1 else 0 := by
  change ((c :: cs) :: cs.tails).countP _ = _
  rw [List.countP_cons]
  rfl

theorem lineEndPairs_le (cs : List Char) : lineEndPairs cs ≤ cs.countP isLineEnd := by
  induction cs with
  | nil => decide
  | cons c cs ih =>
    rw [lineEndPairs_cons, List.countP_cons]
    split
    · next pair =>
      have hc : '\r' = c := (List.cons_prefix_cons.mp (List.isPrefixOf_iff_prefix.mp pair)).1
      have ends : isLineEnd c = true := by rw [← hc]; decide
      rw [if_pos ends]
      omega
    · omega

theorem lineBreaks_pair (cs : List Char) :
    lineBreaks ('\r' :: '\n' :: cs) = 1 + lineBreaks cs := by
  have pairs : lineEndPairs ('\r' :: '\n' :: cs) = lineEndPairs cs + 1 := by
    rw [lineEndPairs_cons, lineEndPairs_cons]
    simp
  have ends : ('\r' :: '\n' :: cs).countP isLineEnd = cs.countP isLineEnd + 2 := by
    rw [List.countP_cons, List.countP_cons]
    rfl
  have enough := lineEndPairs_le cs
  unfold lineBreaks
  omega

theorem lineBreaks_cons {c : Char} {cs : List Char}
    (single : ¬ ∃ rest, c = '\r' ∧ cs = '\n' :: rest) :
    lineBreaks (c :: cs) = (if isLineEnd c then 1 else 0) + lineBreaks cs := by
  have pairs : lineEndPairs (c :: cs) = lineEndPairs cs := by
    rw [lineEndPairs_cons, if_neg, Nat.add_zero]
    intro pair
    obtain ⟨rest, hrest⟩ := List.isPrefixOf_iff_prefix.mp pair
    injection hrest with hc hcs
    exact single ⟨rest, hc.symm, hcs.symm⟩
  have enough := lineEndPairs_le cs
  rw [lineBreaks, pairs, List.countP_cons, lineBreaks]
  split <;> omega

theorem lastLine_concat (cs : List Char) (c : Char) :
    lastLine (cs ++ [c]) = if isLineEnd c then [] else lastLine cs ++ [c] := by
  rw [lastLine, List.rtakeWhile_concat]
  cases isLineEnd c <;> rfl

theorem lastLine_append (cs ds : List Char) :
    lastLine (cs ++ ds) = if ds.any isLineEnd then lastLine ds else lastLine cs ++ ds := by
  induction ds using List.reverseRecOn with
  | nil => simp
  | append_singleton ds d ih =>
    rw [← List.append_assoc, lastLine_concat, ih, lastLine_concat, List.any_append,
      List.any_cons, List.any_nil]
    cases isLineEnd d <;> cases ds.any isLineEnd <;> simp

theorem lastLine_of_unbroken {cs : List Char} (h : cs.any isLineEnd = false) :
    lastLine cs = cs := by
  have whole := lastLine_append [] cs
  rw [h] at whole
  exact whole

theorem lastLine_cons_of_isLineEnd {c : Char} (h : isLineEnd c = true) (cs : List Char) :
    lastLine (c :: cs) = lastLine cs := by
  rw [← List.singleton_append, lastLine_append, ← List.nil_append [c], lastLine_concat, if_pos h]
  cases unbroken : cs.any isLineEnd with
  | true => rfl
  | false => rw [lastLine_of_unbroken unbroken]; rfl

section Parted

variable {c : Char} {before after : List Char} (whole : ¬ Parted (c :: before) after)

include whole

theorem not_parted_of_cons : ¬ Parted before after := by
  refine fun parted => whole ⟨?_, parted.2⟩
  rw [List.getLast?_cons, parted.1]
  rfl

theorem single_append (single : ∀ more, c = '\r' → before = '\n' :: more → False) :
    ∀ more, c = '\r' → before ++ after = '\n' :: more → False := by
  intro more hc hm
  cases before with
  | nil => exact whole ⟨by rw [hc]; rfl, by rw [← List.nil_append after, hm]; rfl⟩
  | cons d rest =>
    injection hm with hd
    exact single rest hc (by rw [hd])

end Parted

namespace Position

theorem through_eq (p : Position) (cs : List Char) : p.through cs =
    ⟨p.line + lineBreaks cs,
      (if cs.any isLineEnd then 0 else p.column) + (lastLine cs).length,
      (if cs.any isLineEnd then 0 else p.column16) + ((lastLine cs).map units16).sum,
      p.offset + byteCount cs⟩ := by
  fun_induction through p cs with
  | case1 p =>
    cases p
    rfl
  | case2 p rest ih =>
    have pair : byteCount ('\r' :: '\n' :: rest) = 2 + byteCount rest :=
      byteCount_append ['\r', '\n'] rest
    have behind : lastLine ('\r' :: '\n' :: rest) = lastLine rest := by
      rw [lastLine_cons_of_isLineEnd rfl, lastLine_cons_of_isLineEnd rfl]
    rw [ih, lineBreaks_pair, behind, pair]
    simp [nextLine, isLineEnd, Nat.add_assoc]
  | case3 p c rest single ih =>
    have step : lineBreaks (c :: rest) = (if isLineEnd c then 1 else 0) + lineBreaks rest := by
      apply lineBreaks_cons
      rintro ⟨later, hc, hr⟩
      exact single later hc hr
    have one : byteCount (c :: rest) = c.utf8Size + byteCount rest := byteCount_append [c] rest
    rw [ih, step, one]
    cases ends : isLineEnd c with
    | true =>
      have broken : c = '\n' ∨ c = '\r' := by simpa [isLineEnd] using ends
      rw [lastLine_cons_of_isLineEnd ends, after, if_pos broken]
      simp [nextLine, ends, Nat.add_assoc]
    | false =>
      have unbroken : ¬ (c = '\n' ∨ c = '\r') := by simpa [isLineEnd] using ends
      have first : lastLine [c] = [c] := lastLine_of_unbroken (by simp [ends])
      have same : ([c] ++ rest).any isLineEnd = rest.any isLineEnd := by simp [ends]
      rw [← List.singleton_append, lastLine_append, first, same, after, if_neg unbroken]
      cases hr : rest.any isLineEnd with
      | true => simp only [if_true, if_false, Bool.false_eq_true, Nat.zero_add, Nat.add_assoc]
      | false =>
        have whole := lastLine_of_unbroken hr
        simp only [whole, if_false, Bool.false_eq_true, Nat.zero_add, Nat.add_assoc,
          List.singleton_append, List.length_cons, List.map_cons, List.sum_cons,
          Nat.add_comm rest.length]

theorem through_start (text : List Char) : start.through text = behind text := by
  rw [through_eq, behind]
  simp [start]

theorem through_append (p : Position) (before after : List Char) (whole : ¬ Parted before after) :
    p.through (before ++ after) = (p.through before).through after := by
  fun_induction through p before with
  | case1 p => rfl
  | case2 p rest ih =>
    rw [← ih (not_parted_of_cons (not_parted_of_cons whole))]
    rfl
  | case3 p c rest single ih =>
    rw [← ih (not_parted_of_cons whole), List.cons_append, through]
    exact single_append whole single

end Position

/-- A carriage return and its line feed are in one lexeme. -/
theorem Border.whole {before after : List Char} (h : Border before after) :
    ¬ Parted before after := by
  rintro ⟨hlast, hhead⟩
  have apart := h _ hlast _ hhead
  revert apart
  decide

namespace Token

/-- Every piece of a layout runs from the end of some text to the end of a longer one, and no lexeme
    goes on across either end. -/
theorem layout_behind {runs : List (List Char)} {before : List Char} {p : Position}
    (lexed : Lexed runs) (border : Border before runs.flatten) (hp : p = .behind before) :
    ∀ piece ∈ layout p runs, ∃ front run after, before ++ runs.flatten = front ++ run ++ after ∧
      piece.2 = ⟨.behind front, .behind (front ++ run)⟩ ∧ Border front (run ++ after) ∧
        Border (front ++ run) after := by
  induction runs generalizing before p with
  | nil =>
    intro piece hpiece
    rw [List.mem_singleton.mp hpiece, hp]
    refine ⟨before, [], [], by simp, by rw [List.append_nil]; rfl, border, ?_⟩
    rwa [List.append_nil]
  | cons run more ih =>
    have hrun : run ≠ [] := lexed.1
    have inner := border
    rw [List.flatten_cons, border_append_right hrun] at border
    have moved : p.through run = .behind (before ++ run) := by
      rw [hp, ← Position.through_start, ← Position.through_start,
        Position.through_append _ _ _ border.whole]
    have later : Border (before ++ run) more.flatten :=
      (border_append_left hrun _ _).mpr lexed.2.2.1
    have tail := ih lexed.2.2.2 later moved
    rw [List.append_assoc] at tail
    cases run with
    | nil => exact absurd rfl hrun
    | cons c rest =>
      rw [layout, List.forall_mem_cons]
      refine ⟨⟨before, c :: rest, more.flatten, ?_, ?_, inner, later⟩, tail⟩
      · rw [List.flatten_cons, List.append_assoc]
      · rw [moved, hp]

/-- The start and the end of every token and separator of a text are where the text before them
    ends: that many bytes, line breaks, and characters and UTF-16 units of the last line. -/
theorem ofText_positions (text : String) : ∀ t ∈ ofText text,
    ∀ span ∈ t.span :: t.trivia.map Trivia.span, ∀ p ∈ [span.start, span.stop],
      ∃ before, takeBytes? p.offset text.toList = some before ∧ p = .behind before := by
  intro t ht span hspan p hp
  obtain ⟨piece, hpiece, rfl⟩ : ∃ piece ∈ (ofText text).flatMap pieces, piece.2 = span := by
    rcases List.mem_cons.mp hspan with rfl | hv
    · exact ⟨(.token t.kind, t.span), List.mem_flatMap.mpr ⟨t, ht, by simp [pieces]⟩, rfl⟩
    · obtain ⟨v, member, rfl⟩ := List.mem_map.mp hv
      refine ⟨(.separator v.kind, v.span), List.mem_flatMap.mpr ⟨t, ht, ?_⟩, rfl⟩
      exact List.mem_append_left _ (List.mem_map.mpr ⟨v, member, rfl⟩)
  rw [pieces_ofText] at hpiece
  obtain ⟨front, run, after, split, same, -⟩ := layout_behind (lexed_lexemes text.toList)
    (border_nil_left _) (Position.through_start []) piece hpiece
  rw [List.nil_append, flatten_lexemes] at split
  rw [same, List.mem_pair] at hp
  rcases hp with rfl | rfl
  · refine ⟨front, ?_, rfl⟩
    rw [split, List.append_assoc]
    exact takeBytes?_byteCount front _
  · refine ⟨front ++ run, ?_, rfl⟩
    rw [split]
    exact takeBytes?_byteCount (front ++ run) _

/-- Behind a pair, a lone carriage return and a character of two units, `b` starts in the third
    line, two characters and three units into it. -/
theorem ofText_positions_mixed_breaks :
    (⟨.name "b", [⟨.semicolon, ⟨⟨2, 1, 2, 8⟩, ⟨2, 2, 3, 9⟩⟩⟩], ⟨⟨2, 2, 3, 9⟩, ⟨2, 3, 4, 10⟩⟩⟩ : Token) ∈
      ofText "a\r\n\r😀;b" ∧
    ∃ before, takeBytes? 9 "a\r\n\r😀;b".toList = some before ∧
      (⟨2, 2, 3, 9⟩ : Position) = .behind before := by
  have known : (⟨.name "b", [⟨.semicolon, ⟨⟨2, 1, 2, 8⟩, ⟨2, 2, 3, 9⟩⟩⟩],
      ⟨⟨2, 2, 3, 9⟩, ⟨2, 3, 4, 10⟩⟩⟩ : Token) ∈ ofText "a\r\n\r😀;b" := by
    decide +kernel
  exact ⟨known, ofText_positions _ _ known _ List.mem_cons_self _ List.mem_cons_self⟩

end Token

end ShapeSchema
