import ShapeSchema.Proofs.TokenPositions
import ShapeSchema.Text.Lines
set_option autoImplicit false

namespace ShapeSchema

/-- No carriage return stands without a line feed directly behind it. -/
def returnsPaired : List Char → Bool
  | [] => true
  | '\r' :: '\n' :: rest => returnsPaired rest
  | c :: rest => c != '\r' && returnsPaired rest

def firstLine (cs : List Char) : List Char := (Text.lines cs).headD []

def restOfLine (cs : List Char) : List Char := cs.takeWhile fun c => !isLineEnd c

/-- The text is cut in two, and no carriage return is parted from its line feed. -/
structure Cut (text : String) (before after : List Char) : Prop where
  split : text.toList = before ++ after
  whole : ¬ Parted before after

/-- The line `left ++ right` of the text, with line breaks or nothing on both sides, and the place
    between the two parts of it. -/
def HasLineAt (text : String) (offset : Nat) (left right : List Char) : Prop :=
  ∃ front back, text.toList = front ++ (left ++ right) ++ back ∧
    offset = byteCount (front ++ left) ∧
    (∀ c ∈ front.getLast?, isLineEnd c = true) ∧ (∀ c ∈ back.head?, isLineEnd c = true) ∧
    ∀ c ∈ left ++ right, isLineEnd c = false

theorem isLineEnd_eq_false {c : Char} : isLineEnd c = false ↔ c ≠ '\n' ∧ c ≠ '\r' := by
  simp [isLineEnd]

theorem restOfLine_append {cs : List Char} (unbroken : cs.any isLineEnd = false) (ds : List Char) :
    restOfLine (cs ++ ds) = cs ++ restOfLine ds :=
  List.takeWhile_append_of_pos (by simpa using unbroken)

theorem returnsPaired_append {before after : List Char} (whole : ¬ Parted before after) :
    returnsPaired (before ++ after) = (returnsPaired before && returnsPaired after) := by
  fun_induction returnsPaired before with
  | case1 => simp
  | case2 rest ih =>
    rw [← ih (not_parted_of_cons (not_parted_of_cons whole))]
    rfl
  | case3 c rest single ih =>
    rw [List.cons_append, returnsPaired, ih (not_parted_of_cons whole), Bool.and_assoc]
    exact single_append whole single

theorem exists_front (cs : List Char) :
    ∃ front, front ++ lastLine cs = cs ∧ ∀ c ∈ front.getLast?, isLineEnd c = true := by
  refine ⟨cs.rdropWhile fun c => !isLineEnd c, List.rdropWhile_append_rtakeWhile, fun c hc => ?_⟩
  obtain ⟨nonempty, rfl⟩ := List.mem_getLast?_eq_getLast hc
  simpa using List.rdropWhile_last_not _ cs nonempty

theorem lineBreaks_eq_zero_iff (cs : List Char) :
    lineBreaks cs = 0 ↔ cs.any isLineEnd = false := by
  fun_induction returnsPaired cs with
  | case1 => decide
  | case2 rest ih => simp [lineBreaks_pair, isLineEnd]
  | case3 c rest single ih =>
    rw [lineBreaks_cons (by rintro ⟨more, hc, hm⟩; exact single more hc hm), List.any_cons]
    cases isLineEnd c <;> simp [ih]

namespace Text

theorem lines_cons {c : Char} (h : isLineEnd c = false) (cs : List Char) :
    lines (c :: cs) = consFirstLine c (lines cs) := by
  obtain ⟨feed, ret⟩ := isLineEnd_eq_false.mp h
  rw [lines]
  · exact feed
  · exact fun rest hc _ => ret hc

theorem firstLine_cons {c : Char} {cs : List Char}
    (h : lines (c :: cs) = consFirstLine c (lines cs)) : firstLine (c :: cs) = c :: firstLine cs := by
  rw [firstLine, firstLine, h]
  cases lines cs <;> rfl

theorem firstLine_append {before : List Char} (unbroken : before.any isLineEnd = false)
    (after : List Char) : firstLine (before ++ after) = before ++ firstLine after := by
  induction before with
  | nil => rfl
  | cons c before ih =>
    rw [List.any_cons, Bool.or_eq_false_iff] at unbroken
    rw [List.cons_append, List.cons_append, ← ih unbroken.2]
    exact firstLine_cons (lines_cons unbroken.1 _)

theorem lines_ne_nil {cs : List Char} (h : cs ≠ []) : lines cs ≠ [] := by
  fun_cases lines cs with
  | case1 => exact absurd rfl h
  | case2 rest => exact List.cons_ne_nil _ _
  | case3 rest => exact List.cons_ne_nil _ _
  | case4 c rest => cases lines rest <;> exact List.cons_ne_nil _ _

theorem getElem?_lines_zero (cs : List Char) :
    (lines cs)[0]? = if cs = [] then none else some (firstLine cs) := by
  split
  · next h => rw [h]; rfl
  · next h =>
    obtain ⟨line, more, hl⟩ := List.exists_cons_of_ne_nil (lines_ne_nil h)
    rw [firstLine, hl]
    rfl

theorem getElem?_consFirstLine_succ (c : Char) (ls : List (List Char)) (n : Nat) :
    (consFirstLine c ls)[n + 1]? = ls[n + 1]? := by
  cases ls <;> rfl

/-- The line that is counted behind the first part of a text is the one listed there, unless the
    text ends with a line. -/
theorem getElem?_lines {before : List Char} (paired : returnsPaired before = true)
    (after : List Char) :
    (lines (before ++ after))[lineBreaks before]? =
      if lastLine before = [] ∧ after = [] then none
      else some (lastLine before ++ firstLine after) := by
  fun_induction returnsPaired before with
  | case1 =>
    have none : lineBreaks [] = 0 ∧ lastLine [] = [] := by decide
    rw [none.1, none.2, List.nil_append, getElem?_lines_zero]
    simp
  | case2 rest ih =>
    have behind : lastLine ('\r' :: '\n' :: rest) = lastLine rest := by
      rw [lastLine_cons_of_isLineEnd rfl, lastLine_cons_of_isLineEnd rfl]
    rw [lineBreaks_pair, behind, ← ih paired, Nat.add_comm]
    rfl
  | case3 c rest single ih =>
    rw [Bool.and_eq_true, bne_iff_ne] at paired
    have ih := ih paired.2
    have counted := lineBreaks_cons (c := c) fun ⟨more, hc, hm⟩ => single more hc hm
    cases ends : isLineEnd c with
    | true =>
      obtain rfl : c = '\n' := by simpa [isLineEnd, paired.1] using ends
      rw [counted, lastLine_cons_of_isLineEnd rfl, ← ih, if_pos ends, Nat.add_comm]
      rfl
    | false =>
      cases broken : rest.any isLineEnd with
      | false =>
        have unbroken : (c :: rest).any isLineEnd = false := by simp [ends, broken]
        rw [(lineBreaks_eq_zero_iff _).mpr unbroken, lastLine_of_unbroken unbroken,
          getElem?_lines_zero, firstLine_append unbroken]
        simp
      | true =>
        have behind : lastLine (c :: rest) = lastLine rest := by
          rw [← List.singleton_append, lastLine_append, if_pos broken]
        obtain ⟨n, hn⟩ := Nat.exists_eq_succ_of_ne_zero fun none : lineBreaks rest = 0 =>
          Bool.false_ne_true (((lineBreaks_eq_zero_iff rest).mp none).symm.trans broken)
        rw [counted, ends, if_neg Bool.false_ne_true, Nat.zero_add, behind, ← ih, hn,
          List.cons_append, lines_cons ends, getElem?_consFirstLine_succ]

theorem firstLine_prefix (cs : List Char) : firstLine cs <+: cs := by
  fun_induction lines cs with
  | case1 => exact List.nil_prefix
  | case2 rest ih => exact List.nil_prefix
  | case3 rest ih => exact List.nil_prefix
  | case4 c rest feed pair ih =>
    rw [firstLine_cons (lines.eq_4 c rest feed pair)]
    exact (List.prefix_cons_inj c).mpr ih

theorem firstLine_of_returnsPaired {cs : List Char} (paired : returnsPaired cs = true) :
    firstLine cs = restOfLine cs := by
  fun_induction returnsPaired cs with
  | case1 => rfl
  | case2 rest ih => rfl
  | case3 c rest single ih =>
    rw [Bool.and_eq_true, bne_iff_ne] at paired
    cases ends : isLineEnd c with
    | true =>
      obtain rfl : c = '\n' := by simpa [isLineEnd, paired.1] using ends
      rfl
    | false =>
      rw [firstLine_cons (lines_cons ends rest), ih paired.2, restOfLine, restOfLine,
        List.takeWhile_cons_of_pos (by simp [ends])]

end Text

namespace Cut

variable {text : String} {before after : List Char} (h : Cut text before after)

include h

theorem hasLineAt : HasLineAt text (byteCount before) (lastLine before) (restOfLine after) := by
  obtain ⟨front, left, broken⟩ := exists_front before
  refine ⟨front, after.dropWhile fun c => !isLineEnd c, ?_, by rw [left], broken, fun c hc => ?_,
    fun c hc => ?_⟩
  · rw [← List.append_assoc, left, List.append_assoc, restOfLine, List.takeWhile_append_dropWhile,
      h.split]
  · have stops := List.head?_dropWhile_not (fun c => !isLineEnd c) after
    rw [hc] at stops
    simpa using stops
  · rcases List.mem_append.mp hc with hc | hc
    · simpa using List.mem_rtakeWhile_imp hc
    · simpa using List.mem_takeWhile_imp hc

/-- Where every carriage return has its line feed, the line listed at a cut is the one around it. -/
theorem getElem?_lines (paired : returnsPaired text.toList = true) :
    (Text.lines text.toList)[lineBreaks before]? =
      if lastLine before = [] ∧ after = [] then none
      else some (lastLine before ++ restOfLine after) := by
  rw [h.split, returnsPaired_append h.whole, Bool.and_eq_true] at paired
  rw [h.split, Text.getElem?_lines paired.1, Text.firstLine_of_returnsPaired paired.2]

theorem ends (paired : returnsPaired text.toList = true)
    (nothing : lastLine before = [] ∧ after = []) :
    (text = "" ∨ text.toList.getLast? = some '\n') ∧ byteCount before = text.utf8ByteSize := by
  have whole : text.toList = before := by rw [h.split, nothing.2, List.append_nil]
  refine ⟨?_, by rw [← whole, byteCount_toList]⟩
  rw [whole] at paired ⊢
  rcases List.eq_nil_or_concat' before with rfl | ⟨init, c, rfl⟩
  · exact .inl (String.toList_eq_nil_iff.mp whole)
  · have ends : isLineEnd c = true := by
      by_contra unbroken
      have last := nothing.1
      rw [lastLine_concat, if_neg unbroken] at last
      simp at last
    have feed : c = '\n' := by
      by_contra other
      obtain rfl : c = '\r' := by simpa [isLineEnd, other] using ends
      rw [returnsPaired_append (by simp [Parted])] at paired
      simp [returnsPaired] at paired
    exact .inr (by rw [feed, List.getLast?_concat])

end Cut

end ShapeSchema
