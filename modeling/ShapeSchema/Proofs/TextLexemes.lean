import Mathlib.Data.List.SplitBy
import ShapeSchema.Token.Lexer
set_option autoImplicit false

namespace ShapeSchema

/-- The last of `before` and the first of `after`, where both exist, are in different lexemes. -/
def Border (before after : List Char) : Prop :=
  ∀ a ∈ before.getLast?, ∀ c ∈ after.head?, sameLexeme a c = false

def Lexed : List (List Char) → Prop
  | [] => True
  | run :: more =>
    run ≠ [] ∧ run.IsChain (fun a b => sameLexeme a b) ∧ Border run more.flatten ∧ Lexed more

theorem border_nil_left (after : List Char) : Border [] after := by
  intro a ha
  cases ha

theorem border_append_left {run : List Char} (h : run ≠ []) (before after : List Char) :
    Border (before ++ run) after ↔ Border run after := by
  unfold Border
  rw [List.getLast?_append_of_ne_nil before h]

theorem border_append_right {run : List Char} (h : run ≠ []) (before after : List Char) :
    Border before (run ++ after) ↔ Border before run := by
  unfold Border
  rw [List.head?_append_of_ne_nil run h]

theorem lexed_of_isChain {runs : List (List Char)} (nonempty : [] ∉ runs)
    (inside : ∀ run ∈ runs, run.IsChain fun a b => sameLexeme a b)
    (across : runs.IsChain fun r s => ∃ hr hs, sameLexeme (r.getLast hr) (s.head hs) = false) :
    Lexed runs := by
  induction runs with
  | nil => trivial
  | cons run more ih =>
    have hrun : run ≠ [] := fun h => nonempty (h ▸ List.mem_cons_self)
    have hmore : [] ∉ more := fun h => nonempty (List.mem_cons_of_mem _ h)
    have later := ih hmore (fun r hr => inside r (List.mem_cons_of_mem _ hr)) across.tail
    refine ⟨hrun, inside run List.mem_cons_self, ?_, later⟩
    cases more with
    | nil =>
      intro a _ c hc
      cases hc
    | cons next more =>
      rw [List.flatten_cons, border_append_right later.1]
      obtain ⟨hr, hs, apart⟩ := (List.isChain_cons_cons.mp across).1
      intro a ha c hc
      rw [List.getLast?_eq_some_getLast hr] at ha
      rw [List.head?_eq_some_head hs] at hc
      cases ha
      cases hc
      exact apart

theorem isChain_of_lexed {runs : List (List Char)} (h : Lexed runs) :
    runs.IsChain fun r s => ∃ hr hs, sameLexeme (r.getLast hr) (s.head hs) = false := by
  induction runs with
  | nil => exact .nil
  | cons run more ih =>
    obtain ⟨hrun, -, border, later⟩ := h
    cases more with
    | nil => exact .singleton _
    | cons next more =>
      refine List.isChain_cons_cons.mpr ⟨⟨hrun, later.1, ?_⟩, ih later⟩
      rw [List.flatten_cons, border_append_right later.1] at border
      exact border _ (List.getLast_mem_getLast? hrun) _ (List.head_mem_head? later.1)

theorem lexed_lexemes (cs : List Char) : Lexed (lexemes cs) :=
  lexed_of_isChain (List.nil_notMem_splitBy _ cs) (fun _ => List.isChain_of_mem_splitBy)
    (List.isChain_getLast_head_splitBy _ cs)

theorem flatten_lexemes (cs : List Char) : (lexemes cs).flatten = cs := List.flatten_splitBy _ cs

theorem Lexed.forall {runs : List (List Char)} (h : Lexed runs) :
    ∀ run ∈ runs, run ≠ [] ∧ run.IsChain fun a b => sameLexeme a b := by
  induction runs with
  | nil => simp
  | cons run more ih => exact List.forall_mem_cons.mpr ⟨⟨h.1, h.2.1⟩, ih h.2.2.2⟩

/-- Only lexemes split a text in this way. -/
theorem lexemes_flatten {runs : List (List Char)} (h : Lexed runs) :
    lexemes runs.flatten = runs :=
  List.splitBy_flatten (fun hn => (h.forall [] hn).1 rfl) (fun run hr => (h.forall run hr).2)
    (isChain_of_lexed h)

theorem not_isNameChar_of_isWhitespace {c : Char} (h : isWhitespace c = true) :
    isNameChar c = false :=
  not_isNameChar_of_isSeparator (by simp [isSeparator, h])

theorem not_isWhitespace_of_isNameChar {c : Char} (h : isNameChar c = true) :
    isWhitespace c = false := by
  by_contra hw
  rw [Bool.not_eq_false] at hw
  rw [not_isNameChar_of_isWhitespace hw] at h
  cases h

theorem isWhitespace_of_sameLexeme {a b : Char} (h : sameLexeme a b = true) :
    isWhitespace a = isWhitespace b := by
  simp only [sameLexeme, Bool.or_eq_true, Bool.and_eq_true] at h
  rcases h with ⟨ha, hb⟩ | ⟨ha, hb⟩
  · rw [ha, hb]
  · rw [not_isWhitespace_of_isNameChar ha, not_isWhitespace_of_isNameChar hb]

theorem isNameChar_of_sameLexeme {a b : Char} (h : sameLexeme a b = true) :
    isNameChar a = isNameChar b := by
  simp only [sameLexeme, Bool.or_eq_true, Bool.and_eq_true] at h
  rcases h with ⟨ha, hb⟩ | ⟨ha, hb⟩
  · rw [not_isNameChar_of_isWhitespace ha, not_isNameChar_of_isWhitespace hb]
  · rw [ha, hb]

theorem eq_of_isChain {α : Type} {f : Char → α}
    (shared : ∀ {a b}, sameLexeme a b = true → f a = f b) {c : Char} {rest : List Char}
    (h : (c :: rest).IsChain fun a b => sameLexeme a b) : ∀ d ∈ c :: rest, f d = f c := by
  induction rest generalizing c with
  | nil => simp
  | cons d rest ih =>
    obtain ⟨hcd, h⟩ := List.isChain_cons_cons.mp h
    have same := shared hcd
    intro e he
    rcases List.mem_cons.mp he with rfl | he
    · rfl
    · rw [ih h e he, same]

theorem rest_eq_nil_of_isChain {c : Char} {rest : List Char}
    (h : (c :: rest).IsChain fun a b => sameLexeme a b) (hw : isWhitespace c = false)
    (hn : isNameChar c = false) : rest = [] := by
  cases rest with
  | nil => rfl
  | cons d rest =>
    have hcd : sameLexeme c d = true := (List.isChain_cons_cons.mp h).1
    simp [sameLexeme, hw, hn] at hcd

end ShapeSchema
