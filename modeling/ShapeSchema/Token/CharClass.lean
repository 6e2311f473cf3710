import ShapeSchema.Token
set_option autoImplicit false

namespace ShapeSchema

/-- Space, tab, both line end characters and the byte order mark. -/
def isWhitespace (c : Char) : Bool :=
  c == ' ' || c == '\t' || c == '\n' || c == '\r' || c == '\uFEFF'

def isSeparator (c : Char) : Bool := c == ';' || isWhitespace c

def isPunctuator (c : Char) : Bool := (Punctuator.ofChar? c).isSome

def isNameStart (c : Char) : Bool := c == '_' || c.isAlpha

def isNameChar (c : Char) : Bool := c == '_' || c.isAlphanum

def isValidName (name : String) : Bool :=
  match name.toList with
  | [] => false
  | c :: rest => isNameStart c && rest.all isNameChar

theorem isNameChar_of_isNameStart {c : Char} (h : isNameStart c) : isNameChar c := by
  simp only [isNameStart, isNameChar, Char.isAlphanum, Bool.or_eq_true] at h ⊢
  exact h.imp_right .inl

theorem exists_cons_of_isValidName {name : String} (h : isValidName name = true) :
    ∃ c rest, name.toList = c :: rest ∧ isNameStart c = true ∧
      ∀ d ∈ c :: rest, isNameChar d = true := by
  unfold isValidName at h
  cases hname : name.toList with
  | nil => rw [hname] at h; cases h
  | cons c rest =>
    rw [hname, Bool.and_eq_true, List.all_eq_true] at h
    exact ⟨c, rest, rfl, h.1, List.forall_mem_cons.mpr ⟨isNameChar_of_isNameStart h.1, h.2⟩⟩

theorem not_isNameChar_of_isSeparator {c : Char} (h : isSeparator c) : isNameChar c = false := by
  simp only [isSeparator, isWhitespace, Bool.or_eq_true, beq_iff_eq] at h
  rcases h with h | (((h | h) | h) | h) | h <;> subst h <;> decide

theorem not_isPunctuator_of_isSeparator {c : Char} (h : isSeparator c) :
    isPunctuator c = false := by
  simp only [isSeparator, isWhitespace, Bool.or_eq_true, beq_iff_eq] at h
  rcases h with h | (((h | h) | h) | h) | h <;> subst h <;> decide

theorem not_isNameChar_char (p : Punctuator) : isNameChar p.char = false := by
  cases p <;> decide

end ShapeSchema
