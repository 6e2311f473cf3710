import ShapeSchema.Proofs.WrittenTypes
import ShapeSchema.Token.CharClass
set_option autoImplicit false

namespace ShapeSchema

variable {H K : Type}

theorem takeWhile_append_of_head {p : Char → Bool} {run rest : List Char}
    (inside : ∀ c ∈ run, p c = true) (behind : ∀ c ∈ rest.head?, p c = false) :
    (run ++ rest).takeWhile p = run := by
  rw [List.takeWhile_append_of_pos inside]
  cases rest with
  | nil => rw [List.takeWhile_nil, List.append_nil]
  | cons c rest =>
    have stop : ¬p c = true := by simp [behind c rfl]
    rw [List.takeWhile_cons_of_neg stop, List.append_nil]

theorem run_append_inj {p : Char → Bool} {run run' rest rest' : List Char}
    (inside : ∀ c ∈ run, p c = true) (inside' : ∀ c ∈ run', p c = true)
    (behind : ∀ c ∈ rest.head?, p c = false) (behind' : ∀ c ∈ rest'.head?, p c = false)
    (h : run ++ rest = run' ++ rest') : run = run' ∧ rest = rest' := by
  have same : run = run' := by
    rw [← takeWhile_append_of_head inside behind, h, takeWhile_append_of_head inside' behind']
  subst same
  exact ⟨rfl, List.append_cancel_left h⟩

namespace ResolvedType

/-- No first character of `rest` could go on with a type written in front of it. -/
def Ends (rest : List Char) : Prop := ∀ c ∈ rest.head?, isNameChar c = false ∧ c ≠ '!'

theorem Ends.nil : Ends [] := by
  rintro c ⟨⟩

theorem Ends.bracket (rest : List Char) : Ends (']' :: rest) := by
  rintro c ⟨⟩
  decide

theorem Ends.not_isNameChar {rest : List Char} (h : Ends rest) (nullable : Bool) :
    ∀ c ∈ (bangUnless nullable ++ rest).head?, isNameChar c = false := by
  cases nullable with
  | true => exact fun c hc => (h c hc).1
  | false => rintro c ⟨⟩; decide

theorem bangUnless_append_inj {nullable nullable' : Bool} {rest rest' : List Char}
    (ends : Ends rest) (others : Ends rest')
    (h : bangUnless nullable ++ rest = bangUnless nullable' ++ rest') :
    nullable = nullable' ∧ rest = rest' := by
  cases nullable <;> cases nullable'
  · exact ⟨rfl, (List.cons.inj h).2⟩
  · exact absurd rfl (others '!' (by rw [← show '!' :: rest = rest' from h]; rfl)).2
  · exact absurd rfl (ends '!' (by rw [show rest = '!' :: rest' from h]; rfl)).2
  · exact ⟨rfl, h⟩

theorem named_append_ne {name : String} (valid : isValidName name = true) (rest rest' : List Char) :
    name.toList ++ rest ≠ '[' :: rest' := by
  obtain ⟨c, cs, hname, -, inside⟩ := exists_cons_of_isValidName valid
  rw [hname]
  intro h
  have bracket : isNameChar '[' = true := (List.cons.inj h).1 ▸ inside c List.mem_cons_self
  exact absurd bracket (by decide)

/-- Two written types that begin the same characters are equivalent, and end at the same place. -/
theorem chars_append_inj {a : ResolvedType H} {b : ResolvedType K} {rest rest' : List Char}
    (valid : isValidName a.leafName = true) (valid' : isValidName b.leafName = true)
    (ends : Ends rest) (ends' : Ends rest') (h : a.chars ++ rest = b.chars ++ rest') :
    a.isEquivalent b = true ∧ rest = rest' := by
  rw [← charsThen_eq, ← charsThen_eq] at h
  induction a generalizing b rest rest' with
  | named name nullable meaning =>
    cases b with
    | list element' nullable' => exact absurd h (named_append_ne valid _ _)
    | named name' nullable' meaning' =>
      obtain ⟨c, cs, hname, -, inside⟩ := exists_cons_of_isValidName valid
      obtain ⟨c', cs', hname', -, inside'⟩ := exists_cons_of_isValidName valid'
      obtain ⟨names, behind⟩ := run_append_inj (hname ▸ inside) (hname' ▸ inside')
        (ends.not_isNameChar nullable) (ends'.not_isNameChar nullable') h
      obtain ⟨rfl, rest⟩ := bangUnless_append_inj ends ends' behind
      exact ⟨by simp [isEquivalent, String.toList_inj.mp names], rest⟩
  | list element nullable ih =>
    cases b with
    | named name' nullable' meaning' => exact absurd h.symm (named_append_ne valid' _ _)
    | list element' nullable' =>
      obtain ⟨equivalent, behind⟩ := ih (b := element') valid valid' (Ends.bracket _)
        (Ends.bracket _) (List.cons.inj h).2
      obtain ⟨rfl, rest⟩ := bangUnless_append_inj ends ends' (List.cons.inj behind).2
      exact ⟨by simp [isEquivalent, equivalent], rest⟩

/-- Types with names for their leaves are equivalent exactly when their texts are equal. -/
theorem isEquivalent_iff_text_eq {a : ResolvedType H} {b : ResolvedType K}
    (valid : isValidName a.leafName = true) (valid' : isValidName b.leafName = true) :
    a.isEquivalent b = true ↔ a.text = b.text := by
  constructor
  · intro equivalent
    rw [text, text, chars_eq_of_isEquivalent equivalent]
  · intro same
    have written : a.chars ++ [] = b.chars ++ [] := by
      rw [List.append_nil, List.append_nil]
      exact String.ofList_injective same
    exact (chars_append_inj valid valid' .nil .nil written).1

theorem isEquivalent_iff_text_eq_list :
    ∃ (a : ResolvedType Nat) (b c : ResolvedType String),
      a.leafResolution = .environment 7 ∧ b.leafResolution = .unresolved ∧
      a.text = "[[T]!]" ∧ b.text = "[[T]!]" ∧ c.text = "[[T!]]" ∧
      a.isEquivalent b = true ∧ a.isEquivalent c = false := by
  let a : ResolvedType Nat := .list (.list (.named "T" true (.environment 7)) false) true
  let b : ResolvedType String := .list (.list (.named "T" true .unresolved) false) true
  let c : ResolvedType String := .list (.list (.named "T" false (.environment "t")) true) true
  have valid : isValidName "T" = true := by decide
  have alike : a.isEquivalent b = true ↔ a.text = b.text := isEquivalent_iff_text_eq valid valid
  have apart : a.isEquivalent c = true ↔ a.text = c.text := isEquivalent_iff_text_eq valid valid
  have differ : a.text ≠ c.text := by decide
  refine ⟨a, b, c, rfl, rfl, by decide, by decide, by decide, alike.mpr rfl, ?_⟩
  exact Bool.eq_false_iff.mpr (mt apart.mp differ)

/-- A leaf that is no name can hold the exclamation mark of another type. -/
example : ∃ a b : ResolvedType Nat, a.text = b.text ∧ a.isEquivalent b = false :=
  ⟨.named "T!" true .unresolved, .named "T" false .unresolved, by decide⟩

end ResolvedType

end ShapeSchema
