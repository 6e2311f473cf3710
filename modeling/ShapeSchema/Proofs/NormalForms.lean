import Mathlib.Logic.Relation
import Mathlib.Order.WellFounded
import ShapeSchema.Proofs.SparedSeparators
set_option autoImplicit false

/-!
# Canonical texts are normal forms

The canonical form is computed in one pass and recognized in another. Here both are tied to what
they stand for: a text is recognized as canonical just when making it canonical changes nothing; and
the canonical form is the one text that is left when local rules take spacing out of a text for as
long as there is any to take, in whatever order.
-/

namespace ShapeSchema

theorem squeeze_of_isSqueezed {before : Option Char} {cs : List Char}
    (h : isSqueezed before cs = true) : squeeze before false cs = cs := by
  induction cs generalizing before with
  | nil => rfl
  | cons c rest ih =>
    rw [isSqueezed, Bool.and_eq_true] at h
    obtain ⟨here, later⟩ := h
    cases hc : isSeparator c with
    | false => rw [squeeze_other hc, ih later, Bool.false_and, if_neg Bool.false_ne_true,
        List.nil_append]
    | true =>
      rw [hc, Bool.not_true, Bool.false_or, Bool.and_eq_true, beq_iff_eq,
        Option.any_eq_true] at here
      obtain ⟨rfl, next, hnext, keeps⟩ := here
      obtain ⟨more, rfl⟩ := List.head?_eq_some_iff.mp hnext
      rw [Bool.and_eq_true, Bool.not_eq_true'] at keeps
      -- the induction hypothesis speaks of `next :: more`; what it says of `more` is needed
      have tail := ih later
      rw [squeeze_other keeps.1, Bool.false_and, if_neg Bool.false_ne_true, List.nil_append] at tail
      rw [squeeze_separator hc, squeeze_other keeps.1, Bool.true_and, if_pos keeps.2, tail,
        List.singleton_append]

theorem canonical_eq_of_isCanonical {text : String} (h : isCanonical text = true) :
    canonical text = text := by
  rw [canonical, squeeze_of_isSqueezed h, String.ofList_toList]

/-- Making a text canonical yields a canonical text, and changes the texts that are not canonical
    yet and no others. -/
theorem canonical_fixed (text : String) :
    isCanonical (canonical text) = true ∧ canonical (canonical text) = canonical text ∧
      (isCanonical text = true ↔ canonical text = text) := by
  have reached := isCanonical_canonical text
  refine ⟨reached, canonical_eq_of_isCanonical reached, canonical_eq_of_isCanonical, ?_⟩
  intro fixed
  rw [← fixed]
  exact reached

namespace Spacing

/-- One application of a local rule that takes spacing out of a text. -/
inductive Step : List Char → List Char → Prop
  /-- Any separator may become a space. -/
  | blank {c : Char} (front rest : List Char) : isSeparator c = true →
      Step (front ++ c :: rest) (front ++ ' ' :: rest)
  /-- Two neighbouring separators become one space. -/
  | merge {c d : Char} (front rest : List Char) : isSeparator c = true → isSeparator d = true →
      Step (front ++ c :: d :: rest) (front ++ ' ' :: rest)
  | trimStart {c : Char} (rest : List Char) : isSeparator c = true → Step (c :: rest) rest
  | trimEnd {c : Char} (front : List Char) : isSeparator c = true → Step (front ++ [c]) front
  /-- A lone separator goes where no separator has to stay. -/
  | drop {a c b : Char} (front rest : List Char) : isSeparator a = false → isSeparator c = true →
      isSeparator b = false → keepsSeparator a b = false →
      Step (front ++ a :: c :: b :: rest) (front ++ a :: b :: rest)

def Changes (cs ds : List Char) : Prop := Step cs ds ∧ cs ≠ ds

/-- No rule changes the text. -/
def Settled (cs : List Char) : Prop := ∀ ds, ¬ Changes cs ds

/-- The characters of a text, separators other than the space counted twice. -/
def weight (cs : List Char) : Nat := cs.length + cs.countP fun c => isSeparator c && c != ' '

theorem weight_append (cs ds : List Char) : weight (cs ++ ds) = weight cs + weight ds := by
  simp only [weight, List.length_append, List.countP_append]
  omega

theorem weight_cons_le (c : Char) (cs : List Char) : weight cs + 1 ≤ weight (c :: cs) := by
  simp only [weight, List.length_cons, List.countP_cons]
  omega

theorem weight_space (cs : List Char) : weight (' ' :: cs) = weight cs + 1 := by
  have space : (isSeparator ' ' && ' ' != ' ') = false := by decide
  simp only [weight, List.length_cons, List.countP_cons, space, Bool.false_eq_true, if_false]
  omega

theorem weight_separator {c : Char} (h : isSeparator c = true) (other : c ≠ ' ') (cs : List Char) :
    weight (c :: cs) = weight cs + 2 := by
  have counted : (isSeparator c && c != ' ') = true := by simp [h, other]
  simp only [weight, List.length_cons, List.countP_cons, counted, if_true]
  omega

theorem weight_lt_of_changes {cs ds : List Char} (h : Changes cs ds) : weight ds < weight cs := by
  obtain ⟨step, differ⟩ := h
  cases step with
  | @blank c front rest hc =>
    have other : c ≠ ' ' := fun same => differ (by rw [same])
    rw [weight_append, weight_append, weight_space, weight_separator hc other]
    omega
  | @merge c d front rest =>
    have first := weight_cons_le c (d :: rest)
    have second := weight_cons_le d rest
    rw [weight_append, weight_append, weight_space]
    omega
  | @trimStart c => exact weight_cons_le c ds
  | @trimEnd c =>
    have last := weight_cons_le c []
    rw [weight_append]
    omega
  | @drop a c b front rest =>
    have first := weight_append (front ++ [a]) (c :: b :: rest)
    have second := weight_append (front ++ [a]) (b :: rest)
    have dropped := weight_cons_le c (b :: rest)
    rw [List.append_assoc, List.singleton_append] at first second
    omega

theorem wellFounded_changes : WellFounded fun ds cs => Changes cs ds :=
  Subrelation.wf weight_lt_of_changes (measure weight).wf

theorem squeeze_append_congr {cs ds : List Char}
    (same : ∀ before gap, squeeze before gap cs = squeeze before gap ds) (front : List Char)
    (before : Option Char) (gap : Bool) :
    squeeze before gap (front ++ cs) = squeeze before gap (front ++ ds) := by
  induction front generalizing before gap with
  | nil => exact same before gap
  | cons c front ih =>
    rw [List.cons_append, List.cons_append]
    cases hc : isSeparator c with
    | true => rw [squeeze_separator hc, squeeze_separator hc, ih]
    | false => rw [squeeze_other hc, squeeze_other hc, ih]

theorem squeeze_none (gap : Bool) (cs : List Char) :
    squeeze none gap cs = squeeze none false cs := by
  cases cs with
  | nil => rfl
  | cons c rest =>
    cases hc : isSeparator c with
    | true => rw [squeeze_separator hc, squeeze_separator hc]
    | false =>
      rw [squeeze_other hc, squeeze_other hc, Option.any_none, Bool.and_false, Bool.and_false]

/-- No rule changes what the text is squeezed to. -/
theorem squeeze_eq_of_step {cs ds : List Char} (h : Step cs ds) :
    squeeze none false cs = squeeze none false ds := by
  have space : isSeparator ' ' = true := by decide
  cases h with
  | blank front rest hc =>
    refine squeeze_append_congr (fun before gap => ?_) front none false
    rw [squeeze_separator hc, squeeze_separator space]
  | merge front rest hc hd =>
    refine squeeze_append_congr (fun before gap => ?_) front none false
    rw [squeeze_separator hc, squeeze_separator hd, squeeze_separator space]
  | trimStart _ hc => rw [squeeze_separator hc, squeeze_none]
  | trimEnd _ hc =>
    have last (before : Option Char) (gap : Bool) :
        squeeze before gap [_] = squeeze before gap [] := squeeze_separator hc before gap []
    rw [squeeze_append_congr last, List.append_nil]
  | drop front rest ha hc hb hab =>
    refine squeeze_append_congr (fun before gap => ?_) front none false
    rw [squeeze_other ha, squeeze_other ha, squeeze_separator hc, squeeze_other hb, squeeze_other hb,
      Option.any_some, hab]
    rfl

theorem squeeze_eq_of_reaches {cs ds : List Char} (h : Relation.ReflTransGen Step cs ds) :
    squeeze none false cs = squeeze none false ds := by
  induction h with
  | refl => rfl
  | tail _ step ih => exact ih.trans (squeeze_eq_of_step step)

theorem not_step_of_settled {cs ds : List Char} (settled : Settled cs)
    (shorter : ds.length < cs.length) : ¬ Step cs ds := by
  intro step
  refine settled ds ⟨step, ?_⟩
  rintro rfl
  exact Nat.lt_irrefl _ shorter

/-- What a settled text can have at a separator `c`: the separator is a space, and its neighbours
    are two other characters between which it has to stay. -/
theorem Settled.separator {front rest : List Char} {c : Char}
    (settled : Settled (front ++ c :: rest)) (hc : isSeparator c = true) :
    c = ' ' ∧ ∃ a ∈ front.getLast?, ∃ b ∈ rest.head?,
      isSeparator b = false ∧ keepsSeparator a b = true := by
  have blank : c = ' ' := by
    by_contra other
    refine settled _ ⟨.blank front rest hc, ?_⟩
    simpa using other
  refine ⟨blank, ?_⟩
  rcases List.eq_nil_or_concat' front with rfl | ⟨front, a, rfl⟩
  · exact absurd (.trimStart rest hc) (not_step_of_settled settled (by simp))
  cases rest with
  | nil => exact absurd (.trimEnd _ hc) (not_step_of_settled settled (by simp))
  | cons b rest =>
    have hb : isSeparator b = false := by
      by_contra hb
      exact not_step_of_settled settled (by simp) (.merge _ rest hc (by simpa using hb))
    rw [List.append_assoc, List.singleton_append] at settled
    have ha : isSeparator a = false := by
      by_contra ha
      exact not_step_of_settled settled (by simp) (.merge front (b :: rest) (by simpa using ha) hc)
    refine ⟨a, by simp, b, rfl, hb, ?_⟩
    by_contra hab
    exact not_step_of_settled settled (by simp) (.drop front rest ha hc hb (by simpa using hab))

theorem isSqueezed_of_settled {front cs : List Char} (settled : Settled (front ++ cs)) :
    isSqueezed front.getLast? cs = true := by
  induction cs generalizing front with
  | nil => rfl
  | cons c rest ih =>
    have later : isSqueezed (front ++ [c]).getLast? rest = true := ih (by simpa using settled)
    rw [List.getLast?_concat] at later
    rw [isSqueezed, later, Bool.and_true]
    cases hc : isSeparator c with
    | false => rfl
    | true =>
      obtain ⟨blank, a, ha, b, hb, other, keeps⟩ := settled.separator hc
      rw [Option.mem_def] at ha hb
      rw [blank, ha, hb]
      simp [other, keeps]

theorem squeeze_of_settled {cs : List Char} (settled : Settled cs) :
    squeeze none false cs = cs := by
  have squeezed : isSqueezed ([] : List Char).getLast? cs = true := isSqueezed_of_settled settled
  exact squeeze_of_isSqueezed squeezed

/-- As long as rules change the text, one can be applied. -/
theorem exists_settled (cs : List Char) :
    ∃ ds, Relation.ReflTransGen Step cs ds ∧ Settled ds := by
  induction cs using wellFounded_changes.induction with
  | _ cs ih =>
    by_cases settled : Settled cs
    · exact ⟨cs, .refl, settled⟩
    · obtain ⟨next, change⟩ : ∃ next, Changes cs next := by simpa [Settled] using settled
      obtain ⟨ds, reaches, last⟩ := ih next change
      exact ⟨ds, .head change.1 reaches, last⟩

/-- Rules cannot change a text forever. In whatever order they are applied, only the canonical form
    is settled; and they can be applied so that it is reached. -/
theorem canonical_only_settled (text : String) :
    (¬ ∃ run : ℕ → List Char, run 0 = text.toList ∧ ∀ n, Changes (run n) (run (n + 1))) ∧
    (∀ last, Relation.ReflTransGen Step text.toList last → Settled last →
      String.ofList last = canonical text) ∧
    Relation.ReflTransGen Step text.toList (canonical text).toList ∧
      Settled (canonical text).toList := by
  have only (last : List Char) (reaches : Relation.ReflTransGen Step text.toList last)
      (settled : Settled last) : String.ofList last = canonical text := by
    rw [canonical, squeeze_eq_of_reaches reaches, squeeze_of_settled settled]
  refine ⟨?_, only, ?_⟩
  · rintro ⟨run, -, changes⟩
    exact (acc_iff_isEmpty_descending_chain.mp (wellFounded_changes.apply (run 0))).false
      ⟨run, rfl, changes⟩
  · obtain ⟨last, reaches, settled⟩ := exists_settled text.toList
    rw [← only last reaches settled, String.toList_ofList]
    exact ⟨reaches, settled⟩

theorem canonical_only_settled_two_names :
    Relation.ReflTransGen Step "a\n;b :C".toList "a b:C".toList ∧ Settled "a b:C".toList ∧
      String.ofList "a b:C".toList = canonical "a\n;b :C" := by
  have merged : Step "a\n;b :C".toList "a b :C".toList :=
    .merge ['a'] ['b', ' ', ':', 'C'] (by decide) (by decide)
  have dropped : Step "a b :C".toList "a b:C".toList :=
    .drop ['a', ' '] ['C'] (by decide) (by decide) (by decide) (by decide)
  have settled : Settled "a b:C".toList := (canonical_only_settled "a b:C").2.2.2
  have reaches : Relation.ReflTransGen Step "a\n;b :C".toList "a b:C".toList :=
    .tail (.single merged) dropped
  exact ⟨reaches, settled, (canonical_only_settled "a\n;b :C").2.1 _ reaches settled⟩

end Spacing

end ShapeSchema
