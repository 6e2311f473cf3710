import ShapeSchema.Proofs.CursorMoves
import ShapeSchema.Proofs.TreeMarks
set_option autoImplicit false

/-!
# Trees over tokens

A tree lies over a token list when the tokens write it down and every span in it runs from the start
of the first token of its node to the end of the last. Such a tree is spelled by the tokens, and
each tree that tokens spell lies over them once its spans are put right.
-/

namespace ShapeSchema

/-- The bytes from the start of the first token to the end of the last. -/
def extent (ts : List Token) : ByteSpan :=
  ⟨(ts.head?.map (·.span.start.offset)).getD 0, (ts.getLast?.map (·.span.stop.offset)).getD 0⟩

theorem Cursor.Moves.extent_eq {s s' : Cursor} {t : Token} {us : List Token}
    (h : s.Moves (t :: us) s') :
    extent (t :: us) = ⟨t.span.start.offset, (s'.lastEnd.map Position.offset).getD 0⟩ := by
  rw [h.lastEnd_eq (List.getLast?_eq_some_getLast (List.cons_ne_nil t us)), extent,
    List.getLast?_eq_some_getLast (List.cons_ne_nil t us)]
  rfl

inductive Sequence {α : Type} (R : α → List Token → Prop) : List α → List Token → Prop
  | nil : Sequence R [] []
  | cons {a as us vs} : R a us → Sequence R as vs → Sequence R (a :: as) (us ++ vs)

/-- The items lie over the tokens one after the other, all but the first behind separators. -/
inductive Declared {α : Type} (R : α → List Token → Prop) : List α → List Token → Prop
  | nil : Declared R [] []
  | cons {a as us vs} : R a us →
      Sequence (fun a us => R a us ∧ ∀ t ∈ us.head?, t.isSeparated = true) as vs →
      Declared R (a :: as) (us ++ vs)

namespace Syntax

def Name.Over (n : Name ByteSpan) (t : Token) : Prop :=
  t.kind = .name n.text ∧ n.span = t.span.offsets

inductive BangOver : Option ByteSpan → List Token → Prop
  | none : BangOver none []
  | some {t} : t.kind = .punctuator .bang → BangOver (some t.span.offsets) [t]

inductive TypeExpr.Over : TypeExpr ByteSpan → List Token → Prop
  | named {name bang t us} : name.Over t → BangOver bang us →
      Over (.named name bang (extent (t :: us))) (t :: us)
  | list {element bang t inner u us} : t.kind = .punctuator .bracketOpen → Over element inner →
      u.kind = .punctuator .bracketClose → BangOver bang us →
      Over (.list element bang (extent (t :: (inner ++ u :: us)))) (t :: (inner ++ u :: us))

inductive Parameter.Over : Parameter ByteSpan → List Token → Prop
  | mk {name type t colon us} : name.Over t → colon.kind = .punctuator .colon → type.Over us →
      Over ⟨name, type, extent (t :: colon :: us)⟩ (t :: colon :: us)

inductive Parameter.OverComma : Parameter ByteSpan → List Token → Prop
  | mk {p comma us} : comma.kind = .punctuator .comma → p.Over us → OverComma p (comma :: us)

inductive ParametersOver : List (Parameter ByteSpan) → List Token → Prop
  | none : ParametersOver [] []
  | some {first more paren us vs closing} : paren.kind = .punctuator .parenOpen → first.Over us →
      Sequence Parameter.OverComma more vs → closing.kind = .punctuator .parenClose →
      ParametersOver (first :: more) (paren :: (us ++ vs ++ [closing]))

inductive Field.Over : Field ByteSpan → List Token → Prop
  | mk {name parameters type t us colon vs} : name.Over t → ParametersOver parameters us →
      colon.kind = .punctuator .colon → type.Over vs →
      Over ⟨name, parameters, type, extent (t :: (us ++ colon :: vs))⟩ (t :: (us ++ colon :: vs))

def Name.OverOnly (n : Name ByteSpan) (us : List Token) : Prop := ∃ t, us = [t] ∧ n.Over t

inductive Block.Over : Block ByteSpan → List Token → Prop
  | object {fields brace us closing} : brace.kind = .punctuator .braceOpen →
      Declared Field.Over fields us → closing.kind = .punctuator .braceClose →
      Over (.object fields (extent (brace :: (us ++ [closing])))) (brace :: (us ++ [closing]))
  | enum {values keyword brace us closing} : keyword.kind = .name "enum" →
      brace.kind = .punctuator .braceOpen → Declared Name.OverOnly values us →
      closing.kind = .punctuator .braceClose →
      Over (.enum values (extent (keyword :: brace :: (us ++ [closing]))))
        (keyword :: brace :: (us ++ [closing]))

end Syntax

namespace Spells

variable {m : Mark} {ms ns : List Mark} {t : Token} {ts us vs : List Token}

theorem append (h : Spells ms us) (h' : Spells ns vs) : Spells (ms ++ ns) (us ++ vs) := by
  induction h with
  | nil => exact h'
  | cons head _ ih => exact .cons head ih

theorem append_iff :
    Spells (ms ++ ns) ts ↔ ∃ us vs, ts = us ++ vs ∧ Spells ms us ∧ Spells ns vs := by
  constructor
  · intro h
    refine ⟨ts.take ms.length, ts.drop ms.length, (List.take_append_drop _ _).symm, ?_, ?_⟩
    · have h' := List.forall₂_take ms.length h
      rwa [List.take_left] at h'
    · have h' := List.forall₂_drop ms.length h
      rwa [List.drop_left] at h'
  · rintro ⟨us, vs, rfl, h, h'⟩
    exact h.append h'

theorem cons_iff : Spells (m :: ms) ts ↔ ∃ t us, ts = t :: us ∧ m.Meets t ∧ Spells ms us := by
  constructor
  · rintro (_ | ⟨h, h'⟩)
    exact ⟨_, _, rfl, h, h'⟩
  · rintro ⟨t, us, rfl, h, h'⟩
    exact .cons h h'

theorem exists_mark (h : Spells ms ts) (ht : t ∈ ts) : ∃ m ∈ ms, m.Meets t := by
  induction h with
  | nil => cases ht
  | cons hm _ ih =>
    obtain rfl | ht := List.mem_cons.mp ht
    · exact ⟨_, List.mem_cons_self, hm⟩
    · obtain ⟨m, hmem, hm⟩ := ih ht
      exact ⟨m, List.mem_cons_of_mem _ hmem, hm⟩

theorem exists_token (h : Spells ms ts) (hm : m ∈ ms) : ∃ t ∈ ts, m.Meets t := by
  induction h with
  | nil => cases hm
  | cons meets _ ih =>
    obtain rfl | hm := List.mem_cons.mp hm
    · exact ⟨_, List.mem_cons_self, meets⟩
    · obtain ⟨t, ht, meets⟩ := ih hm
      exact ⟨t, List.mem_cons_of_mem _ ht, meets⟩

theorem nil_iff : Spells [] ts ↔ ts = [] := List.forall₂_nil_left_iff

theorem sign_iff {p : Punctuator} : (Mark.sign p).Meets t ↔ t.kind = .punctuator p := by
  simp [Mark.Meets, Mark.sign]

theorem word_iff {n : String} : (Mark.word n).Meets t ↔ t.kind = .name n := by
  simp [Mark.Meets, Mark.word]

theorem standApart_iff : Spells (Mark.standApart ms) ts ↔
    Spells ms ts ∧ ∀ t ∈ ts.head?, t.isSeparated = true := by
  cases ms with
  | nil =>
    simp only [Mark.standApart, nil_iff]
    constructor
    · rintro rfl
      simp
    · exact And.left
  | cons m ms =>
    simp only [Mark.standApart, cons_iff, Mark.Meets]
    constructor
    · rintro ⟨t, us, rfl, ⟨hk, ha⟩, h⟩
      have ha := ha trivial
      exact ⟨⟨t, us, rfl, ⟨hk, fun _ => ha⟩, h⟩, by rintro _ ⟨⟩; exact ha⟩
    · rintro ⟨⟨t, us, rfl, ⟨hk, -⟩, h⟩, ha⟩
      exact ⟨t, us, rfl, ⟨hk, fun _ => ha t rfl⟩, h⟩

end Spells

theorem Sequence.spells {α : Type} {R : α → List Token → Prop} {f : α → List Mark} {as : List α}
    {us : List Token} (h : Sequence R as us) (hR : ∀ a us, R a us → Spells (f a) us) :
    Spells (as.flatMap f) us := by
  induction h with
  | nil => exact .nil
  | cons ha _ ih => exact (hR _ _ ha).append ih

theorem Sequence.imp {α : Type} {R S : α → List Token → Prop} {as : List α} {us : List Token}
    (h : Sequence R as us) (hRS : ∀ a us, R a us → S a us) : Sequence S as us := by
  induction h with
  | nil => exact .nil
  | cons ha _ ih => exact .cons (hRS _ _ ha) ih

theorem Sequence.and_of_forall {α : Type} {R : α → List Token → Prop} {P : α → Prop} {as : List α}
    {us : List Token} (h : Sequence R as us) (hP : ∀ a ∈ as, P a) :
    Sequence (fun a us => R a us ∧ P a) as us := by
  induction h with
  | nil => exact .nil
  | cons ha _ ih =>
    exact .cons ⟨ha, hP _ List.mem_cons_self⟩ (ih fun a h => hP a (List.mem_cons_of_mem _ h))

theorem Sequence.forall_of_and {α : Type} {R : α → List Token → Prop} {P : α → Prop} {as : List α}
    {us : List Token} (h : Sequence (fun a us => R a us ∧ P a) as us) :
    Sequence R as us ∧ ∀ a ∈ as, P a := by
  induction h with
  | nil => exact ⟨.nil, by simp⟩
  | cons ha _ ih => exact ⟨.cons ha.1 ih.1, by simpa using ⟨ha.2, ih.2⟩⟩

theorem Sequence.of_spells {α β γ : Type} {R : α → List Token → Prop} {f : β → List Mark}
    {e : α → γ} {d : β → γ} {bs : List β} {us : List Token} (h : Spells (bs.flatMap f) us)
    (hR : ∀ b us, Spells (f b) us → ∃ a, R a us ∧ e a = d b) :
    ∃ as, Sequence R as us ∧ as.map e = bs.map d := by
  induction bs generalizing us with
  | nil =>
    rw [Spells.nil_iff.mp h]
    exact ⟨[], .nil, rfl⟩
  | cons b bs ih =>
    obtain ⟨vs, ws, rfl, hb, hbs⟩ := Spells.append_iff.mp h
    obtain ⟨a, ha, hab⟩ := hR b vs hb
    obtain ⟨as, has, hmap⟩ := ih hbs
    exact ⟨a :: as, .cons ha has, by rw [List.map_cons, List.map_cons, hab, hmap]⟩

theorem Declared.forall_of_and {α : Type} {R : α → List Token → Prop} {P : α → Prop}
    {as : List α} {us : List Token} (h : Declared (fun a us => R a us ∧ P a) as us) :
    Declared R as us ∧ ∀ a ∈ as, P a := by
  cases h with
  | nil => exact ⟨.nil, by simp⟩
  | cons ha has =>
    have has := has.imp fun _ _ h => (⟨⟨h.1.1, h.2⟩, h.1.2⟩ : (_ ∧ _) ∧ _)
    obtain ⟨has, hall⟩ := has.forall_of_and
    exact ⟨.cons ha.1 has, by simpa using ⟨ha.2, hall⟩⟩

theorem Declared.and_of_forall {α : Type} {R : α → List Token → Prop} {P : α → Prop}
    {as : List α} {us : List Token} (h : Declared R as us) (hP : ∀ a ∈ as, P a) :
    Declared (fun a us => R a us ∧ P a) as us := by
  cases h with
  | nil => exact .nil
  | cons ha has =>
    have has := has.and_of_forall fun a h => hP a (List.mem_cons_of_mem _ h)
    exact .cons ⟨ha, hP _ List.mem_cons_self⟩ (has.imp fun _ _ h => ⟨⟨h.1.1, h.2⟩, h.1.2⟩)

theorem Declared.spells {α : Type} {R : α → List Token → Prop} {f : α → List Mark} {as : List α}
    {us : List Token} (h : Declared R as us) (hR : ∀ a us, R a us → Spells (f a) us) :
    Spells (Mark.declarations (as.map f)) us := by
  cases h with
  | nil => exact .nil
  | cons ha has =>
    rw [List.map_cons, Mark.declarations, List.flatMap_map]
    refine (hR _ _ ha).append (has.spells ?_)
    intro a us h
    exact Spells.standApart_iff.mpr ⟨hR a us h.1, h.2⟩

theorem Declared.of_spells {α β γ : Type} {R : α → List Token → Prop} {f : β → List Mark}
    {e : α → γ} {d : β → γ} {bs : List β} {us : List Token}
    (h : Spells (Mark.declarations (bs.map f)) us)
    (hR : ∀ b us, Spells (f b) us → ∃ a, R a us ∧ e a = d b) :
    ∃ as, Declared R as us ∧ as.map e = bs.map d := by
  cases bs with
  | nil =>
    rw [Spells.nil_iff.mp h]
    exact ⟨[], .nil, rfl⟩
  | cons b bs =>
    rw [List.map_cons, Mark.declarations, List.flatMap_map] at h
    obtain ⟨vs, ws, rfl, hb, hbs⟩ := Spells.append_iff.mp h
    obtain ⟨a, ha, hab⟩ := hR b vs hb
    obtain ⟨as, has, hmap⟩ := Sequence.of_spells
      (R := fun a us => R a us ∧ ∀ t ∈ us.head?, t.isSeparated = true) (e := e) (d := d) hbs
      (by
        intro b us h
        obtain ⟨h, apart⟩ := Spells.standApart_iff.mp h
        obtain ⟨a, ha, hab⟩ := hR b us h
        exact ⟨a, ⟨ha, apart⟩, hab⟩)
    exact ⟨a :: as, .cons ha has, by rw [List.map_cons, List.map_cons, hab, hmap]⟩

namespace Syntax

variable {σ τ : Type}

theorem BangOver.spells {bang : Option ByteSpan} {us : List Token} (h : BangOver bang us) :
    Spells (bangMarks bang) us := by
  cases h with
  | none => exact .nil
  | some ht => exact .cons (Spells.sign_iff.mpr ht) .nil

theorem BangOver.of_spells {bang : Option σ} {us : List Token} (h : Spells (bangMarks bang) us) :
    ∃ bang', BangOver bang' us ∧ bang'.map (fun _ => ()) = bang.map fun _ => () := by
  cases bang with
  | none =>
    rw [Spells.nil_iff.mp h]
    exact ⟨Option.none, .none, rfl⟩
  | some x =>
    obtain ⟨t, vs, rfl, ht, hv⟩ := Spells.cons_iff.mp h
    rw [Spells.nil_iff.mp hv]
    exact ⟨Option.some t.span.offsets, .some (Spells.sign_iff.mp ht), rfl⟩

theorem Name.over_of_word {n : Name σ} {t : Token} (h : (Mark.word n.text).Meets t) :
    Name.Over ⟨n.text, t.span.offsets⟩ t := ⟨Spells.word_iff.mp h, rfl⟩

theorem TypeExpr.Over.spells {type : TypeExpr ByteSpan} {us : List Token} (h : type.Over us) :
    Spells type.marks us := by
  induction h with
  | named hn hb => exact .cons (Spells.word_iff.mpr hn.1) hb.spells
  | list ht _ hu hb ih =>
    exact .cons (Spells.sign_iff.mpr ht) (ih.append (.cons (Spells.sign_iff.mpr hu) hb.spells))

theorem TypeExpr.Over.of_spells {type : TypeExpr σ} {us : List Token} (h : Spells type.marks us) :
    ∃ type' : TypeExpr ByteSpan, type'.Over us ∧
      type'.map (fun _ => ()) = type.map fun _ => () := by
  induction type generalizing us with
  | named name bang span =>
    obtain ⟨t, vs, rfl, ht, hv⟩ := Spells.cons_iff.mp h
    obtain ⟨bang', hb, same⟩ := BangOver.of_spells hv
    refine ⟨_, .named (Name.over_of_word ht) hb, ?_⟩
    simp [TypeExpr.map, Name.map, same]
  | list element bang span ih =>
    obtain ⟨t, vs, rfl, ht, hv⟩ := Spells.cons_iff.mp h
    obtain ⟨inner, ws, rfl, hi, hw⟩ := Spells.append_iff.mp hv
    obtain ⟨u, xs, rfl, hu, hx⟩ := Spells.cons_iff.mp hw
    obtain ⟨element', he, sameElement⟩ := ih hi
    obtain ⟨bang', hb, sameBang⟩ := BangOver.of_spells hx
    refine ⟨_, .list (Spells.sign_iff.mp ht) he (Spells.sign_iff.mp hu) hb, ?_⟩
    simp [TypeExpr.map, sameElement, sameBang]

theorem Parameter.Over.spells {p : Parameter ByteSpan} {us : List Token} (h : p.Over us) :
    Spells p.marks us := by
  cases h with
  | mk hn hc ht =>
    exact .cons (Spells.word_iff.mpr hn.1) (.cons (Spells.sign_iff.mpr hc) ht.spells)

theorem Parameter.Over.of_spells {p : Parameter σ} {us : List Token} (h : Spells p.marks us) :
    ∃ p' : Parameter ByteSpan, p'.Over us ∧ p'.map (fun _ => ()) = p.map fun _ => () := by
  obtain ⟨t, vs, rfl, ht, hv⟩ := Spells.cons_iff.mp h
  obtain ⟨c, ws, rfl, hc, hw⟩ := Spells.cons_iff.mp hv
  obtain ⟨type', hover, same⟩ := TypeExpr.Over.of_spells hw
  refine ⟨_, .mk (Name.over_of_word ht) (Spells.sign_iff.mp hc) hover, ?_⟩
  simp [Parameter.map, Name.map, same]

theorem ParametersOver.spells {ps : List (Parameter ByteSpan)} {us : List Token}
    (h : ParametersOver ps us) : Spells (parameterMarks ps) us := by
  cases h with
  | none => exact .nil
  | some hp hf hm hc =>
    refine .cons (Spells.sign_iff.mpr hp) (Spells.append (Spells.append hf.spells (hm.spells ?_))
      (.cons (Spells.sign_iff.mpr hc) .nil))
    rintro _ _ ⟨hcomma, hover⟩
    exact .cons (Spells.sign_iff.mpr hcomma) hover.spells

theorem ParametersOver.of_spells {ps : List (Parameter σ)} {us : List Token}
    (h : Spells (parameterMarks ps) us) :
    ∃ ps', ParametersOver ps' us ∧ ps'.map (·.map fun _ => ()) = ps.map (·.map fun _ => ()) := by
  cases ps with
  | nil =>
    rw [Spells.nil_iff.mp h]
    exact ⟨[], .none, rfl⟩
  | cons first more =>
    obtain ⟨paren, vs, rfl, hp, hv⟩ := Spells.cons_iff.mp h
    obtain ⟨ws, xs, rfl, hw, hx⟩ := Spells.append_iff.mp hv
    obtain ⟨ys, zs, rfl, hy, hz⟩ := Spells.append_iff.mp hw
    obtain ⟨closing, rest, rfl, hc, hrest⟩ := Spells.cons_iff.mp hx
    rw [Spells.nil_iff.mp hrest]
    obtain ⟨first', hfirst, sameFirst⟩ := Parameter.Over.of_spells hy
    obtain ⟨more', hmore, sameMore⟩ := Sequence.of_spells (R := Parameter.OverComma)
      (e := (·.map fun _ => ())) (d := (·.map fun _ => ())) hz
      (by
        intro p us h
        obtain ⟨comma, vs, rfl, hcomma, hv⟩ := Spells.cons_iff.mp h
        obtain ⟨p', hover, same⟩ := Parameter.Over.of_spells hv
        exact ⟨p', .mk (Spells.sign_iff.mp hcomma) hover, same⟩)
    refine ⟨first' :: more', .some (Spells.sign_iff.mp hp) hfirst hmore (Spells.sign_iff.mp hc), ?_⟩
    rw [List.map_cons, List.map_cons, sameFirst, sameMore]

theorem Field.Over.spells {d : Field ByteSpan} {us : List Token} (h : d.Over us) :
    Spells d.marks us := by
  cases h with
  | mk hn hp hc ht =>
    exact .cons (Spells.word_iff.mpr hn.1)
      (hp.spells.append (.cons (Spells.sign_iff.mpr hc) ht.spells))

theorem Field.Over.of_spells {d : Field σ} {us : List Token} (h : Spells d.marks us) :
    ∃ d' : Field ByteSpan, d'.Over us ∧ d'.map (fun _ => ()) = d.map fun _ => () := by
  obtain ⟨t, vs, rfl, ht, hv⟩ := Spells.cons_iff.mp h
  obtain ⟨ws, xs, rfl, hw, hx⟩ := Spells.append_iff.mp hv
  obtain ⟨colon, ys, rfl, hc, hy⟩ := Spells.cons_iff.mp hx
  obtain ⟨ps', hps, sameParameters⟩ := ParametersOver.of_spells hw
  obtain ⟨type', htype, sameType⟩ := TypeExpr.Over.of_spells hy
  refine ⟨_, .mk (Name.over_of_word ht) hps (Spells.sign_iff.mp hc) htype, ?_⟩
  simp [Field.map, Name.map, sameParameters, sameType]

theorem Block.Over.spells {b : Block ByteSpan} {us : List Token} (h : b.Over us) :
    Spells b.marks us := by
  cases h with
  | object ho hd hc =>
    exact .cons (Spells.sign_iff.mpr ho)
      ((hd.spells fun _ _ h => h.spells).append (.cons (Spells.sign_iff.mpr hc) .nil))
  | enum hk ho hd hc =>
    refine .cons (Spells.word_iff.mpr hk) (.cons (Spells.sign_iff.mpr ho)
      ((hd.spells ?_).append (.cons (Spells.sign_iff.mpr hc) .nil)))
    rintro _ _ ⟨t, rfl, hn⟩
    exact .cons (Spells.word_iff.mpr hn.1) .nil

theorem Block.Over.of_spells {b : Block σ} {us : List Token} (h : Spells b.marks us) :
    ∃ b' : Block ByteSpan, b'.Over us ∧ b'.bare = b.bare := by
  cases b with
  | object fields span =>
    obtain ⟨brace, vs, rfl, ho, hv⟩ := Spells.cons_iff.mp h
    obtain ⟨ws, xs, rfl, hw, hx⟩ := Spells.append_iff.mp hv
    obtain ⟨closing, ys, rfl, hc, hy⟩ := Spells.cons_iff.mp hx
    rw [Spells.nil_iff.mp hy]
    obtain ⟨fields', hf, same⟩ := Declared.of_spells hw fun _ _ => Field.Over.of_spells
    refine ⟨_, .object (Spells.sign_iff.mp ho) hf (Spells.sign_iff.mp hc), ?_⟩
    simp [Block.bare, Block.map, same]
  | enum values span =>
    obtain ⟨keyword, vs, rfl, hk, hv⟩ := Spells.cons_iff.mp h
    obtain ⟨brace, ws, rfl, ho, hw⟩ := Spells.cons_iff.mp hv
    obtain ⟨xs, ys, rfl, hx, hy⟩ := Spells.append_iff.mp hw
    obtain ⟨closing, zs, rfl, hc, hz⟩ := Spells.cons_iff.mp hy
    rw [Spells.nil_iff.mp hz]
    obtain ⟨values', hd, same⟩ := Declared.of_spells (R := Name.OverOnly)
      (e := (·.map fun _ => ())) (d := (·.map fun _ => ())) hx
      (by
        intro n us h
        obtain ⟨t, vs, rfl, ht, hv⟩ := Spells.cons_iff.mp h
        rw [Spells.nil_iff.mp hv]
        exact ⟨_, ⟨t, rfl, Name.over_of_word ht⟩, rfl⟩)
    refine ⟨_, .enum (Spells.word_iff.mp hk) (Spells.sign_iff.mp ho) hd
      (Spells.sign_iff.mp hc), ?_⟩
    simp [Block.bare, Block.map, same]

end Syntax

end ShapeSchema
