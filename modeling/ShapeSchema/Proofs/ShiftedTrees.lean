import ShapeSchema.Proofs.TreeOver
set_option autoImplicit false

namespace ShapeSchema

def ByteSpan.shift (n : Nat) (s : ByteSpan) : ByteSpan := ⟨s.start + n, s.stop + n⟩

/-- The token `t` is `u` moved by `n` bytes. Separators may have come in front of it. -/
structure Token.Moved (n : Nat) (t u : Token) : Prop where
  kind : t.kind = u.kind
  span : t.span.offsets = u.span.offsets.shift n
  apart : u.isSeparated = true → t.isSeparated = true

abbrev Moved (n : Nat) (ts us : List Token) : Prop := List.Forall₂ (Token.Moved n) ts us

namespace Moved

variable {n : Nat} {ts us vs : List Token} {u : Token}

theorem append_iff : Moved n ts (us ++ vs) ↔
    ∃ left right, ts = left ++ right ∧ Moved n left us ∧ Moved n right vs := by
  constructor
  · intro h
    exact ⟨ts.take us.length, ts.drop us.length, (List.take_append_drop _ _).symm,
      List.forall₂_take_append ts us vs h, List.forall₂_drop_append ts us vs h⟩
  · rintro ⟨left, right, rfl, hl, hr⟩
    exact List.rel_append hl hr

theorem cons_iff : Moved n ts (u :: us) ↔
    ∃ t left, ts = t :: left ∧ t.Moved n u ∧ Moved n left us := by
  rw [Moved, List.forall₂_cons_right_iff]
  constructor
  · rintro ⟨t, left, ht, hl, rfl⟩
    exact ⟨t, left, rfl, ht, hl⟩
  · rintro ⟨t, left, rfl, ht, hl⟩
    exact ⟨t, left, ht, hl, rfl⟩

theorem nil_iff : Moved n ts [] ↔ ts = [] := List.forall₂_nil_right_iff

theorem head_apart (h : Moved n ts us) (apart : ∀ u ∈ us.head?, u.isSeparated = true) :
    ∀ t ∈ ts.head?, t.isSeparated = true := by
  cases h with
  | nil => simp
  | cons ht _ => simpa using ht.apart (apart _ rfl)

theorem extent (h : Moved n ts us) (nonempty : us ≠ []) : extent ts = (extent us).shift n := by
  obtain ⟨init, last, rfl⟩ := us.eq_nil_or_concat.resolve_left nonempty
  rw [List.concat_eq_append] at h ⊢
  obtain ⟨left, right, rfl, hl, hr⟩ := append_iff.mp h
  obtain ⟨t, _, rfl, ht, hnil⟩ := cons_iff.mp hr
  rw [nil_iff.mp hnil]
  have start : ((left ++ [t]).head?.map (·.span.start.offset)).getD 0 =
      ((init ++ [last]).head?.map (·.span.start.offset)).getD 0 + n := by
    cases hl with
    | nil => exact congrArg ByteSpan.start ht.span
    | cons hu _ => exact congrArg ByteSpan.start hu.span
  have stop : t.span.stop.offset = last.span.stop.offset + n := congrArg ByteSpan.stop ht.span
  rw [ShapeSchema.extent, ShapeSchema.extent, start, ByteSpan.shift]
  simp [stop]

end Moved

section Lists

variable {α : Type} {R : α → List Token → Prop} {f : α → α} {as : List α} {n : Nat}
  {ts us : List Token}

theorem Sequence.moved (h : Sequence R as us) (hm : Moved n ts us)
    (hR : ∀ a us ts, R a us → Moved n ts us → R (f a) ts) : Sequence R (as.map f) ts := by
  induction h generalizing ts with
  | nil =>
    rw [Moved.nil_iff.mp hm]
    exact .nil
  | cons ha _ ih =>
    obtain ⟨left, right, rfl, hl, hr⟩ := Moved.append_iff.mp hm
    exact .cons (hR _ _ _ ha hl) (ih hr)

theorem Declared.moved (h : Declared R as us) (hm : Moved n ts us)
    (hR : ∀ a us ts, R a us → Moved n ts us → R (f a) ts) : Declared R (as.map f) ts := by
  cases h with
  | nil =>
    rw [Moved.nil_iff.mp hm]
    exact .nil
  | cons ha has =>
    obtain ⟨left, right, rfl, hl, hr⟩ := Moved.append_iff.mp hm
    refine .cons (hR _ _ _ ha hl) (has.moved hr fun a us ts h hm => ?_)
    exact ⟨hR a us ts h.1 hm, hm.head_apart h.2⟩

end Lists

namespace Syntax

variable {n : Nat} {ts us : List Token}

theorem Name.Over.moved {name : Name ByteSpan} {t u : Token} (h : name.Over u)
    (hm : t.Moved n u) : (name.map (·.shift n)).Over t :=
  ⟨hm.kind.trans h.1, by rw [hm.span, ← h.2]; rfl⟩

theorem Name.OverOnly.moved {name : Name ByteSpan} (h : name.OverOnly us) (hm : Moved n ts us) :
    (name.map (·.shift n)).OverOnly ts := by
  obtain ⟨u, rfl, hu⟩ := h
  obtain ⟨t, _, rfl, ht, hnil⟩ := Moved.cons_iff.mp hm
  rw [Moved.nil_iff.mp hnil]
  exact ⟨t, rfl, hu.moved ht⟩

theorem BangOver.moved {bang : Option ByteSpan} (h : BangOver bang us) (hm : Moved n ts us) :
    BangOver (bang.map (·.shift n)) ts := by
  cases h with
  | none =>
    rw [Moved.nil_iff.mp hm]
    exact .none
  | some hu =>
    obtain ⟨t, _, rfl, ht, hnil⟩ := Moved.cons_iff.mp hm
    rw [Moved.nil_iff.mp hnil, Option.map_some, ← ht.span]
    exact .some (ht.kind.trans hu)

theorem TypeExpr.Over.moved {type : TypeExpr ByteSpan} (h : type.Over us) (hm : Moved n ts us) :
    (type.map (·.shift n)).Over ts := by
  induction h generalizing ts with
  | named hn hb =>
    have whole := hm.extent (List.cons_ne_nil _ _)
    obtain ⟨t, left, rfl, ht, hl⟩ := Moved.cons_iff.mp hm
    rw [map, ← whole]
    exact .named (hn.moved ht) (hb.moved hl)
  | list hu _ hv hb ih =>
    have whole := hm.extent (List.cons_ne_nil _ _)
    obtain ⟨t, left, rfl, ht, hl⟩ := Moved.cons_iff.mp hm
    obtain ⟨inner, right, rfl, hi, hr⟩ := Moved.append_iff.mp hl
    obtain ⟨v, tail, rfl, hv', htail⟩ := Moved.cons_iff.mp hr
    rw [map, ← whole]
    exact .list (ht.kind.trans hu) (ih hi) (hv'.kind.trans hv) (hb.moved htail)

theorem Parameter.Over.moved {p : Parameter ByteSpan} (h : p.Over us) (hm : Moved n ts us) :
    (p.map (·.shift n)).Over ts := by
  cases h with
  | mk hn hc ht =>
    have whole := hm.extent (List.cons_ne_nil _ _)
    obtain ⟨t, left, rfl, hname, hl⟩ := Moved.cons_iff.mp hm
    obtain ⟨colon, right, rfl, hcolon, hr⟩ := Moved.cons_iff.mp hl
    rw [map, ← whole]
    exact .mk (hn.moved hname) (hcolon.kind.trans hc) (ht.moved hr)

theorem Parameter.OverComma.moved {p : Parameter ByteSpan} (h : p.OverComma us)
    (hm : Moved n ts us) : (p.map (·.shift n)).OverComma ts := by
  cases h with
  | mk hc hp =>
    obtain ⟨comma, left, rfl, hcomma, hl⟩ := Moved.cons_iff.mp hm
    exact .mk (hcomma.kind.trans hc) (hp.moved hl)

theorem ParametersOver.moved {ps : List (Parameter ByteSpan)} (h : ParametersOver ps us)
    (hm : Moved n ts us) : ParametersOver (ps.map (·.map (·.shift n))) ts := by
  cases h with
  | none =>
    rw [Moved.nil_iff.mp hm]
    exact .none
  | some hp hf hmore hc =>
    obtain ⟨paren, left, rfl, hparen, hl⟩ := Moved.cons_iff.mp hm
    obtain ⟨items, right, rfl, hitems, hr⟩ := Moved.append_iff.mp hl
    obtain ⟨first, more, rfl, hfirst, hlater⟩ := Moved.append_iff.mp hitems
    obtain ⟨closing, _, rfl, hclosing, hnil⟩ := Moved.cons_iff.mp hr
    rw [Moved.nil_iff.mp hnil]
    exact .some (hparen.kind.trans hp) (hf.moved hfirst)
      (hmore.moved hlater fun _ _ _ h hm => h.moved hm) (hclosing.kind.trans hc)

theorem Field.Over.moved {d : Field ByteSpan} (h : d.Over us) (hm : Moved n ts us) :
    (d.map (·.shift n)).Over ts := by
  cases h with
  | mk hn hp hc ht =>
    have whole := hm.extent (List.cons_ne_nil _ _)
    obtain ⟨t, left, rfl, hname, hl⟩ := Moved.cons_iff.mp hm
    obtain ⟨parameters, right, rfl, hparameters, hr⟩ := Moved.append_iff.mp hl
    obtain ⟨colon, type, rfl, hcolon, htype⟩ := Moved.cons_iff.mp hr
    rw [map, ← whole]
    exact .mk (hn.moved hname) (hp.moved hparameters) (hcolon.kind.trans hc) (ht.moved htype)

theorem Block.Over.moved {b : Block ByteSpan} (h : b.Over us) (hm : Moved n ts us) :
    (b.map (·.shift n)).Over ts := by
  cases h with
  | object ho hd hc =>
    have whole := hm.extent (List.cons_ne_nil _ _)
    obtain ⟨brace, left, rfl, hbrace, hl⟩ := Moved.cons_iff.mp hm
    obtain ⟨fields, right, rfl, hfields, hr⟩ := Moved.append_iff.mp hl
    obtain ⟨closing, _, rfl, hclosing, hnil⟩ := Moved.cons_iff.mp hr
    rw [Moved.nil_iff.mp hnil] at whole ⊢
    rw [map, ← whole]
    exact .object (hbrace.kind.trans ho) (hd.moved hfields fun _ _ _ h hm => h.moved hm)
      (hclosing.kind.trans hc)
  | enum hk ho hd hc =>
    have whole := hm.extent (List.cons_ne_nil _ _)
    obtain ⟨keyword, left, rfl, hkeyword, hl⟩ := Moved.cons_iff.mp hm
    obtain ⟨brace, right, rfl, hbrace, hr⟩ := Moved.cons_iff.mp hl
    obtain ⟨values, tail, rfl, hvalues, htail⟩ := Moved.append_iff.mp hr
    obtain ⟨closing, _, rfl, hclosing, hnil⟩ := Moved.cons_iff.mp htail
    rw [Moved.nil_iff.mp hnil] at whole ⊢
    rw [map, ← whole]
    exact .enum (hkeyword.kind.trans hk) (hbrace.kind.trans ho)
      (hd.moved hvalues fun _ _ _ h hm => h.moved hm) (hclosing.kind.trans hc)

end Syntax

end ShapeSchema
