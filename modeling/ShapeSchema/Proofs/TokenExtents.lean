import ShapeSchema.Proofs.TreeNodes
set_option autoImplicit false

namespace ShapeSchema

/-- The inner spans are not empty, lie one behind the other and within the outer one. -/
structure ByteSpan.Encloses (outer : ByteSpan) (inner : List ByteSpan) : Prop where
  inOrder : inner.Pairwise fun s t => s.stop ≤ t.start
  inside : ∀ s ∈ inner, outer.start ≤ s.start ∧ s.start < s.stop ∧ s.stop ≤ outer.stop

structure InOrder (us : List Token) : Prop where
  apart : us.Pairwise fun t u => t.span.stop.offset ≤ u.span.start.offset
  forward : ∀ t ∈ us, t.span.start.offset < t.span.stop.offset

/-- The spans are the extents of some tokens each, one after the other; tokens in between are left
    out. -/
inductive Covers : List ByteSpan → List Token → Prop
  | nil : Covers [] []
  | skip {ss t us} : Covers ss us → Covers ss (t :: us)
  | part {ss us vs} : us ≠ [] → Covers ss vs → Covers (extent us :: ss) (us ++ vs)

namespace InOrder

variable {us vs : List Token}

theorem restrict (h : InOrder vs) (inside : us <:+: vs) : InOrder us :=
  ⟨h.apart.sublist inside.sublist, fun t ht => h.forward t (inside.subset ht)⟩

theorem start_le (h : InOrder us) : ∀ t ∈ us, (extent us).start ≤ t.span.start.offset := by
  cases us with
  | nil => simp
  | cons t us =>
    have forward := h.forward t List.mem_cons_self
    refine List.forall_mem_cons.mpr ⟨Nat.le_refl _, fun u hu => ?_⟩
    have apart := (List.pairwise_cons.mp h.apart).1 u hu
    have start : (extent (t :: us)).start = t.span.start.offset := rfl
    omega

theorem le_stop (h : InOrder us) : ∀ t ∈ us, t.span.stop.offset ≤ (extent us).stop := by
  rcases us.eq_nil_or_concat with rfl | ⟨init, last, rfl⟩
  · simp
  · have stop : (extent (init.concat last)).stop = last.span.stop.offset := by
      simp [extent]
    intro t ht
    rw [List.concat_eq_append, List.mem_append, List.mem_singleton] at ht
    rw [stop]
    rcases ht with ht | rfl
    · have forward := h.forward last (by simp)
      have pairs := h.apart
      rw [List.concat_eq_append, List.pairwise_append] at pairs
      have apart := pairs.2.2 t ht last (by simp)
      omega
    · exact Nat.le_refl _

theorem extent_forward (h : InOrder us) (nonempty : us ≠ []) :
    (extent us).start < (extent us).stop := by
  obtain ⟨t, ht⟩ := List.exists_mem_of_ne_nil us nonempty
  have start := h.start_le t ht
  have forward := h.forward t ht
  have stop := h.le_stop t ht
  omega

end InOrder

theorem extent_start_mem {us : List Token} (nonempty : us ≠ []) :
    ∃ t ∈ us, (extent us).start = t.span.start.offset := by
  cases us with
  | nil => exact absurd rfl nonempty
  | cons t us => exact ⟨t, List.mem_cons_self, rfl⟩

theorem extent_stop_mem {us : List Token} (nonempty : us ≠ []) :
    ∃ t ∈ us, (extent us).stop = t.span.stop.offset :=
  ⟨us.getLast nonempty, List.getLast_mem nonempty, by
    rw [extent, List.getLast?_eq_some_getLast nonempty]
    rfl⟩

theorem Covers.between {ss : List ByteSpan} {us : List Token} (h : Covers ss us)
    (ordered : InOrder us) {low high : Nat} (above : ∀ t ∈ us, low ≤ t.span.start.offset)
    (below : ∀ t ∈ us, t.span.stop.offset ≤ high) : ByteSpan.Encloses ⟨low, high⟩ ss := by
  induction h generalizing low with
  | nil => exact ⟨.nil, by simp⟩
  | @skip ss t us _ ih =>
    exact ih (ordered.restrict (List.suffix_cons t us).isInfix)
      (fun u hu => above u (List.mem_cons_of_mem t hu))
      (fun u hu => below u (List.mem_cons_of_mem t hu))
  | @part ss us vs nonempty _ ih =>
    obtain ⟨first, hfirst, start⟩ := extent_start_mem nonempty
    obtain ⟨last, hlast, stop⟩ := extent_stop_mem nonempty
    have forward := (ordered.restrict (List.prefix_append us vs).isInfix).extent_forward nonempty
    have lower : low ≤ (extent us).start := start ▸ above first (List.mem_append_left vs hfirst)
    have upper : (extent us).stop ≤ high := stop ▸ below last (List.mem_append_left vs hlast)
    have behind : ∀ u ∈ vs, (extent us).stop ≤ u.span.start.offset :=
      stop ▸ (List.pairwise_append.mp ordered.apart).2.2 last hlast
    have later := ih (ordered.restrict (List.suffix_append us vs).isInfix) behind
      (fun u hu => below u (List.mem_append_right us hu))
    refine ⟨List.pairwise_cons.mpr ⟨fun s hs => (later.inside s hs).1, later.inOrder⟩, ?_⟩
    refine List.forall_mem_cons.mpr ⟨⟨lower, forward, upper⟩, fun s hs => ?_⟩
    obtain ⟨behind, inside⟩ := later.inside s hs
    exact ⟨by dsimp only at behind ⊢; omega, inside⟩

theorem Covers.encloses {ss : List ByteSpan} {us : List Token} (h : Covers ss us)
    (ordered : InOrder us) : (extent us).Encloses ss :=
  h.between ordered ordered.start_le ordered.le_stop

theorem Covers.append {ss ts : List ByteSpan} {us vs : List Token} (h : Covers ss us)
    (h' : Covers ts vs) : Covers (ss ++ ts) (us ++ vs) := by
  induction h with
  | nil => exact h'
  | skip _ ih => exact .skip ih
  | part nonempty _ ih =>
    rw [List.append_assoc]
    exact .part nonempty ih

theorem Covers.followed {ss : List ByteSpan} {us : List Token} (h : Covers ss us) (t : Token) :
    Covers ss (us ++ [t]) := by
  have both := h.append (.skip (t := t) .nil)
  rwa [List.append_nil] at both

theorem Covers.single {us : List Token} (nonempty : us ≠ []) : Covers [extent us] us := by
  have alone := Covers.part nonempty .nil
  rwa [List.append_nil] at alone

theorem Sequence.covers {α : Type} {R : α → List Token → Prop} {f : α → ByteSpan} {as : List α}
    {us : List Token} (h : Sequence R as us) (hR : ∀ a us, R a us → Covers [f a] us) :
    Covers (as.map f) us := by
  induction h with
  | nil => exact .nil
  | cons ha _ ih => exact (hR _ _ ha).append ih

theorem Declared.covers {α : Type} {R : α → List Token → Prop} {f : α → ByteSpan} {as : List α}
    {us : List Token} (h : Declared R as us) (hR : ∀ a us, R a us → Covers [f a] us) :
    Covers (as.map f) us := by
  cases h with
  | nil => exact .nil
  | cons ha has => exact (hR _ _ ha).append (has.covers fun a us h => hR a us h.1)

namespace Syntax

theorem Name.Over.span_eq {n : Name ByteSpan} {t : Token} (h : n.Over t) :
    n.span = extent [t] := h.2

theorem Name.OverOnly.covers {n : Name ByteSpan} {us : List Token} (h : n.OverOnly us) :
    Covers [n.span] us := by
  obtain ⟨t, rfl, hn⟩ := h
  rw [hn.span_eq]
  exact .single (List.cons_ne_nil t [])

theorem BangOver.covers {bang : Option ByteSpan} {us : List Token} (h : BangOver bang us) :
    Covers bang.toList us := by
  cases h with
  | none => exact .nil
  | @some t ht => exact Covers.single (List.cons_ne_nil t [])

namespace TypeExpr.Over

variable {type : TypeExpr ByteSpan} {us : List Token}

theorem span_eq (h : type.Over us) : us ≠ [] ∧ type.span = extent us := by
  cases h <;> exact ⟨List.cons_ne_nil _ _, rfl⟩

theorem covers (h : type.Over us) : Covers [type.span] us := by
  rw [h.span_eq.2]
  exact .single h.span_eq.1

theorem covers_parts (h : type.Over us) : Covers type.parts us := by
  cases h with
  | @named name bang t us hn hb =>
    rw [parts, hn.span_eq]
    exact .part (List.cons_ne_nil t []) hb.covers
  | list ht he hu hb => exact .skip (he.covers.append (.skip hb.covers))

end TypeExpr.Over

namespace Parameter.Over

variable {p : Parameter ByteSpan} {us : List Token}

theorem span_eq (h : p.Over us) : us ≠ [] ∧ p.span = extent us := by
  cases h
  exact ⟨List.cons_ne_nil _ _, rfl⟩

theorem covers (h : p.Over us) : Covers [p.span] us := by
  rw [h.span_eq.2]
  exact .single h.span_eq.1

theorem covers_parts (h : p.Over us) : Covers p.parts us := by
  cases h with
  | @mk name type t colon us hn hc ht =>
    rw [parts, hn.span_eq]
    exact .part (List.cons_ne_nil t []) (.skip ht.covers)

end Parameter.Over

theorem ParametersOver.covers {ps : List (Parameter ByteSpan)} {us : List Token}
    (h : ParametersOver ps us) : Covers (ps.map (·.span)) us := by
  cases h with
  | none => exact .nil
  | some hp hf hm hc =>
    have more := hm.covers (f := (·.span)) fun _ _ hcomma => by
      cases hcomma with
      | mk _ hover => exact .skip hover.covers
    exact .skip ((hf.covers.append more).followed _)

namespace Field.Over

variable {d : Field ByteSpan} {us : List Token}

theorem span_eq (h : d.Over us) : us ≠ [] ∧ d.span = extent us := by
  cases h
  exact ⟨List.cons_ne_nil _ _, rfl⟩

theorem covers (h : d.Over us) : Covers [d.span] us := by
  rw [h.span_eq.2]
  exact .single h.span_eq.1

theorem covers_parts (h : d.Over us) : Covers d.parts us := by
  cases h with
  | @mk name parameters type t us colon vs hn hp hc ht =>
    rw [parts, hn.span_eq]
    exact .part (List.cons_ne_nil t []) (hp.covers.append (.skip ht.covers))

end Field.Over

namespace Block.Over

variable {b : Block ByteSpan} {us : List Token}

theorem span_eq (h : b.Over us) : us ≠ [] ∧ b.span = extent us := by
  cases h <;> exact ⟨List.cons_ne_nil _ _, rfl⟩

theorem covers_parts (h : b.Over us) : Covers b.parts us := by
  cases h with
  | object ho hd hc =>
    have fields := hd.covers (f := (·.span)) fun _ _ h => h.covers
    rw [parts, Block.fields, Block.values, List.map_nil, List.append_nil]
    exact .skip (fields.followed _)
  | enum hk ho hd hc =>
    have values := hd.covers (f := (·.span)) fun _ _ h => h.covers
    exact .skip (.skip (values.followed _))

end Block.Over

end Syntax

end ShapeSchema
