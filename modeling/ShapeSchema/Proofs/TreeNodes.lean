import ShapeSchema.Proofs.TreeOver
set_option autoImplicit false

namespace ShapeSchema

namespace Syntax

variable {σ : Type}

namespace TypeExpr

def within : TypeExpr σ → List (TypeExpr σ)
  | .named name bang span => [.named name bang span]
  | .list element bang span => .list element bang span :: element.within

/-- The annotations of what is directly inside, in the order of the text. -/
def parts : TypeExpr σ → List σ
  | .named name bang _ => name.span :: bang.toList
  | .list element bang _ => element.span :: bang.toList

end TypeExpr

def Parameter.parts (p : Parameter σ) : List σ := [p.name.span, p.type.span]

def Field.parts (d : Field σ) : List σ :=
  d.name.span :: (d.parameters.map (·.span) ++ [d.type.span])

namespace Block

def fields : Block σ → List (Field σ)
  | .object fields _ => fields
  | .enum _ _ => []

def values : Block σ → List (Name σ)
  | .object _ _ => []
  | .enum values _ => values

def parts (b : Block σ) : List σ := b.fields.map (·.span) ++ b.values.map (·.span)

def parameters (b : Block σ) : List (Parameter σ) := b.fields.flatMap (·.parameters)

def typeNodes (b : Block σ) : List (TypeExpr σ) := b.types.flatMap TypeExpr.within

def nameNodes (b : Block σ) : List (Name σ) :=
  b.values ++ b.fields.map (·.name) ++ b.parameters.map (·.name) ++ b.types.map (·.leaf)

end Block

end Syntax

section Within

variable {α : Type} {R : α → List Token → Prop} {as : List α} {us vs : List Token}

/-- The item lies over tokens among `us` that follow one another. -/
def Within (R : α → List Token → Prop) (us : List Token) (a : α) : Prop :=
  ∃ vs, vs <:+: us ∧ R a vs

theorem Within.self {a : α} (h : R a us) : Within R us a := ⟨us, List.infix_rfl, h⟩

theorem Within.mono {a : α} (h : Within R us a) (inside : us <:+: vs) : Within R vs a := by
  obtain ⟨ws, hws, ha⟩ := h
  exact ⟨ws, hws.trans inside, ha⟩

theorem Within.inner {β : Type} {S : β → List Token → Prop} {a : α} {b : β} (h : Within R us a)
    (hRS : ∀ vs, R a vs → Within S vs b) : Within S us b := by
  obtain ⟨vs, hvs, ha⟩ := h
  exact (hRS vs ha).mono hvs

theorem Sequence.within (h : Sequence R as us) : ∀ a ∈ as, Within R us a := by
  induction h with
  | nil => simp
  | cons ha _ ih =>
    refine List.forall_mem_cons.mpr ⟨?_, fun b hb => ?_⟩
    · exact (Within.self ha).mono (List.prefix_append _ _).isInfix
    · exact (ih b hb).mono (List.suffix_append _ _).isInfix

theorem Declared.within (h : Declared R as us) : ∀ a ∈ as, Within R us a := by
  cases h with
  | nil => simp
  | cons ha has =>
    refine List.forall_mem_cons.mpr ⟨?_, fun b hb => ?_⟩
    · exact (Within.self ha).mono (List.prefix_append _ _).isInfix
    · have later : Within R _ b := (has.within b hb).inner fun _ h => .self h.1
      exact later.mono (List.suffix_append _ _).isInfix

end Within

namespace Syntax

theorem TypeExpr.Over.within {type : TypeExpr ByteSpan} {us : List Token} (h : type.Over us) :
    ∀ t ∈ type.within, Within TypeExpr.Over us t := by
  induction h with
  | named hn hb =>
    rw [TypeExpr.within, List.forall_mem_singleton]
    exact .self (.named hn hb)
  | @list element bang t inner u us ht he hu hb ih =>
    rw [TypeExpr.within, List.forall_mem_cons]
    refine ⟨.self (.list ht he hu hb), fun type htype => (ih type htype).mono ?_⟩
    exact ⟨[t], u :: us, by simp⟩

theorem TypeExpr.Over.leaf {type : TypeExpr ByteSpan} {us : List Token} (h : type.Over us) :
    Within Name.OverOnly us type.leaf := by
  induction h with
  | @named name bang t us hn hb =>
    exact ⟨[t], (List.prefix_append [t] us).isInfix, t, rfl, hn⟩
  | @list element bang t inner u us ht he hu hb ih => exact ih.mono ⟨[t], u :: us, by simp⟩

theorem Parameter.Over.name {p : Parameter ByteSpan} {us : List Token} (h : p.Over us) :
    Within Name.OverOnly us p.name := by
  cases h with
  | @mk name type t colon us hn hc ht => exact ⟨[t], ⟨[], colon :: us, rfl⟩, t, rfl, hn⟩

theorem Parameter.Over.type {p : Parameter ByteSpan} {us : List Token} (h : p.Over us) :
    Within TypeExpr.Over us p.type := by
  cases h with
  | @mk name type t colon us hn hc ht => exact ⟨us, ⟨[t, colon], [], by simp⟩, ht⟩

theorem ParametersOver.within {ps : List (Parameter ByteSpan)} {us : List Token}
    (h : ParametersOver ps us) : ∀ p ∈ ps, Within Parameter.Over us p := by
  cases h with
  | none => simp
  | @some first more paren us vs closing hp hf hm hc =>
    refine List.forall_mem_cons.mpr ⟨⟨us, ⟨[paren], vs ++ [closing], by simp⟩, hf⟩, ?_⟩
    intro p hmem
    have inner : Within Parameter.Over vs p := (hm.within p hmem).inner fun _ hcomma => by
      cases hcomma with
      | @mk comma ws hc hover => exact ⟨ws, ⟨[comma], [], by simp⟩, hover⟩
    exact inner.mono ⟨paren :: us, [closing], by simp⟩

namespace Field.Over

variable {d : Field ByteSpan} {us : List Token}

theorem name (h : d.Over us) : Within Name.OverOnly us d.name := by
  cases h with
  | @mk name parameters type t us colon vs hn hp hc ht =>
    exact ⟨[t], (List.prefix_append [t] _).isInfix, t, rfl, hn⟩

theorem parameters (h : d.Over us) : ∀ p ∈ d.parameters, Within Parameter.Over us p := by
  cases h with
  | @mk name parameters type t us colon vs hn hp hc ht =>
    intro p hmem
    exact (hp.within p hmem).mono ⟨[t], colon :: vs, rfl⟩

theorem types (h : d.Over us) : ∀ type ∈ d.types, Within TypeExpr.Over us type := by
  rw [Field.types, List.forall_mem_append, List.forall_mem_map, List.forall_mem_singleton]
  constructor
  · exact fun p hp => (h.parameters p hp).inner fun _ hover => hover.type
  · cases h with
    | @mk name parameters type t us colon vs hn hp hc ht =>
      exact ⟨vs, ⟨t :: (us ++ [colon]), [], by simp⟩, ht⟩

end Field.Over

namespace Block.Over

variable {b : Block ByteSpan} {us : List Token}

theorem fields (h : b.Over us) : ∀ d ∈ b.fields, Within Field.Over us d := by
  cases h with
  | @object fields brace us closing ho hd hc =>
    intro d hmem
    exact (hd.within d hmem).mono ⟨[brace], [closing], by simp⟩
  | enum => simp [Block.fields]

theorem values (h : b.Over us) : ∀ v ∈ b.values, Within Name.OverOnly us v := by
  cases h with
  | object => simp [Block.values]
  | @enum values keyword brace us closing hk ho hd hc =>
    intro v hmem
    exact (hd.within v hmem).mono ⟨[keyword, brace], [closing], by simp⟩

theorem parameters (h : b.Over us) : ∀ p ∈ b.parameters, Within Parameter.Over us p := by
  intro p hp
  obtain ⟨d, hd, hp⟩ := List.mem_flatMap.mp hp
  exact (h.fields d hd).inner fun _ hover => hover.parameters p hp

theorem types (h : b.Over us) : ∀ type ∈ b.types, Within TypeExpr.Over us type := by
  intro type htype
  cases b with
  | enum values span => simp [Block.types] at htype
  | object fields span =>
    obtain ⟨d, hd, htype⟩ := List.mem_flatMap.mp htype
    exact (h.fields d hd).inner fun _ hover => hover.types type htype

theorem typeNodes (h : b.Over us) : ∀ type ∈ b.typeNodes, Within TypeExpr.Over us type := by
  intro type htype
  obtain ⟨outer, ho, htype⟩ := List.mem_flatMap.mp htype
  exact (h.types outer ho).inner fun _ hover => hover.within type htype

theorem nameNodes (h : b.Over us) : ∀ n ∈ b.nameNodes, Within Name.OverOnly us n := by
  rw [Block.nameNodes]
  simp only [List.forall_mem_append, List.forall_mem_map]
  refine ⟨⟨⟨h.values, fun d hd => ?_⟩, fun p hp => ?_⟩, fun type htype => ?_⟩
  · exact (h.fields d hd).inner fun _ hover => hover.name
  · exact (h.parameters p hp).inner fun _ hover => hover.name
  · exact (h.types type htype).inner fun _ hover => hover.leaf

end Block.Over

end Syntax

end ShapeSchema
