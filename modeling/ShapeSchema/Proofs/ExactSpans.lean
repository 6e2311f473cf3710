import Mathlib.Algebra.GroupWithZero.Nat
import ShapeSchema.Proofs.RereadExcerpts
set_option autoImplicit false

namespace ShapeSchema

theorem Token.exists_slice {text : String} {t : Token} (ht : t ∈ ofText text) :
    ∃ before run after, text.toList = before ++ run ++ after ∧
      (Lexeme.token t.kind).Describes before run after ∧
      t.span.offsets.slice? text = some (String.ofList run) := by
  obtain ⟨before, run, after, split, offsets, described⟩ :=
    pieces_describe text _ (mem_pieces ht)
  refine ⟨before, run, after, split, described, ?_⟩
  rw [offsets, ByteSpan.slice?, split, List.append_assoc, cut?_byteCount]
  rfl

theorem mem_ofText_of_significant {text : String} {t : Token}
    (ht : t ∈ significant (Token.ofText text)) : t ∈ Token.ofText text :=
  (List.takeWhile_sublist _).subset ht

namespace Syntax

theorem Name.OverOnly.slice? {text : String} {n : Name ByteSpan}
    (h : Within Name.OverOnly (significant (Token.ofText text)) n) :
    n.span.slice? text = some n.text := by
  obtain ⟨_, inside, t, rfl, kind, span⟩ := h
  obtain ⟨before, run, after, -, described, slice⟩ :=
    Token.exists_slice (mem_ofText_of_significant (inside.subset List.mem_cons_self))
  rw [kind] at described
  rw [span, slice, described.1]

theorem TypeExpr.Over.bang {type : TypeExpr ByteSpan} {us : List Token} (h : type.Over us) :
    ∀ s ∈ type.bang, ∃ t, us.getLast? = some t ∧ t.kind = .punctuator .bang ∧
      s = t.span.offsets := by
  have last {bang : Option ByteSpan} {vs : List Token} (hb : BangOver bang vs) (us : List Token) :
      ∀ s ∈ bang, ∃ t, (us ++ vs).getLast? = some t ∧ t.kind = .punctuator .bang ∧
        s = t.span.offsets := by
    cases hb with
    | none => simp
    | @some t ht =>
      rintro _ ⟨⟩
      exact ⟨t, List.getLast?_concat, ht, rfl⟩
  cases h with
  | @named name bang t us hn hb => exact last hb [t]
  | @list element bang t inner u us ht he hu hb =>
    have behind := last hb (t :: (inner ++ [u]))
    rwa [List.cons_append, List.append_assoc] at behind

theorem TypeExpr.Over.bang_slice? {text : String} {type : TypeExpr ByteSpan}
    (h : Within TypeExpr.Over (significant (Token.ofText text)) type) :
    ∀ s ∈ type.bang, s.slice? text = some "!" ∧ s.stop = type.span.stop := by
  obtain ⟨us, inside, hover⟩ := h
  intro s hs
  obtain ⟨t, last, kind, rfl⟩ := hover.bang s hs
  have ht : t ∈ significant (Token.ofText text) :=
    inside.subset (List.mem_of_mem_getLast? last)
  obtain ⟨before, run, after, -, described, slice⟩ :=
    Token.exists_slice (mem_ofText_of_significant ht)
  rw [kind] at described
  have only : run = ['!'] := described
  refine ⟨?_, ?_⟩
  · rw [slice, only]
  · rw [hover.span_eq.2, extent, last]
    rfl

namespace Block

variable {text : String} {b : Block ByteSpan}

/-- All that the spans of a tree say about its text. -/
structure Exact (b : Block ByteSpan) (text : String) : Prop where
  names : ∀ n ∈ b.nameNodes, n.span.slice? text = some n.text
  bangs : ∀ t ∈ b.typeNodes, ∀ s ∈ t.bang, s.slice? text = some "!" ∧ s.stop = t.span.stop
  blockParts : b.span.Encloses b.parts
  fieldParts : ∀ d ∈ b.fields, d.span.Encloses d.parts
  parameterParts : ∀ p ∈ b.parameters, p.span.Encloses p.parts
  typeParts : ∀ t ∈ b.typeNodes, t.span.Encloses t.parts
  outside : ∃ before inside after, text.toList = before ++ (inside ++ after) ∧
    b.span = ⟨byteCount before, byteCount before + byteCount inside⟩ ∧
    (∀ c ∈ before, isSeparator c = true) ∧ ∀ c ∈ after, isSeparator c = true
  block : ∃ slice block, b.span.slice? text = some slice ∧ (ofText? slice).value = .ok block ∧
    b = block.map (·.shift b.span.start)
  fields : ∀ d ∈ b.fields, ReadsBack text d.span "\x7b" "\x7d" (ofField (d.map fun _ => ()))
  parameters : ∀ p ∈ b.parameters,
    ReadsBack text p.span "\x7bf(" "):Int\x7d" (ofParameter (p.map fun _ => ()))
  types : ∀ t ∈ b.typeNodes, ReadsBack text t.span "\x7bf:" "\x7d" (ofType (t.map fun _ => ()))

theorem encloses_of_within {α : Type} {R : α → List Token → Prop} {a : α} {outer : ByteSpan}
    {parts : List ByteSpan} (h : Within R (significant (Token.ofText text)) a)
    (hR : ∀ us, R a us → outer = extent us ∧ Covers parts us) : outer.Encloses parts := by
  obtain ⟨us, inside, ha⟩ := h
  obtain ⟨spanned, covered⟩ := hR us ha
  rw [spanned]
  exact covered.encloses ((inOrder_significant text).restrict inside)

theorem Over.outside (lies : b.Over (significant (Token.ofText text))) :
    ∃ before inside after, text.toList = before ++ (inside ++ after) ∧
      b.span = ⟨byteCount before, byteCount before + byteCount inside⟩ ∧
      (∀ c ∈ before, isSeparator c = true) ∧ ∀ c ∈ after, isSeparator c = true := by
  obtain ⟨nonempty, spanned⟩ := lies.span_eq
  obtain ⟨before, runs, after, excerpt, separators⟩ := exists_excerpt_whole nonempty
  exact ⟨before, runs.flatten, after, excerpt.split, spanned.trans excerpt.extent, separators⟩

/-- The spans of a tree that was read from a text are exact, whatever the text. -/
theorem ofText?_exact (text : String) (size : text.utf8ByteSize ≤ 2 ^ 31) (b : Block ByteSpan)
    (h : (ofText? text).value = .ok b) : b.Exact text := by
  have fit := Token.fits_of_mem_ofText (size.trans (by decide))
  rw [value_ofText?] at h
  obtain ⟨lies, flat⟩ := (ofTokens?_eq_ok_iff_over fit).mp h
  exact {
    names := fun n hn => Name.OverOnly.slice? (lies.nameNodes n hn)
    bangs := fun t ht => TypeExpr.Over.bang_slice? (lies.typeNodes t ht)
    blockParts := encloses_of_within (.self lies) fun _ h => ⟨h.span_eq.2, h.covers_parts⟩
    fieldParts := fun d hd =>
      encloses_of_within (lies.fields d hd) fun _ h => ⟨h.span_eq.2, h.covers_parts⟩
    parameterParts := fun p hp =>
      encloses_of_within (lies.parameters p hp) fun _ h => ⟨h.span_eq.2, h.covers_parts⟩
    typeParts := fun t ht =>
      encloses_of_within (lies.typeNodes t ht) fun _ h => ⟨h.span_eq.2, h.covers_parts⟩
    outside := lies.outside
    block := reread size lies flat
    fields := readsBack_field size lies flat
    parameters := readsBack_parameter size lies flat
    types := readsBack_type size lies flat }

theorem ofText?_exact_between_separators :
    ∃ b : Block ByteSpan, b = .object
        [⟨⟨"a", ⟨2, 3⟩⟩,
          [⟨⟨"x", ⟨4, 5⟩⟩,
            .list (.named ⟨"T", ⟨8, 9⟩⟩ (some ⟨9, 10⟩) ⟨8, 10⟩) none ⟨7, 11⟩, ⟨4, 11⟩⟩],
          .named ⟨"U", ⟨14, 15⟩⟩ (some ⟨15, 16⟩) ⟨14, 16⟩, ⟨2, 16⟩⟩] ⟨1, 17⟩ ∧
      (ofText? ";\x7ba(x: [T!]): U!\x7d ").value = .ok b ∧ b.Exact ";\x7ba(x: [T!]): U!\x7d " := by
  refine ⟨_, rfl, And.imp_right (ofText?_exact _ (by decide) _) (and_self_iff.mpr ?_)⟩
  rw [value_ofText?]
  decide +kernel

end Block

end Syntax

end ShapeSchema
