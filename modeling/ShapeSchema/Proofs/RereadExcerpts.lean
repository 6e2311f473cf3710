import Mathlib.Algebra.GroupWithZero.Nat
import ShapeSchema.Proofs.TextExcerpts
set_option autoImplicit false

namespace ShapeSchema

theorem Excerpt.utf8ByteSize_le {text : String} {us : List Token} {before after : List Char}
    {runs : List (List Char)} (h : Excerpt text us before runs after) :
    (String.ofList runs.flatten).utf8ByteSize ≤ text.utf8ByteSize := by
  have total := byteCount_toList text
  rw [h.split, byteCount_append, byteCount_append] at total
  rw [utf8ByteSize_ofList]
  omega

/-- The text that the span covers, between `opening` and `closing`, reads as the tree. -/
def ReadsBack (text : String) (span : ByteSpan) (opening closing : String)
    (b : Syntax.Block Unit) : Prop :=
  ∃ slice block, span.slice? text = some slice ∧
    (Syntax.Block.ofText? (opening ++ slice ++ closing)).value = .ok block ∧ block.bare = b

/-- Text that does not change the lexemes between its two parts. -/
structure Frames (opening closing : String) : Prop where
  left : opening.toList.getLast?.all isPunctuator = true
  right : closing.toList.head?.all isPunctuator = true
  closed : gapBehind false (lexemes opening.toList) = false
  short : opening.utf8ByteSize + closing.utf8ByteSize ≤ 16

theorem readsBack {text : String} (size : text.utf8ByteSize ≤ 2 ^ 31) {us : List Token}
    (inside : us <:+: significant (Token.ofText text)) (nonempty : us ≠ []) {ms : List Mark}
    (spelled : Spells ms us) (free : ∀ m ∈ ms.head?, m.apart = false) {opening closing : String}
    (frames : Frames opening closing) {b : Syntax.Block Unit} (flat : b.Shallow)
    (marks : b.marks = (cellsOf opening).map Cell.mark ++ ms ++ (cellsOf closing).map Cell.mark) :
    ReadsBack text (extent us) opening closing b := by
  obtain ⟨vs, ws, split⟩ := inside
  obtain ⟨before, runs, after, excerpt, -⟩ := exists_excerpt split nonempty
  have small :
      (opening ++ String.ofList runs.flatten ++ closing).utf8ByteSize ≤ ByteSpan.limit := by
    have inner := excerpt.utf8ByteSize_le
    have short := frames.short
    rw [String.utf8ByteSize_append, String.utf8ByteSize_append, ByteSpan.limit]
    omega
  have written : b.WrittenBy
      (Token.ofText (opening ++ String.ofList runs.flatten ++ closing)) := by
    refine ⟨flat, ?_⟩
    rw [spells_iff_marks, map_mark_significant, marks,
      excerpt.map_mark_framed ((Option.all_eq_true _ _).mp frames.left)
        ((Option.all_eq_true _ _).mp frames.right) frames.closed]
    have same (ns : List Mark) : List.Forall₂ Mark.Admits ns ns :=
      List.forall₂_same.mpr fun _ _ => ⟨rfl, id⟩
    exact List.rel_append (List.rel_append (same _) (excerpt.admits spelled free)) (same _)
  obtain ⟨block, read, bare⟩ :=
    (Syntax.Block.exists_read_iff (Token.fits_of_mem_ofText small)).mpr written
  exact ⟨String.ofList runs.flatten, block, excerpt.slice?, read, bare⟩

namespace Syntax

theorem TypeExpr.depth_le_of_mem_within {σ : Type} {outer : TypeExpr σ} :
    ∀ t ∈ outer.within, t.depth ≤ outer.depth := by
  induction outer with
  | named name bang span => simp [within]
  | list element bang span ih =>
    refine List.forall_mem_cons.mpr ⟨Nat.le_refl _, fun t ht => ?_⟩
    exact (ih t ht).trans (Nat.le_succ _)

theorem TypeExpr.free_marks {σ : Type} (type : TypeExpr σ) :
    ∀ m ∈ type.marks.head?, m.apart = false := by
  cases type <;> simp [marks, Mark.word, Mark.sign]

namespace Block

variable {text : String} {b : Block ByteSpan}

def ofField (d : Field Unit) : Block Unit := .object [d] ()

def ofParameter (p : Parameter Unit) : Block Unit :=
  ofField ⟨⟨"f", ()⟩, [p], .named ⟨"Int", ()⟩ none (), ()⟩

def ofType (t : TypeExpr Unit) : Block Unit := ofField ⟨⟨"f", ()⟩, [], t, ()⟩

theorem types_eq (b : Block ByteSpan) : b.types = b.fields.flatMap Field.types := by
  cases b <;> rfl

theorem mem_types_of_mem_parameters {p : Parameter ByteSpan} (hp : p ∈ b.parameters) :
    p.type ∈ b.types := by
  obtain ⟨d, hd, hp⟩ := List.mem_flatMap.mp hp
  rw [types_eq]
  refine List.mem_flatMap.mpr ⟨d, hd, ?_⟩
  exact List.mem_append_left _ (List.mem_map_of_mem hp)

theorem shallow_ofField {d : Field ByteSpan} (h : ∀ t ∈ d.types, t.depth < Parse.maxDepth) :
    (ofField (d.map fun _ => ())).Shallow := by
  have alone : (Block.object [d] d.span).Shallow := by
    simpa [Shallow, types] using h
  exact (shallow_map (fun _ => ()) _).mpr alone

theorem shallow_ofParameter {p : Parameter ByteSpan} (h : p.type.depth < Parse.maxDepth) :
    (ofParameter (p.map fun _ => ())).Shallow := by
  let d : Field ByteSpan := ⟨⟨"f", p.span⟩, [p], .named ⟨"Int", p.span⟩ none p.span, p.span⟩
  have room : 0 < Parse.maxDepth := by decide
  have types : ∀ t ∈ d.types, t.depth < Parse.maxDepth := by
    simpa [d, Field.types, TypeExpr.depth] using ⟨h, room⟩
  exact shallow_ofField types

theorem shallow_ofType {t : TypeExpr ByteSpan} (h : t.depth < Parse.maxDepth) :
    (ofType (t.map fun _ => ())).Shallow := by
  let d : Field ByteSpan := ⟨⟨"f", t.span⟩, [], t, t.span⟩
  have types : ∀ type ∈ d.types, type.depth < Parse.maxDepth := by
    simpa [d, Field.types] using h
  exact shallow_ofField types

theorem marks_ofField (d : Field Unit) :
    (ofField d).marks = [.sign .braceOpen] ++ d.marks ++ [.sign .braceClose] := by
  simp [ofField, marks, Mark.declarations]

theorem marks_ofParameter (p : Parameter Unit) : (ofParameter p).marks =
    [.sign .braceOpen, .word "f", .sign .parenOpen] ++ p.marks ++
      [.sign .parenClose, .sign .colon, .word "Int", .sign .braceClose] := by
  rw [ofParameter, marks_ofField]
  simp [Field.marks, parameterMarks, TypeExpr.marks, bangMarks]

theorem marks_ofType (t : TypeExpr Unit) : (ofType t).marks =
    [.sign .braceOpen, .word "f", .sign .colon] ++ t.marks ++ [.sign .braceClose] := by
  rw [ofType, marks_ofField]
  simp [Field.marks, parameterMarks]

theorem frames_field : Frames "\x7b" "\x7d" :=
  ⟨by decide +kernel, by decide +kernel, by decide +kernel, by decide +kernel⟩

theorem frames_parameter : Frames "\x7bf(" "):Int\x7d" :=
  ⟨by decide +kernel, by decide +kernel, by decide +kernel, by decide +kernel⟩

theorem frames_type : Frames "\x7bf:" "\x7d" :=
  ⟨by decide +kernel, by decide +kernel, by decide +kernel, by decide +kernel⟩

section ReadsBack

variable (size : text.utf8ByteSize ≤ 2 ^ 31) (lies : b.Over (significant (Token.ofText text)))
  (flat : b.Shallow)

include size lies flat

theorem readsBack_field : ∀ d ∈ b.fields,
    ReadsBack text d.span "\x7b" "\x7d" (ofField (d.map fun _ => ())) := by
  intro d hd
  obtain ⟨us, inside, hover⟩ := lies.fields d hd
  have shallow : ∀ t ∈ d.types, t.depth < Parse.maxDepth := fun t ht =>
    flat t (types_eq b ▸ List.mem_flatMap.mpr ⟨d, hd, ht⟩)
  have opening : (cellsOf "\x7b").map Cell.mark = [.sign .braceOpen] := by decide +kernel
  have closing : (cellsOf "\x7d").map Cell.mark = [.sign .braceClose] := by decide +kernel
  rw [hover.span_eq.2]
  refine readsBack size inside hover.span_eq.1 hover.spells ?_ frames_field
    (shallow_ofField shallow) ?_
  · simp [Field.marks, Mark.word]
  · rw [marks_ofField, Field.marks_map, opening, closing]

theorem readsBack_parameter : ∀ p ∈ b.parameters,
    ReadsBack text p.span "\x7bf(" "):Int\x7d" (ofParameter (p.map fun _ => ())) := by
  intro p hp
  obtain ⟨us, inside, hover⟩ := lies.parameters p hp
  have opening : (cellsOf "\x7bf(").map Cell.mark =
      [.sign .braceOpen, .word "f", .sign .parenOpen] := by decide +kernel
  have closing : (cellsOf "):Int\x7d").map Cell.mark =
      [.sign .parenClose, .sign .colon, .word "Int", .sign .braceClose] := by decide +kernel
  rw [hover.span_eq.2]
  refine readsBack size inside hover.span_eq.1 hover.spells ?_ frames_parameter ?_ ?_
  · simp [Parameter.marks, Mark.word]
  · exact shallow_ofParameter (flat p.type (mem_types_of_mem_parameters hp))
  · rw [marks_ofParameter, Parameter.marks_map, opening, closing]

theorem readsBack_type : ∀ t ∈ b.typeNodes,
    ReadsBack text t.span "\x7bf:" "\x7d" (ofType (t.map fun _ => ())) := by
  intro t ht
  obtain ⟨us, inside, hover⟩ := lies.typeNodes t ht
  have opening : (cellsOf "\x7bf:").map Cell.mark =
      [.sign .braceOpen, .word "f", .sign .colon] := by decide +kernel
  have closing : (cellsOf "\x7d").map Cell.mark = [.sign .braceClose] := by decide +kernel
  rw [hover.span_eq.2]
  refine readsBack size inside hover.span_eq.1 hover.spells t.free_marks frames_type ?_ ?_
  · obtain ⟨outer, ho, hinner⟩ := List.mem_flatMap.mp ht
    exact shallow_ofType ((TypeExpr.depth_le_of_mem_within t hinner).trans_lt (flat outer ho))
  · rw [marks_ofType, TypeExpr.marks_map, opening, closing]

/-- The block is read again from its own text, where it starts at the first byte. -/
theorem reread : ∃ slice block, b.span.slice? text = some slice ∧
    (ofText? slice).value = .ok block ∧ b = block.map (·.shift b.span.start) := by
  obtain ⟨nonempty, spanned⟩ := lies.span_eq
  obtain ⟨before, runs, after, excerpt, -⟩ := exists_excerpt_whole nonempty
  have fit := Token.fits_of_mem_ofText  (size.trans (by decide))
  have fitSlice := Token.fits_of_mem_ofText
    ((excerpt.utf8ByteSize_le.trans size).trans (by decide))
  have written : b.bare.WrittenBy (Token.ofText (String.ofList runs.flatten)) := by
    refine ⟨(shallow_map _ b).mpr flat, ?_⟩
    rw [spells_iff_marks, map_mark_significant, marks_bare, cellsOf, String.toList_ofList,
      lexemes_flatten excerpt.lexed]
    exact excerpt.admits lies.spells (by cases b <;> simp [marks, Mark.word, Mark.sign])
  obtain ⟨block, read, -⟩ := (exists_read_iff fitSlice).mpr written
  refine ⟨_, block, spanned ▸ excerpt.slice?, read, ?_⟩
  obtain ⟨overSlice, flatSlice⟩ := (ofTokens?_eq_ok_iff_over fitSlice).mp read
  have there := (ofTokens?_eq_ok_iff_over fit).mpr ⟨lies, flat⟩
  have moved := (ofTokens?_eq_ok_iff_over fit).mpr
    ⟨overSlice.moved excerpt.moved, (shallow_map _ block).mpr flatSlice⟩
  have start : b.span.start = byteCount before := by rw [spanned, excerpt.extent]
  rw [start]
  exact Except.ok.inj (there.symm.trans moved)

end ReadsBack

end Block

end Syntax

end ShapeSchema
