import ShapeSchema.Proofs.EqualShapes
import ShapeSchema.Proofs.ExactSpans
import ShapeSchema.Proofs.StoredOffsets
set_option autoImplicit false

namespace ShapeSchema

variable {H K σ : Type}

namespace ResolvedType

theorem chars_eq_of_isEquivalent {a : ResolvedType H} {b : ResolvedType K}
    (h : a.isEquivalent b = true) : a.chars = b.chars := by
  induction a generalizing b with
  | named name nullable meaning =>
    cases b with
    | list => cases h
    | named name' nullable' meaning' =>
      simp only [isEquivalent, Bool.and_eq_true, beq_iff_eq] at h
      rw [h.1, h.2]
      rfl
  | list element nullable ih =>
    cases b with
    | named => cases h
    | list element' nullable' =>
      simp only [isEquivalent, Bool.and_eq_true, beq_iff_eq] at h
      rw [chars_list, chars_list, h.1, ih h.2]

def expression : ResolvedType H → Syntax.TypeExpr Unit
  | .named name nullable _ => .named ⟨name, ()⟩ (if nullable then none else some ()) ()
  | .list element nullable => .list element.expression (if nullable then none else some ()) ()

theorem depth_expression (a : ResolvedType H) : a.expression.depth = a.depth := by
  induction a with
  | named => rfl
  | list element nullable ih => exact congrArg (· + 1) ih

theorem leaf_expression (a : ResolvedType H) : a.expression.leaf.text = a.leafName := by
  induction a with
  | named => rfl
  | list element nullable ih => exact ih

theorem isNone_bang (nullable : Bool) :
    (if nullable then none else some () : Option Unit).isNone = nullable := by
  cases nullable <;> rfl

theorem isEquivalent_of_denotes {env : Environment K} {a : ResolvedType H} {type : ResolvedType K}
    (h : a.expression.Denotes env type) : type.isEquivalent a = true := by
  induction a generalizing type with
  | named name nullable meaning =>
    cases h
    simp [isEquivalent, isNone_bang]
  | list element nullable ih =>
    cases h with
    | list h => simp [isEquivalent, isNone_bang, ih h]

theorem denotes_expression {env : Environment H} {a : ResolvedType H}
    (h : env.Means a.leafName a.leafResolution) : a.expression.Denotes env a := by
  induction a with
  | named name nullable meaning =>
    have named : (named name nullable meaning).expression.Denotes env
        (.named name (if nullable then none else some ()).isNone meaning) := .named h
    rwa [isNone_bang] at named
  | list element nullable ih =>
    have list : (list element nullable).expression.Denotes env
        (.list element (if nullable then none else some ()).isNone) := .list (ih h)
    rwa [isNone_bang] at list

end ResolvedType

namespace Syntax

theorem bangUnless_isNone (bang : Option σ) :
    ResolvedType.bangUnless bang.isNone = (bangMarks bang).flatMap Mark.chars := by
  cases bang <;> rfl

theorem TypeExpr.Denotes.chars_eq {env : Environment H} {t : TypeExpr σ} {type : ResolvedType H}
    (h : t.Denotes env type) : type.chars = t.marks.flatMap Mark.chars := by
  induction h with
  | @named name bang span meaning means =>
    rw [marks, List.flatMap_cons, ← bangUnless_isNone, ResolvedType.chars, ResolvedType.charsThen,
      List.append_nil]
    rfl
  | @list element bang span type _ ih =>
    have opening : (Mark.sign .bracketOpen).chars = ['['] := by decide
    have closing : (Mark.sign .bracketClose).chars = [']'] := by decide
    rw [marks, List.flatMap_cons, List.flatMap_append, List.flatMap_cons, ← bangUnless_isNone,
      ResolvedType.chars_list, ih, opening, closing]
    rfl

end Syntax

theorem ResolvedType.chars_expression (a : ResolvedType H) :
    a.chars = a.expression.marks.flatMap Mark.chars := by
  have denotes := a.expression.denotes_resolve (.empty : Environment H)
  rw [← denotes.chars_eq]
  exact (chars_eq_of_isEquivalent (isEquivalent_of_denotes denotes)).symm

/-- The canonical form of an excerpt writes what its tokens spell. -/
theorem Excerpt.canonical_eq {text : String} {us : List Token} {before after : List Char}
    {runs : List (List Char)} (h : Excerpt text us before runs after) {ms : List Mark}
    (spelled : Spells ms us) (settled : Mark.Settled false ms)
    (free : ∀ m ∈ ms.head?, m.apart = false)
    (plain : ∀ m ∈ ms, ∀ message notes, m.kind ≠ .invalid message notes) :
    canonical (String.ofList runs.flatten) = String.ofList (ms.flatMap Mark.chars) := by
  have cells : cellsOf (String.ofList runs.flatten) = cells false runs := by
    rw [cellsOf, String.toList_ofList, lexemes_flatten h.lexed]
  have spared := spare_eq_of_admits (h.admits spelled free) (cells ▸ sound_cellsOf _) plain settled
  rw [canonical_eq_text, cells, spared, text_map_cell]

namespace Syntax

theorem TypeExpr.Over.canonical_slice {text : String} {t : TypeExpr ByteSpan}
    (h : Within TypeExpr.Over (significant (Token.ofText text)) t) :
    ∃ slice, t.span.slice? text = some slice ∧
      canonical slice = String.ofList (t.marks.flatMap Mark.chars) := by
  obtain ⟨us, ⟨vs, ws, split⟩, hover⟩ := h
  obtain ⟨nonempty, spanned⟩ := hover.span_eq
  obtain ⟨before, runs, after, excerpt, -⟩ := exists_excerpt split nonempty
  refine ⟨String.ofList runs.flatten, spanned ▸ excerpt.slice?, ?_⟩
  exact excerpt.canonical_eq hover.spells t.settled.1 t.free_marks
    fun m hm => (t.kindFrom_marks m hm).plain.2

/-- The end of a block that was read is among its offsets, so it has to be held with them. -/
theorem Block.utf8ByteSize_le_of_read {front : String} {b : Block ByteSpan}
    (read : (ofText? (front ++ "\x7d")).value = .ok b) :
    (front ++ "\x7d").utf8ByteSize ≤ ByteSpan.limit := by
  rw [value_ofText?] at read
  obtain ⟨s, parsed⟩ := value_ofTokens?_eq_ok.mp read
  have kept : b.map ByteSpan.narrow = b := Parse.block_gives _ _ _ parsed
  have held : b.span.narrow = b.span := by
    cases b <;> exact congrArg Block.span kept
  obtain ⟨before, inside, after, split, spanned, -, separators⟩ :=
    (over_of_value_ofTokens? read).1.outside
  have closed : (front ++ "\x7d").toList.getLast? = some '\x7d' := by
    rw [String.toList_append]
    exact List.getLast?_concat
  have whole : (front ++ "\x7d").toList = before ++ inside := by
    rcases List.eq_nil_or_concat' after with rfl | ⟨_, last, rfl⟩
    · rw [split, List.append_nil]
    · rw [split, ← List.append_assoc, ← List.append_assoc, List.getLast?_concat] at closed
      have separator := separators last (by simp)
      rw [Option.some.inj closed] at separator
      cases separator
  have stop : b.span.stop = (front ++ "\x7d").utf8ByteSize := by
    rw [spanned, ← byteCount_toList, whole, byteCount_append]
  exact stop ▸ (ByteSpan.narrow_eq_iff.mp held).2

theorem Block.print_ofType (t : TypeExpr Unit) :
    (ofType t).print = "\x7bf:" ++ String.ofList (t.marks.flatMap Mark.chars) ++ "\x7d" := by
  have opening : String.ofList ([.sign .braceOpen, .word "f", .sign .colon].flatMap Mark.chars) =
      "\x7bf:" := by decide
  have closing : String.ofList ([.sign .braceClose].flatMap Mark.chars) = "\x7d" := by decide
  rw [print, marks_ofType, List.flatMap_append, List.flatMap_append, String.ofList_append,
    String.ofList_append, opening, closing]

end Syntax

namespace Shape

/-- In a block with one field `f` and no parameters, the text reads as the type. -/
def ReadsAsType (env : Environment H) (text : String) (type : ResolvedType H) : Prop :=
  ∃ o, (ofText? env ("\x7bf:" ++ text ++ "\x7d")).value = .ok (.object o) ∧
    o.fieldNames = ["f"] ∧ o.field? "f" = some ⟨"f", type, []⟩

theorem readsAsType_resolve (env : Environment K) {a : ResolvedType H}
    (valid : isValidName a.leafName = true) (flat : a.depth < Parse.maxDepth)
    (size : ("\x7bf:" ++ a.text ++ "\x7d").utf8ByteSize ≤ ByteSpan.limit) :
    ReadsAsType env a.text (a.expression.resolve env.ask).value := by
  have printed : (Syntax.Block.ofType a.expression).print = "\x7bf:" ++ a.text ++ "\x7d" := by
    rw [Syntax.Block.print_ofType, ← a.chars_expression, ResolvedType.text]
  have names : ∀ n ∈ (Syntax.Block.ofType a.expression).names, isValidName n = true := by
    have field : isValidName "f" = true := by decide
    simp [Syntax.Block.ofType, Syntax.Block.ofField, Syntax.Block.names, a.leaf_expression, valid,
      field]
  have shallow : (Syntax.Block.ofType a.expression).Shallow := by
    simpa [Syntax.Block.ofType, Syntax.Block.ofField, Syntax.Block.Shallow, Syntax.Block.types,
      Syntax.Field.types, a.depth_expression] using flat
  have written := Syntax.Block.writtenBy_print names shallow
  rw [printed] at written
  obtain ⟨block, read, bare⟩ :=
    (Syntax.Block.exists_read_iff (Token.fits_of_mem_ofText size)).mpr written
  refine ⟨.ofFields [⟨"f", (a.expression.resolve env.ask).value, []⟩], ?_, rfl, ?_⟩
  · rw [value_ofText?_of_bare env read bare]
    change Except.ok (object (Syntax.resolveFields env.ask _).value) = _
    rw [Syntax.value_resolveFields]
    rfl
  · rw [Object.ofFields, List.foldl_cons, List.foldl_nil, Object.field?_insert, if_pos rfl]

theorem not_readsAsType (env : Environment K) {text : String} (type : ResolvedType K)
    (large : ByteSpan.limit < ("\x7bf:" ++ text ++ "\x7d").utf8ByteSize) :
    ¬ ReadsAsType env text type := by
  rintro ⟨o, accepted, -⟩
  rw [value_ofText?] at accepted
  cases read : (Syntax.Block.ofText? ("\x7bf:" ++ text ++ "\x7d")).value with
  | error e =>
    rw [read] at accepted
    cases accepted
  | ok b => exact large.not_ge (Syntax.Block.utf8ByteSize_le_of_read read)

/-- The text of a type is read as an equivalent type, and as the type itself where its name means
    what the environment says, in a block whose offsets can be held; and what the types of an
    accepted text denote is written like the text under their spans in canonical form. -/
theorem types_as_written :
    (∀ (H K : Type) (env : Environment K) (a : ResolvedType H), isValidName a.leafName = true →
      a.depth < Parse.maxDepth →
        ("\x7bf:" ++ a.text ++ "\x7d").utf8ByteSize ≤ ByteSpan.limit →
          ∃ type, ReadsAsType env a.text type ∧ type.isEquivalent a = true) ∧
    (∀ (H : Type) (env : Environment H) (a : ResolvedType H), isValidName a.leafName = true →
      a.depth < Parse.maxDepth →
        ("\x7bf:" ++ a.text ++ "\x7d").utf8ByteSize ≤ ByteSpan.limit →
          env.Means a.leafName a.leafResolution → ReadsAsType env a.text a) ∧
    ∀ (H : Type) (env : Environment H) (text : String) (b : Syntax.Block ByteSpan),
      (Syntax.Block.ofText? text).value = .ok b →
        ∃ shape, (ofText? env text).value = .ok shape ∧ b.Declares env shape ∧
          ∀ t ∈ b.types, ∃ slice, t.span.slice? text = some slice ∧
            t.Denotes env (t.resolve env.ask).value ∧
              ∀ type, t.Denotes env type → type.text = canonical slice := by
  refine ⟨fun H K env a valid flat size => ?_, fun H env a valid flat size means => ?_,
    fun H env text b h => ?_⟩
  · exact ⟨_, readsAsType_resolve env valid flat size,
      ResolvedType.isEquivalent_of_denotes (a.expression.denotes_resolve env)⟩
  · have same : (a.expression.resolve env.ask).value = a :=
      ((a.expression.denotes_resolve env).eq_iff (ResolvedType.denotes_expression means)).mpr rfl
    have reads := readsAsType_resolve env valid flat size
    rwa [same] at reads
  · have read := h
    rw [Syntax.Block.value_ofText?] at h
    obtain ⟨lies, -⟩ := Syntax.Block.over_of_value_ofTokens? h
    refine ⟨(b.resolve env.ask).value, by rw [value_ofText?, read]; rfl, b.declares_resolve env, ?_⟩
    intro t ht
    obtain ⟨slice, cut, written⟩ := Syntax.TypeExpr.Over.canonical_slice (lies.types t ht)
    refine ⟨slice, cut, t.denotes_resolve env, fun type denotes => ?_⟩
    rw [written, ← denotes.chars_eq, ResolvedType.text]

theorem types_as_written_list :
    ∃ (env : Environment Nat) (a : ResolvedType Nat) (b : Syntax.Block ByteSpan),
      a = .list (.named "T" false (.environment 7)) true ∧ a.text = "[T!]" ∧
      ReadsAsType env "[T!]" a ∧
      (∃ type, ReadsAsType (.empty : Environment String) "[T!]" type ∧
        type.isEquivalent a = true) ∧
      (Syntax.Block.ofText? "\x7ba: [ T !]\x7d").value = .ok b ∧
      ∃ t ∈ b.types, t.span.slice? "\x7ba: [ T !]\x7d" = some "[ T !]" ∧
        (t.resolve env.ask).value.text = canonical "[ T !]" := by
  let env : Environment Nat := ⟨fun name => if name = "T" then some 7 else none⟩
  let a : ResolvedType Nat := .list (.named "T" false (.environment 7)) true
  let t : Syntax.TypeExpr ByteSpan :=
    .list (.named ⟨"T", ⟨6, 7⟩⟩ (some ⟨8, 9⟩) ⟨6, 9⟩) none ⟨4, 10⟩
  let b : Syntax.Block ByteSpan := .object [⟨⟨"a", ⟨1, 2⟩⟩, [], t, ⟨1, 10⟩⟩] ⟨0, 11⟩
  have written : a.text = "[T!]" := by decide
  have means : env.Means "T" (.environment 7) := .entry (Scalar.name_ne_of_ofName? (by decide)) rfl
  have read : (Syntax.Block.ofText? "\x7ba: [ T !]\x7d").value = .ok b := by
    rw [Syntax.Block.value_ofText?]
    decide +kernel
  have known : t.span.slice? "\x7ba: [ T !]\x7d" = some "[ T !]" := by decide +kernel
  have back := types_as_written.2.1 Nat env a (by decide) (by decide) (by decide) means
  have equivalent := types_as_written.1 Nat String .empty a (by decide) (by decide) (by decide)
  rw [written] at back equivalent
  obtain ⟨-, -, -, types⟩ := types_as_written.2.2 Nat env _ b read
  have listed : t ∈ b.types := List.mem_singleton.mpr rfl
  obtain ⟨slice, cut, denotes, same⟩ := types t listed
  obtain rfl : slice = "[ T !]" := Option.some.inj (cut.symm.trans known)
  exact ⟨env, a, b, rfl, written, back, equivalent, read, t, listed, known, same _ denotes⟩

theorem isValidName_replicate (n : Nat) :
    isValidName (String.ofList (List.replicate (n + 1) 'a')) = true := by
  have start : isNameStart 'a' = true := by decide
  have more : isNameChar 'a' = true := by decide
  simp [isValidName, List.replicate_succ, start, more]

theorem byteCount_replicate (n : Nat) : byteCount (List.replicate n 'a') = n := by
  have one : 'a'.utf8Size = 1 := by decide
  induction n with
  | zero => rfl
  | succ n ih => rw [List.replicate_succ, byteCount, one, ih, Nat.add_comm]

/-- A name of as many letters as there are offsets is valid and yet not read back. -/
theorem types_as_written_long_name :
    isValidName (ResolvedType.leafName (.named (String.ofList (List.replicate 4294967296 'a')) true
      (.unresolved : Resolution Nat))) = true ∧
    ResolvedType.depth (.named (String.ofList (List.replicate 4294967296 'a')) true
      (.unresolved : Resolution Nat)) < Parse.maxDepth ∧
    ¬ ∃ type, ReadsAsType (.empty : Environment Nat)
      (ResolvedType.text (.named (String.ofList (List.replicate 4294967296 'a')) true
        (.unresolved : Resolution Nat))) type := by
  have written (name : String) :
      ResolvedType.text (.named name true (.unresolved : Resolution Nat)) = name := by
    simp [ResolvedType.text, ResolvedType.chars, ResolvedType.charsThen, ResolvedType.bangUnless]
  refine ⟨isValidName_replicate 4294967295, by decide, ?_⟩
  rintro ⟨type, reads⟩
  refine not_readsAsType .empty type ?_ reads
  have opening : "\x7bf:".utf8ByteSize = 3 := by decide
  have closing : "\x7d".utf8ByteSize = 1 := by decide
  rw [written, String.utf8ByteSize_append, String.utf8ByteSize_append, opening, closing,
    utf8ByteSize_ofList, byteCount_replicate]
  decide

end Shape

end ShapeSchema
