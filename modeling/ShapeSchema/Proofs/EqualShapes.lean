import Mathlib.Data.List.Perm.Subperm
import ShapeSchema.Proofs.DeclaredShapes
set_option autoImplicit false

namespace ShapeSchema

variable {H σ τ : Type}

theorem length_eq_and_subset_iff {as bs : List String} (nodup : as.Nodup) (nodup' : bs.Nodup) :
    (as.length = bs.length ∧ as ⊆ bs) ↔ ∀ a, a ∈ as ↔ a ∈ bs := by
  constructor
  · rintro ⟨size, inside⟩ a
    exact ((List.subperm_of_subset nodup inside).perm_of_length_le size.ge).mem_iff
  · intro same
    have perm := (List.perm_ext_iff_of_nodup nodup nodup').mpr same
    exact ⟨perm.length_eq, perm.subset⟩

theorem OrderedMap.beq_iff {α : Type} [BEq α] [LawfulBEq α] (m n : OrderedMap α) :
    (m == n) = true ↔ ∀ name, m.get? name = n.get? name := by
  have sizes : m.size = m.names.length ∧ n.size = n.names.length := by simp [size, names]
  have unfolded : (m == n) = true ↔
      m.names.length = n.names.length ∧ ∀ entry ∈ m.entries, n.get? entry.1 = some entry.2 := by
    change m.beq n = true ↔ _
    simp only [beq, Bool.and_eq_true, beq_iff_eq, List.all_eq_true, sizes]
  rw [unfolded]
  constructor
  · rintro ⟨size, found⟩ name
    have inside : m.names ⊆ n.names := by
      intro other hother
      obtain ⟨entry, hentry, rfl⟩ := List.mem_map.mp hother
      rw [n.mem_names_iff, contains, found entry hentry]
      rfl
    have listed := (length_eq_and_subset_iff m.nodup n.nodup).mp ⟨size, inside⟩ name
    cases hm : m.get? name with
    | some value => exact (found _ (m.get?_eq_some_iff.mp hm)).symm
    | none =>
      have absent : ¬ n.contains name = true := by
        rw [← n.mem_names_iff]
        intro there
        have here := m.mem_names_iff.mp (listed.mpr there)
        rw [contains, hm] at here
        cases here
      exact (Option.not_isSome_iff_eq_none.mp absent).symm
  · intro same
    have listed (name : String) : name ∈ m.names ↔ name ∈ n.names := by
      rw [m.mem_names_iff, n.mem_names_iff, contains, contains, same]
    refine ⟨((length_eq_and_subset_iff m.nodup n.nodup).mpr listed).1, fun entry hentry => ?_⟩
    rw [← same]
    exact m.get?_eq_some_iff.mpr hentry

namespace Shape

theorem Object.beq_iff [DecidableEq H] (o p : Object H) :
    (o == p) = true ↔ ∀ name, o.field? name = p.field? name :=
  o.fields.beq_iff p.fields

theorem Enum.beq_iff (e f : Enum) :
    (e == f) = true ↔ ∀ value, e.contains value = true ↔ f.contains value = true := by
  have unfolded : (e == f) = true ↔ e.values.length = f.values.length ∧ e.values ⊆ f.values := by
    change (e.values.length == f.values.length && e.values.all f.values.contains) = true ↔ _
    rw [Bool.and_eq_true, beq_iff_eq, List.all_eq_true]
    simp only [List.contains_iff_mem]
    rfl
  rw [unfolded, length_eq_and_subset_iff e.nodup f.nodup]
  simp only [contains, List.contains_iff_mem]

end Shape

theorem Environment.Means.eq_resolve {env : Environment H} {name : String}
    {meaning : Resolution H} (h : env.Means name meaning) :
    meaning = (env.resolve name).value := by
  have plain (others : ∀ s : Scalar, s.name ≠ name) : Scalar.ofName? name = none :=
    Option.eq_none_iff_forall_ne_some.mpr fun s hs => others s (Scalar.name_eq_of_ofName? hs)
  rw [value_resolve]
  cases h with
  | scalar s => rw [s.ofName?_name]
  | entry others known => rw [plain others, known]
  | unknown others absent => rw [plain others, absent]

namespace Syntax

structure Field.SameDeclaration (d : Field σ) (e : Field τ) : Prop where
  type : (d.type.map fun _ => ()) = e.type.map fun _ => ()
  parameters : (d.parameters.map (·.map fun _ => ())) = e.parameters.map (·.map fun _ => ())

/-- The blocks declare the same names. The last declarations of each field are the same. -/
def Block.SameDeclarations : Block σ → Block τ → Prop
  | .object fields _, .object others _ =>
    (∀ name, name ∈ fields.map (·.name.text) ↔ name ∈ others.map (·.name.text)) ∧
      ∀ name, ∀ d ∈ lastDeclared name fields, ∀ e ∈ lastDeclared name others, d.SameDeclaration e
  | .enum values _, .enum others _ =>
    ∀ value, value ∈ values.map (·.text) ↔ value ∈ others.map (·.text)
  | _, _ => False

section Denotes

variable {env : Environment H}

theorem TypeExpr.Denotes.eq_iff {t : TypeExpr σ} {u : TypeExpr τ} {type other : ResolvedType H}
    (h : t.Denotes env type) (h' : u.Denotes env other) :
    type = other ↔ (t.map fun _ => ()) = u.map fun _ => () := by
  have bangs (b : Option σ) (c : Option τ) :
      b.isNone = c.isNone ↔ (b.map fun _ => ()) = c.map fun _ => () := by
    cases b <;> cases c <;> simp
  induction h generalizing u other with
  | @named name bang span meaning means =>
    cases h' with
    | @named name' bang' span' meaning' means' =>
      have meanings (same : name.text = name'.text) : meaning = meaning' :=
        (same ▸ means).eq_resolve.trans means'.eq_resolve.symm
      simp only [map, Name.map, ResolvedType.named.injEq, named.injEq, Name.mk.injEq, bangs,
        and_true]
      exact ⟨fun same => ⟨same.1, same.2.1⟩, fun same => ⟨same.1, same.2, meanings same.1⟩⟩
    | list => simp [map]
  | @list element bang span type _ ih =>
    cases h' with
    | named => simp [map]
    | list h' => simp only [map, ResolvedType.list.injEq, list.injEq, bangs, ih h', and_true]

theorem Parameter.Denotes.eq_iff {p : Parameter σ} {q : Parameter τ} {r s : Shape.Parameter H}
    (h : p.Denotes env r) (h' : q.Denotes env s) :
    r = s ↔ (p.map fun _ => ()) = q.map fun _ => () := by
  cases r
  cases s
  obtain ⟨rfl, type⟩ := h
  obtain ⟨rfl, type'⟩ := h'
  simp [Parameter.map, Name.map, type.eq_iff type']

theorem eq_iff_of_forall₂ {ps : List (Parameter σ)} {qs : List (Parameter τ)}
    {rs ss : List (Shape.Parameter H)} (h : List.Forall₂ (Parameter.Denotes env) ps rs)
    (h' : List.Forall₂ (Parameter.Denotes env) qs ss) :
    rs = ss ↔ (ps.map (·.map fun _ => ())) = qs.map (·.map fun _ => ()) := by
  induction h generalizing qs ss with
  | nil => cases h' <;> simp
  | cons hp _ ih =>
    cases h' with
    | nil => simp
    | cons hq h' => simp [hp.eq_iff hq, ih h']

theorem Field.Denotes.eq_iff {d : Field σ} {e : Field τ} {f g : Shape.Field H}
    (h : d.Denotes env f) (h' : e.Denotes env g) (named : d.name.text = e.name.text) :
    f = g ↔ d.SameDeclaration e := by
  have names : f.name = g.name := h.name.trans (named.trans h'.name.symm)
  have types := h.type.eq_iff h'.type
  have parameters := eq_iff_of_forall₂ h.parameters h'.parameters
  constructor
  · rintro rfl
    exact ⟨types.mp rfl, parameters.mp rfl⟩
  · intro same
    cases f
    cases g
    simp only [Shape.Field.mk.injEq]
    exact ⟨names, types.mpr same.type, parameters.mpr same.parameters⟩

end Denotes

theorem name_of_mem_lastDeclared {name : String} {fields : List (Field σ)} {d : Field σ}
    (h : d ∈ lastDeclared name fields) : d.name.text = name := by
  have kept := List.mem_of_mem_getLast? h
  simpa using (List.mem_filter.mp kept).2

theorem isSome_lastDeclared {name : String} {fields : List (Field σ)} :
    (lastDeclared name fields).isSome = true ↔ name ∈ fields.map (·.name.text) := by
  simp [lastDeclared, List.mem_map]

theorem field?_eq_iff {env : Environment H} {name : String} {fields : List (Field σ)}
    {others : List (Field τ)} {f g : Option (Shape.Field H)}
    (h : Option.Rel (Field.Denotes env) (lastDeclared name fields) f)
    (h' : Option.Rel (Field.Denotes env) (lastDeclared name others) g) :
    f = g ↔ (name ∈ fields.map (·.name.text) ↔ name ∈ others.map (·.name.text)) ∧
      ∀ d ∈ lastDeclared name fields, ∀ e ∈ lastDeclared name others, d.SameDeclaration e := by
  rw [← isSome_lastDeclared, ← isSome_lastDeclared]
  generalize hd : lastDeclared name fields = d at h
  generalize he : lastDeclared name others = e at h'
  cases h with
  | none => cases h' <;> simp
  | some hf =>
    cases h' with
    | none => simp
    | some hg =>
      have named := (name_of_mem_lastDeclared hd).trans (name_of_mem_lastDeclared he).symm
      simp [hf.eq_iff hg named]

theorem Block.Declares.beq_iff [DecidableEq H] {env : Environment H} {b : Block σ} {c : Block τ}
    {shape other : Shape H} (h : b.Declares env shape) (h' : c.Declares env other) :
    (shape == other) = true ↔ b.SameDeclarations c := by
  cases b with
  | object fields span =>
    cases shape with
    | enum e => exact h.elim
    | object o =>
      cases c with
      | object others span =>
        cases other with
        | enum f => exact h'.elim
        | object p =>
          change (o == p) = true ↔ _
          rw [Shape.Object.beq_iff, SameDeclarations, ← forall_and]
          exact forall_congr' fun name => field?_eq_iff (h.2 name) (h'.2 name)
      | enum values span =>
        cases other with
        | object p => exact h'.elim
        | enum f => exact iff_of_false Bool.false_ne_true id
  | enum values span =>
    cases shape with
    | object o => exact h.elim
    | enum e =>
      cases c with
      | object others span =>
        cases other with
        | enum f => exact h'.elim
        | object p => exact iff_of_false Bool.false_ne_true id
      | enum others span =>
        cases other with
        | object p => exact h'.elim
        | enum f =>
          change (e == f) = true ↔ _
          rw [Shape.Enum.beq_iff, SameDeclarations]
          refine forall_congr' fun value => ?_
          rw [h.2, h'.2, List.mem_map, List.mem_map]

end Syntax

namespace Shape

/-- The shapes of two texts, in one environment, are equal when the texts declare the same names and
    agree in the last declaration of each field. -/
theorem ofText?_beq_iff [DecidableEq H] (env : Environment H) {text other : String}
    {b c : Syntax.Block ByteSpan} (h : (Syntax.Block.ofText? text).value = .ok b)
    (h' : (Syntax.Block.ofText? other).value = .ok c) :
    ∃ shape shape', (ofText? env text).value = .ok shape ∧ (ofText? env other).value = .ok shape' ∧
      b.Declares env shape ∧ c.Declares env shape' ∧
      ((shape == shape') = true ↔ b.SameDeclarations c) := by
  have declares := b.declares_resolve env
  have declares' := c.declares_resolve env
  refine ⟨_, _, ?_, ?_, declares, declares', declares.beq_iff declares'⟩
  · rw [value_ofText?, h]
    rfl
  · rw [value_ofText?, h']
    rfl

theorem ofText?_beq_iff_reordered :
    ∃ b c shape shape',
      (Syntax.Block.ofText? "\x7ba:Int b(x:[T!]!,y:U):V\x7d").value = .ok b ∧
      (Syntax.Block.ofText? "\x7bb(x:[T!]!,y:U):V a:W a:Int\x7d").value = .ok c ∧
      (ofText? (.empty : Environment Nat) "\x7ba:Int b(x:[T!]!,y:U):V\x7d").value = .ok shape ∧
      (ofText? (.empty : Environment Nat) "\x7bb(x:[T!]!,y:U):V a:W a:Int\x7d").value =
        .ok shape' ∧
      (shape == shape') = true ∧ b.SameDeclarations c := by
  have size : "\x7ba:Int b(x:[T!]!,y:U):V\x7d".utf8ByteSize ≤ ByteSpan.limit := by decide
  have size' : "\x7bb(x:[T!]!,y:U):V a:W a:Int\x7d".utf8ByteSize ≤ ByteSpan.limit := by decide
  let a (type : String) : Syntax.Field Unit := ⟨⟨"a", ()⟩, [], .named ⟨type, ()⟩ none (), ()⟩
  let b : Syntax.Field Unit := ⟨⟨"b", ()⟩,
    [⟨⟨"x", ()⟩, .list (.named ⟨"T", ()⟩ (some ()) ()) (some ()) (), ()⟩,
      ⟨⟨"y", ()⟩, .named ⟨"U", ()⟩ none (), ()⟩], .named ⟨"V", ()⟩ none (), ()⟩
  obtain ⟨block, read, bare⟩ := (Syntax.Block.exists_read_iff (Token.fits_of_mem_ofText size)
    (b := .object [a "Int", b] ())).mpr (by decide +kernel)
  obtain ⟨other, read', bare'⟩ := (Syntax.Block.exists_read_iff (Token.fits_of_mem_ofText size')
    (b := .object [b, a "W", a "Int"] ())).mpr (by decide +kernel)
  obtain ⟨shape, shape', hs, hs', -, -, equal⟩ :=
    ofText?_beq_iff (.empty : Environment Nat) read read'
  have same : (shape == shape') = true := by
    have known := hs.symm.trans (value_ofText?_of_bare _ read bare)
    have known' := hs'.symm.trans (value_ofText?_of_bare _ read' bare')
    rw [Except.ok.inj known, Except.ok.inj known']
    decide +kernel
  exact ⟨block, other, shape, shape', read, read', hs, hs', same, equal.mp same⟩

end Shape

end ShapeSchema
