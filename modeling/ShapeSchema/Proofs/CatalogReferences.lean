import ShapeSchema.Proofs.CatalogOperations
import ShapeSchema.Proofs.DeclaredShapes
set_option autoImplicit false

namespace ShapeSchema

variable {H σ : Type}

def Shape.types : Shape H → List (ResolvedType H)
  | .object o => o.fields.values.flatMap Shape.Field.types
  | .enum _ => []

def Shape.handles (shape : Shape H) : List H :=
  shape.types.filterMap fun t => t.leafResolution.handle?

namespace Catalog

/-- No reference leads out of the catalog. -/
def Closed (c : Catalog) : Prop :=
  ∀ name shape, c.get? name = some shape → ∀ r ∈ shape.handles, c.isDeclared r.name = true

end Catalog

theorem Environment.Means.eq_unresolved_iff {env : Environment H} {name : String}
    {meaning : Resolution H} (h : env.Means name meaning) :
    meaning = .unresolved ↔ (∀ s : Scalar, s.name ≠ name) ∧ env.lookup name = none := by
  cases h with
  | scalar s => simp
  | entry other known => simp [known]
  | unknown other absent => simpa using ⟨other, absent⟩

theorem Environment.Means.lookup_of_handle {env : Environment H} {name : String}
    {meaning : Resolution H} {handle : H} (h : env.Means name meaning)
    (hh : meaning.handle? = some handle) : env.lookup name = some handle := by
  cases h with
  | scalar s => cases hh
  | entry _ known =>
    cases hh
    exact known
  | unknown => cases hh

namespace Syntax

variable {env : Environment H}

theorem TypeExpr.Denotes.means {t : TypeExpr σ} {type : ResolvedType H} (h : t.Denotes env type) :
    env.Means type.leafName type.leafResolution := by
  induction h with
  | named known => exact known
  | list _ ih => exact ih

theorem Field.Denotes.means {d : Field σ} {f : Shape.Field H} (h : d.Denotes env f) :
    ∀ type ∈ f.types, env.Means type.leafName type.leafResolution := by
  have parameters {ps : List (Parameter σ)} {qs : List (Shape.Parameter H)}
      (hqs : List.Forall₂ (Parameter.Denotes env) ps qs) :
      ∀ q ∈ qs, env.Means q.type.leafName q.type.leafResolution := by
    induction hqs with
    | nil => simp
    | cons hq _ ih => exact List.forall_mem_cons.mpr ⟨hq.type.means, ih⟩
  intro type ht
  rw [Shape.Field.types, List.mem_append, List.mem_map, List.mem_singleton] at ht
  rcases ht with ⟨q, hq, rfl⟩ | rfl
  · exact parameters h.parameters q hq
  · exact h.type.means

theorem Block.Declares.means {b : Block σ} {shape : Shape H} (h : b.Declares env shape) :
    ∀ type ∈ shape.types, env.Means type.leafName type.leafResolution := by
  intro type ht
  cases shape with
  | enum e => simp [Shape.types] at ht
  | object o =>
    cases b with
    | enum values span => exact h.elim
    | object fields span =>
      obtain ⟨f, hf, ht⟩ := List.mem_flatMap.mp ht
      obtain ⟨⟨name, f⟩, hentry, rfl⟩ := List.mem_map.mp hf
      have known : o.field? name = some f := o.fields.get?_eq_some_iff.mpr hentry
      have declared := h.2 name
      rw [known] at declared
      revert declared
      cases lastDeclared name fields with
      | none => exact fun declared => by cases declared
      | some d =>
        rintro ⟨denotes⟩
        exact denotes.means type ht

end Syntax

namespace Catalog

variable {c : Catalog}

theorem lookup_environment {name : String} {r : Reference}
    (h : c.environment.lookup name = some r) : r.name = name ∧ c.isDeclared name = true := by
  have unfolded : c.environment.lookup name =
      if c.isDeclared name then some ⟨name⟩ else none := rfl
  rw [unfolded] at h
  split at h
  · next declared =>
    cases h
    exact ⟨rfl, declared⟩
  · cases h

theorem lookup_environment_eq_none {name : String} :
    c.environment.lookup name = none ↔ c.isDeclared name = false := by
  have unfolded : c.environment.lookup name =
      if c.isDeclared name then some ⟨name⟩ else none := rfl
  rw [unfolded]
  cases c.isDeclared name <;> simp

theorem means_of_ofText? {text : String} {shape : Shape Reference}
    (h : (Shape.ofText? c.environment text).value = .ok shape) :
    ∀ type ∈ shape.types, c.environment.Means type.leafName type.leafResolution := by
  rw [Shape.value_ofText?] at h
  cases hb : (Syntax.Block.ofText? text).value with
  | error e =>
    rw [hb] at h
    cases h
  | ok b =>
    rw [hb] at h
    cases h
    exact (b.declares_resolve c.environment).means

theorem isDeclared_of_mem_handles {text : String} {shape : Shape Reference}
    (h : (Shape.ofText? c.environment text).value = .ok shape) :
    ∀ r ∈ shape.handles, c.isDeclared r.name = true := by
  intro r hr
  obtain ⟨type, ht, hr⟩ := List.mem_filterMap.mp hr
  obtain ⟨same, declared⟩ := lookup_environment ((means_of_ofText? h type ht).lookup_of_handle hr)
  rw [same]
  exact declared

theorem Closed.withName (h : c.Closed) (name : String) : (c.withName name).Closed := by
  intro other shape hs r hr
  rw [get?_withName] at hs
  rw [isDeclared_withName, h other shape hs r hr, Bool.or_true]

theorem Closed.withShape (h : c.Closed) {shape : Shape Reference} (name : String)
    (inside : ∀ r ∈ shape.handles, c.isDeclared r.name = true) :
    (c.withShape name shape).Closed := by
  intro other found hs r hr
  rw [isDeclared_withShape]
  rw [get?_withShape] at hs
  split at hs
  · cases hs
    rw [inside r hr, Bool.or_true]
  · rw [h other found hs r hr, Bool.or_true]

/-- An operation that takes shapes from texts only keeps the catalog closed. -/
theorem Closed.apply (h : c.Closed) {op : Operation} (textual : op.FromText) :
    (op.apply c).Closed := by
  cases op with
  | define name shape => exact textual.elim
  | declare name =>
    rw [Operation.apply, value_declare]
    cases checkTypeName name with
    | error e => exact h
    | ok u => exact h.withName name
  | parseAndDefine name text =>
    rw [Operation.apply, value_parseAndDefine]
    cases checkTypeName name with
    | error e => exact h
    | ok u =>
      dsimp only
      cases hs : (Shape.ofText? (c.withName name).environment text).value with
      | error e => exact h.withName name
      | ok shape => exact (h.withName name).withShape name (isDeclared_of_mem_handles hs)

theorem Closed.after (h : c.Closed) {ops : List Operation} (textual : ∀ op ∈ ops, op.FromText) :
    (c.after ops).Closed := by
  induction ops generalizing c with
  | nil => exact h
  | cons op ops ih =>
    exact ih (h.apply (textual op List.mem_cons_self))
      fun later hl => textual later (List.mem_cons_of_mem _ hl)

theorem closed_empty : empty.Closed := by
  intro name shape h
  cases h

theorem get?_apply {op : Operation} {name : String} (keeps : ¬ op.Redefines name) :
    (op.apply c).get? name = c.get? name := by
  cases op with
  | declare other =>
    rw [Operation.apply, value_declare]
    cases checkTypeName other with
    | error e => rfl
    | ok u => exact get?_withName other name
  | define other shape =>
    rw [Operation.apply, value_define]
    cases checkTypeName other with
    | error e => rfl
    | ok u =>
      change (c.withShape other shape).get? name = _
      rw [get?_withShape, if_neg (Ne.symm keeps)]
  | parseAndDefine other text =>
    rw [Operation.apply, value_parseAndDefine]
    cases checkTypeName other with
    | error e => rfl
    | ok u =>
      dsimp only
      cases hb : (Syntax.Block.ofText? text).value with
      | error e =>
        rw [Shape.value_ofText?, hb]
        exact get?_withName other name
      | ok b =>
        have apart : name ≠ other := fun same => keeps ⟨same.symm, b, hb⟩
        rw [Shape.value_ofText?, hb]
        change ((c.withName other).withShape other _).get? name = _
        rw [get?_withShape, if_neg apart, get?_withName]

theorem get?_after {ops : List Operation} {name : String}
    (keeps : ∀ op ∈ ops, ¬ op.Redefines name) : (c.after ops).get? name = c.get? name := by
  induction ops generalizing c with
  | nil => rfl
  | cons op ops ih =>
    have first := get?_apply (c := c) (keeps op List.mem_cons_self)
    exact (ih fun later hl => keeps later (List.mem_cons_of_mem _ hl)).trans first

end Catalog

namespace Reference

variable {c : Catalog} {r : Reference}

theorem follow_eq_ok {target : Shape Reference} :
    r.follow c = .ok target ↔ c.get? r.name = some target := by
  unfold follow
  cases c.get? r.name <;> simp

theorem follow_eq_error : r.follow c = .error ⟨r.name⟩ ↔ c.get? r.name = none := by
  unfold follow
  cases c.get? r.name <;> simp

end Reference

namespace Catalog

/-- What following a reference in a shape of the catalog comes to. -/
structure Leads (c : Catalog) (r : Reference) : Prop where
  declared : c.isDeclared r.name = true
  defined : c.isDefined r.name = true →
    ∃ target, c.get? r.name = some target ∧ r.follow c = .ok target
  dangling : r.follow c = .error ⟨r.name⟩ ↔ r.name ∈ c.undefinedNames

theorem Closed.leads {c : Catalog} (h : c.Closed) {name : String} {shape : Shape Reference}
    (hs : c.get? name = some shape) {r : Reference} (hr : r ∈ shape.handles) : c.Leads r := by
  have declared := h name shape hs r hr
  refine ⟨declared, fun defined => ?_, ?_⟩
  · obtain ⟨target, ht⟩ := Option.isSome_iff_exists.mp defined
    exact ⟨target, ht, Reference.follow_eq_ok.mpr ht⟩
  · rw [Reference.follow_eq_error, mem_undefinedNames]
    simp [declared]

/-- Behind any run of declarations and definitions by texts, a reference in a shape leads to the
    shape of its name or dangles because that name is declared only. In the shape of a text just
    those names are unknown that no scalar has, that were not declared, and that are not the defined
    name itself; and they stay so until the name is defined anew. -/
theorem references_stay_inside (ops : List Operation) (textual : ∀ op ∈ ops, op.FromText) :
    (∀ name shape, (empty.after ops).get? name = some shape →
      ∀ r ∈ shape.handles, (empty.after ops).Leads r) ∧
    ((empty.after ops).undefinedNames = [] →
      ∀ name shape, (empty.after ops).get? name = some shape →
        ∀ r ∈ shape.handles, ∃ target, r.follow (empty.after ops) = .ok target) ∧
    ∀ name text shape, ((empty.after ops).parseAndDefine name text).value.1 = .ok shape →
      (∀ type ∈ shape.types, type.leafResolution = .unresolved ↔
        (∀ s : Scalar, s.name ≠ type.leafName) ∧ type.leafName ≠ name ∧
          (empty.after ops).isDeclared type.leafName = false) ∧
      ∀ later : List Operation, (∀ op ∈ later, ¬ op.Redefines name) →
        (((empty.after ops).parseAndDefine name text).value.2.after later).get? name =
          some shape := by
  have closed := closed_empty.after textual
  refine ⟨fun name shape hs r hr => closed.leads hs hr, fun none name shape hs r hr => ?_, ?_⟩
  · have leads := closed.leads hs hr
    have target : (empty.after ops).get? r.name ≠ Option.none := fun absent => by
      have dangles := leads.dangling.mp (Reference.follow_eq_error.mpr absent)
      rw [none] at dangles
      cases dangles
    obtain ⟨target, ht⟩ := Option.ne_none_iff_exists'.mp target
    exact ⟨target, Reference.follow_eq_ok.mpr ht⟩
  · intro name text shape h
    obtain ⟨read, behind⟩ := parseAndDefine_eq_ok h
    refine ⟨fun type ht => ?_, fun later keeps => ?_⟩
    · have means := means_of_ofText? read type ht
      rw [means.eq_unresolved_iff, lookup_environment_eq_none, isDeclared_withName]
      simp
    · rw [get?_after keeps, behind, get?_withShape, if_pos rfl]

/-- `B` is declared before the text, `A` by its definition, and `C` never. -/
theorem references_stay_inside_known_names :
    (∀ op ∈ [.declare "B", .parseAndDefine "A" "\x7bb:B self:[A!] c:C\x7d"],
      Operation.FromText op) ∧
    ∃ shape, ((empty.after [.declare "B"]).parseAndDefine "A"
        "\x7bb:B self:[A!] c:C\x7d").value.1 = .ok shape ∧
      shape.types.map (·.leafName) = ["B", "A", "C"] ∧
      (∀ type ∈ shape.types, type.leafResolution = .unresolved ↔
        (∀ s : Scalar, s.name ≠ type.leafName) ∧ type.leafName ≠ "A" ∧
          (empty.after [.declare "B"]).isDeclared type.leafName = false) ∧
      (empty.after [.declare "B", .parseAndDefine "A" "\x7bb:B self:[A!] c:C\x7d"]).get? "A" =
        some shape ∧
      ∀ r ∈ shape.handles,
        (empty.after [.declare "B", .parseAndDefine "A" "\x7bb:B self:[A!] c:C\x7d"]).Leads r := by
  have size : "\x7bb:B self:[A!] c:C\x7d".utf8ByteSize ≤ ByteSpan.limit := by decide
  obtain ⟨b, hb, bare⟩ := (Syntax.Block.exists_read_iff (Token.fits_of_mem_ofText size)
    (b := .object
      [⟨⟨"b", ()⟩, [], .named ⟨"B", ()⟩ none (), ()⟩,
        ⟨⟨"self", ()⟩, [], .list (.named ⟨"A", ()⟩ (some ()) ()) none (), ()⟩,
        ⟨⟨"c", ()⟩, [], .named ⟨"C", ()⟩ none (), ()⟩] ())).mpr (by decide +kernel)
  have name : checkTypeName "A" = .ok () := by decide +kernel
  have defined : ((empty.after [.declare "B"]).parseAndDefine "A"
      "\x7bb:B self:[A!] c:C\x7d").value.1 =
        .ok (b.resolve ((empty.after [.declare "B"]).withName "A").environment.ask).value := by
    rw [value_parseAndDefine, name]
    dsimp only
    rw [Shape.value_ofText?, Syntax.Block.value_ofText?, hb]
    rfl
  have first : ∀ op ∈ [Operation.declare "B"], op.FromText := by simp [Operation.FromText]
  have both : ∀ op ∈ [.declare "B", .parseAndDefine "A" "\x7bb:B self:[A!] c:C\x7d"],
      Operation.FromText op := by simp [Operation.FromText]
  obtain ⟨unknown, stays⟩ := (references_stay_inside _ first).2.2 "A" _ _ defined
  have stored := stays [] (by simp)
  refine ⟨both, _, defined, ?_, unknown, stored, ?_⟩
  · rw [← b.resolve_map _ fun _ => ()]
    change (Syntax.Block.resolve _ b.bare).value.types.map _ = _
    rw [bare]
    rfl
  · exact (references_stay_inside _ both).1 "A" _ stored

end Catalog

end ShapeSchema
