import ShapeSchema.Proofs.CanonicalOutcome
set_option autoImplicit false

namespace ShapeSchema

variable {H σ : Type}

/-- The meaning of a type name. Built-in scalars mean themselves in every environment. -/
inductive Environment.Means (env : Environment H) : String → Resolution H → Prop
  | scalar (s : Scalar) : Means env s.name (.scalar s)
  | entry {name handle} : (∀ s : Scalar, s.name ≠ name) → env.lookup name = some handle →
      Means env name (.environment handle)
  | unknown {name} : (∀ s : Scalar, s.name ≠ name) → env.lookup name = none →
      Means env name .unresolved

namespace Syntax

inductive TypeExpr.Denotes (env : Environment H) : TypeExpr σ → ResolvedType H → Prop
  | named {name bang span meaning} : env.Means name.text meaning →
      Denotes env (.named name bang span) (.named name.text bang.isNone meaning)
  | list {element bang span type} : Denotes env element type →
      Denotes env (.list element bang span) (.list type bang.isNone)

structure Parameter.Denotes (env : Environment H) (p : Parameter σ) (q : Shape.Parameter H) :
    Prop where
  name : q.name = p.name.text
  type : p.type.Denotes env q.type

/-- The field keeps all parameters in their order, those of equal names too. -/
structure Field.Denotes (env : Environment H) (d : Field σ) (f : Shape.Field H) : Prop where
  name : f.name = d.name.text
  parameters : List.Forall₂ (Parameter.Denotes env) d.parameters f.parameters
  type : d.type.Denotes env f.type

def lastDeclared (name : String) (fields : List (Field σ)) : Option (Field σ) :=
  (fields.filter (·.name.text = name)).getLast?

/-- The shape lists the declared names where they occur first. For each field name it has what the
    last declaration denotes, and nothing where there is no declaration. -/
def Block.Declares (env : Environment H) : Block σ → Shape H → Prop
  | .object fields _, .object o =>
    o.fieldNames = (fields.map (·.name.text)).eraseDups ∧
      ∀ name, Option.Rel (Field.Denotes env) (lastDeclared name fields) (o.field? name)
  | .enum values _, .enum e =>
    e.values = (values.map (·.text)).eraseDups ∧
      ∀ value, e.contains value = true ↔ ∃ v ∈ values, v.text = value
  | _, _ => False

end Syntax

theorem Scalar.name_ne_of_ofName? {name : String} (h : Scalar.ofName? name = none) (s : Scalar) :
    s.name ≠ name := by
  rintro rfl
  rw [s.ofName?_name] at h
  cases h

theorem Environment.value_resolve (env : Environment H) (name : String) :
    (env.resolve name).value = match Scalar.ofName? name with
      | some s => .scalar s
      | none => match env.lookup name with
        | some handle => .environment handle
        | none => .unresolved := by
  unfold resolve Asking.resolve
  cases Scalar.ofName? name with
  | some s => rfl
  | none =>
    dsimp only
    rw [Journal.value_bind, (env.ask_eq name).1]
    cases env.lookup name <;> rfl

theorem Environment.means_resolve (env : Environment H) (name : String) :
    env.Means name (env.resolve name).value := by
  rw [value_resolve]
  cases hs : Scalar.ofName? name with
  | some s =>
    rw [← Scalar.name_eq_of_ofName? hs]
    exact .scalar s
  | none =>
    have other := Scalar.name_ne_of_ofName? hs
    cases hl : env.lookup name with
    | some handle => exact .entry other hl
    | none => exact .unknown other hl

theorem Journal.value_mapM {α β : Type} (f : α → Journal β) (as : List α) :
    (as.mapM f).value = as.map fun a => (f a).value := by
  induction as with
  | nil => rfl
  | cons a as ih =>
    rw [List.mapM_cons, value_bind, List.map_cons, ← ih]
    rfl

namespace Syntax

variable (env : Environment H)

theorem TypeExpr.denotes_resolve (t : TypeExpr σ) : t.Denotes env (t.resolve env.ask).value := by
  induction t with
  | named name bang span => exact .named (env.means_resolve name.text)
  | list element bang span ih => exact .list ih

theorem Parameter.denotes_resolve (p : Parameter σ) : p.Denotes env (p.resolve env.ask).value :=
  ⟨rfl, p.type.denotes_resolve env⟩

theorem Field.denotes_resolve (d : Field σ) : d.Denotes env (d.resolve env.ask).value := by
  refine ⟨rfl, ?_, d.type.denotes_resolve env⟩
  change List.Forall₂ _ _ (d.parameters.mapM (Parameter.resolve env.ask)).value
  rw [Journal.value_mapM, List.forall₂_map_right_iff]
  exact List.forall₂_same.mpr fun p _ => p.denotes_resolve env

theorem Field.value_declare (o : Shape.Object H) (d : Field σ) :
    (d.declare env.ask o).value = o.insert (d.resolve env.ask).value := by
  simp only [declare, Journal.value_bind]
  cases o.field? (d.resolve env.ask).value.name <;> rfl

theorem value_foldlM_declare (fields : List (Field σ)) (o : Shape.Object H) :
    (fields.foldlM (Field.declare env.ask) o).value =
      fields.foldl (fun o d => o.insert (d.resolve env.ask).value) o := by
  induction fields generalizing o with
  | nil => rfl
  | cons d fields ih =>
    rw [List.foldlM_cons, Journal.value_bind, Field.value_declare, ih, List.foldl_cons]

theorem value_resolveFields (fields : List (Field σ)) :
    (resolveFields env.ask fields).value =
      fields.foldl (fun o d => o.insert (d.resolve env.ask).value) .empty := by
  rw [← value_foldlM_declare]
  simp only [resolveFields, Journal.value_bind]
  split <;> rfl

theorem value_resolveValues (values : List (Name σ)) :
    (resolveValues values).value = .ofValues (values.map (·.text)) := by
  simp only [resolveValues]
  split <;> rfl

end Syntax

namespace Shape.Object

theorem field?_insert (o : Object H) (f : Field H) (name : String) :
    (o.insert f).field? name = if name = f.name then some f else o.field? name :=
  o.fields.get?_insert f.name name f

theorem fields_foldl_insert {β : Type} (toField : β → Field H) (bs : List β) :
    (bs.foldl (fun o b => o.insert (toField b)) empty).fields =
      .ofList (bs.map fun b => ((toField b).name, toField b)) := by
  rw [OrderedMap.ofList, List.foldl_map]
  exact (List.foldl_hom fields fun _ _ => rfl).symm

end Shape.Object

namespace Syntax

variable {α : Type} {resolve : Field σ → Shape.Field H}

theorem fieldNames_foldl_insert (same : ∀ d, (resolve d).name = d.name.text)
    (fields : List (Field σ)) :
    (fields.foldl (fun o d => o.insert (resolve d)) Shape.Object.empty).fieldNames =
      (fields.map (·.name.text)).eraseDups := by
  rw [Shape.Object.fieldNames, Shape.Object.fields_foldl_insert, OrderedMap.names_ofList,
    List.map_map]
  exact congrArg (fun name => (fields.map name).eraseDups) (funext same)

theorem field?_foldl_insert (same : ∀ d, (resolve d).name = d.name.text) (name : String)
    (fields : List (Field σ)) :
    (fields.foldl (fun o d => o.insert (resolve d)) Shape.Object.empty).field? name =
      (lastDeclared name fields).map resolve := by
  have named : (fun d => decide ((resolve d).name = name)) = fun d => decide (d.name.text = name) :=
    funext fun d => by rw [same]
  rw [Shape.Object.field?, Shape.Object.fields_foldl_insert, OrderedMap.get?_ofList,
    lastNamed, List.filter_map, List.getLast?_map, Option.map_map, lastDeclared, ← named]
  rfl

theorem Block.declares_resolve (env : Environment H) (b : Block σ) :
    b.Declares env (b.resolve env.ask).value := by
  cases b with
  | object fields span =>
    have same (d : Field σ) : (d.resolve env.ask).value.name = d.name.text :=
      (d.denotes_resolve env).name
    change Declares env _ (.object (resolveFields env.ask fields).value)
    rw [value_resolveFields]
    refine ⟨fieldNames_foldl_insert same fields, fun name => ?_⟩
    rw [field?_foldl_insert same]
    cases lastDeclared name fields with
    | none => exact .none
    | some d => exact .some (d.denotes_resolve env)
  | enum values span =>
    change Declares env _ (.enum (resolveValues values).value)
    rw [value_resolveValues]
    have listed : (Shape.Enum.ofValues (values.map (·.text))).values =
        (values.map (·.text)).eraseDups := distinct_eq_eraseDups _
    refine ⟨listed, fun value => ?_⟩
    rw [Shape.Enum.contains, List.contains_iff_mem, listed, List.mem_eraseDups, List.mem_map]

end Syntax

namespace Shape

/-- Whatever the environment, an accepted text has a shape, and it is the one that its tree
    declares. -/
theorem ofText?_declares (env : Environment H) {text : String} {b : Syntax.Block ByteSpan}
    (h : (Syntax.Block.ofText? text).value = .ok b) :
    ∃ shape, (ofText? env text).value = .ok shape ∧ b.Declares env shape := by
  refine ⟨(b.resolve env.ask).value, ?_, b.declares_resolve env⟩
  rw [value_ofText?, h]
  rfl

theorem ofText?_declares_field_twice :
    ∃ b o, (Syntax.Block.ofText? "\x7ba:Int b(x:[T!]!,x:U):V a:[T]\x7d").value = .ok b ∧
      (ofText? ⟨fun n => if n = "T" ∨ n = "Int" then some n.length else none⟩
        "\x7ba:Int b(x:[T!]!,x:U):V a:[T]\x7d").value = .ok (.object o) ∧
      b.Declares ⟨fun n => if n = "T" ∨ n = "Int" then some n.length else none⟩ (.object o) ∧
      o.fieldNames = ["a", "b"] := by
  have size : "\x7ba:Int b(x:[T!]!,x:U):V a:[T]\x7d".utf8ByteSize ≤ ByteSpan.limit := by decide
  obtain ⟨b, hb, bare⟩ := (Syntax.Block.exists_read_iff (Token.fits_of_mem_ofText size)
    (b := .object
      [⟨⟨"a", ()⟩, [], .named ⟨"Int", ()⟩ none (), ()⟩,
        ⟨⟨"b", ()⟩,
          [⟨⟨"x", ()⟩, .list (.named ⟨"T", ()⟩ (some ()) ()) (some ()) (), ()⟩,
            ⟨⟨"x", ()⟩, .named ⟨"U", ()⟩ none (), ()⟩],
          .named ⟨"V", ()⟩ none (), ()⟩,
        ⟨⟨"a", ()⟩, [], .list (.named ⟨"T", ()⟩ none ()) none (), ()⟩] ())).mpr (by decide +kernel)
  obtain ⟨shape, hshape, declares⟩ :=
    ofText?_declares ⟨fun n => if n = "T" ∨ n = "Int" then some n.length else none⟩ hb
  cases b with
  | enum values span => cases bare
  | object fields span =>
    cases shape with
    | enum e => exact declares.elim
    | object o =>
      refine ⟨_, o, hb, hshape, declares, ?_⟩
      injection bare with same
      have names := congrArg (List.map (·.name.text)) same
      rw [List.map_map] at names
      rw [declares.1]
      exact congrArg List.eraseDups names

end Shape

end ShapeSchema
