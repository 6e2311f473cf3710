import ShapeSchema.Proofs.CatalogHistories
import ShapeSchema.Proofs.DeclaredShapes
import ShapeSchema.Proofs.PersistedShapes
set_option autoImplicit false

namespace ShapeSchema

namespace Shape.Object

variable {H : Type}

def KeyedByName (o : Object H) : Prop := ∀ name f, o.field? name = some f → f.name = name

theorem keyedByName_iff_entries (o : Object H) :
    o.KeyedByName ↔ ∀ entry ∈ o.fields.entries, entry.1 = entry.2.name := by
  refine ⟨fun keyed entry hm => (keyed _ _ (o.fields.get?_eq_some_iff.mpr hm)).symm, ?_⟩
  exact fun same name f held => (same _ (o.fields.get?_eq_some_iff.mp held)).symm

theorem keyedByName_iff_fieldNames (o : Object H) :
    o.KeyedByName ↔ o.fieldNames = o.fields.values.map Field.name := by
  rw [keyedByName_iff_entries, fieldNames, OrderedMap.names, OrderedMap.values, List.map_map,
    List.map_inj_left]
  rfl

theorem KeyedByName.insert {o : Object H} (keyed : o.KeyedByName) (f : Field H) :
    (o.insert f).KeyedByName := by
  intro name g held
  rw [field?_insert] at held
  split at held
  · next h =>
    cases held
    exact h.symm
  · exact keyed name g held

theorem keyedByName_ofFields (fields : List (Field H)) : (ofFields fields).KeyedByName := by
  have folded (o : Object H) (keyed : o.KeyedByName) : (fields.foldl insert o).KeyedByName := by
    induction fields generalizing o with
    | nil => exact keyed
    | cons f fields ih => exact ih _ (keyed.insert f)
  exact folded empty fun name f held => by cases held

theorem keyedByName_iff_exists_ofFields (o : Object H) :
    o.KeyedByName ↔ ∃ fields, o = ofFields fields := by
  constructor
  · intro keyed
    have rekeyed : (o.fields.values.map fun f => (f.name, f)) = o.fields.entries := by
      rw [OrderedMap.values, List.map_map]
      refine (List.map_congr_left fun entry hm => ?_).trans (List.map_id _)
      exact congrArg (·, entry.2) (o.keyedByName_iff_entries.mp keyed entry hm).symm
    have same : (ofFields o.fields.values).fields = o.fields := by
      refine (fields_foldl_insert id o.fields.values).trans ?_
      exact (congrArg OrderedMap.ofList rekeyed).trans o.fields.ofList_entries
    exact ⟨o.fields.values, congrArg Object.mk same.symm⟩
  · rintro ⟨fields, rfl⟩
    exact keyedByName_ofFields fields

end Shape.Object

namespace Json

variable {α β : Type}

/-- The members of the object that the text has in the only field of its record. -/
def WritesUnder (key text : String) (members : List (String × Json)) : Prop :=
  ∃ v, parse? text = some v ∧ v.fields? [key] = some [.obj members]

def fieldName? (v : Json) : Option String :=
  match v.fields? ["name", "type_annotation", "parameters"] with
  | some (name :: _) => name.string?
  | _ => none

def mapRecord? (key : String) (value? : Json → Option α) (make : OrderedMap α → β) (v : Json) :
    Option β :=
  match v.fields? [key] with
  | some [content] => return make (← content.map? value?)
  | _ => none

variable {value? : Json → Option α}

theorem exists_members_of_mapM {raw : List (Option String × Json)} {entries : List (String × α)}
    (h : raw.mapM (memberOf? value?) = some entries) :
    ∃ members : List (String × Json),
      raw = members.map (fun member => (some member.1, member.2)) ∧
      members.map (fun member => (member.1, value? member.2)) =
        entries.map fun entry => (entry.1, some entry.2) := by
  induction raw generalizing entries with
  | nil =>
    cases h
    exact ⟨[], rfl, rfl⟩
  | cons member raw ih =>
    obtain ⟨key, v⟩ := member
    simp only [List.mapM_cons, memberOf?, Option.bind_eq_bind, Option.bind_eq_some_iff,
      Option.pure_def, Option.some.injEq] at h
    obtain ⟨entry, ⟨name, rfl, a, ha, rfl⟩, later, hlater, rfl⟩ := h
    obtain ⟨members, rfl, same⟩ := ih hlater
    exact ⟨(name, v) :: members, rfl, by simp [ha, same]⟩

/-- What a map that was read has to do with the members of its object. -/
structure ReadFrom (value? : Json → Option α) (members : List (String × Json))
    (m : OrderedMap α) : Prop where
  names_eq : m.names = (members.map Prod.fst).eraseDups
  /-- Of several members with one name the last counts. -/
  get?_eq : ∀ name, (m.get? name).map some = (lastNamed name members).map value?

theorem readFrom_of_map? {content : Json} {m : OrderedMap α} (h : content.map? value? = some m) :
    ∃ members, content = .obj members ∧ ReadFrom value? members m := by
  cases content with
  | object raw =>
    obtain ⟨entries, hentries, rfl⟩ := Option.map_eq_some_iff.mp h
    obtain ⟨members, rfl, same⟩ := exists_members_of_mapM hentries
    have names := congrArg (List.map Prod.fst) same
    rw [List.map_map, List.map_map] at names
    refine ⟨members, rfl, ?_, fun name => ?_⟩
    · rw [OrderedMap.names_ofList]
      exact congrArg List.eraseDups names.symm
    · rw [OrderedMap.get?_ofList, ← lastNamed_map, ← lastNamed_map, same]
  | _ => cases h

theorem ReadFrom.exists_value {members : List (String × Json)} {m : OrderedMap α} {name : String}
    {a : α} (h : ReadFrom value? members m) (held : m.get? name = some a) :
    ∃ v, lastNamed name members = some v ∧ value? v = some a := by
  have same := h.get?_eq name
  rw [held] at same
  exact Option.map_eq_some_iff.mp same.symm

theorem ReadFrom.exists_held {members : List (String × Json)} {m : OrderedMap α} {name : String}
    {v : Json} (h : ReadFrom value? members m) (last : lastNamed name members = some v) :
    ∃ a, m.get? name = some a ∧ value? v = some a := by
  have same := h.get?_eq name
  rw [last] at same
  obtain ⟨a, held, ha⟩ := Option.map_eq_some_iff.mp same
  exact ⟨a, held, ha.symm⟩

end Json

namespace Codec

variable {H α β : Type}

theorem exists_members_of_read? {c : Codec β} {key text : String} {value? : Json → Option α}
    {make : OrderedMap α → β} {b : β} (form : c.decode? = Json.mapRecord? key value? make)
    (h : c.read? text = some b) :
    ∃ members m, b = make m ∧ Json.WritesUnder key text members ∧
      Json.ReadFrom value? members m := by
  obtain ⟨v, parsed, decoded⟩ := Option.bind_eq_some_iff.mp h
  rw [form, Json.mapRecord?] at decoded
  split at decoded
  · next content record =>
    obtain ⟨m, hm, made⟩ := Option.bind_eq_some_iff.mp decoded
    obtain ⟨members, rfl, read⟩ := Json.readFrom_of_map? hm
    exact ⟨members, m, (Option.some.inj made).symm, ⟨v, parsed, record⟩, read⟩
  · cases decoded

variable (handle : Codec H)

theorem decode?_bindings :
    (bindings handle).decode? = Json.mapRecord? "types" handle.decode? Bindings.mk := rfl

theorem decode?_catalog : catalog.decode? =
    Json.mapRecord? "types" (optional (shape reference)).decode? Catalog.mk := rfl

theorem decode?_object : (object handle).decode? =
    Json.mapRecord? "fields" (field handle).decode? Shape.Object.mk := rfl

variable {handle}

theorem fieldName?_of_decode? {v : Json} {f : Shape.Field H}
    (h : (field handle).decode? v = some f) : v.fieldName? = some f.name := by
  unfold field at h
  dsimp only at h
  split at h
  · next name type parameters record =>
    simp only [Option.bind_eq_bind, Option.bind_eq_some_iff, Option.pure_def,
      Option.some.injEq] at h
    obtain ⟨-, -, -, -, name', hname, -, -, rfl⟩ := h
    rw [Json.fieldName?, record]
    exact hname
  · cases h

theorem keyedByName_iff_of_readFrom {members : List (String × Json)} {o : Shape.Object H}
    (h : Json.ReadFrom (field handle).decode? members o.fields) :
    o.KeyedByName ↔
      ∀ name v, lastNamed name members = some v → v.fieldName? = some name := by
  constructor
  · intro keyed name v last
    obtain ⟨f, held, decoded⟩ := h.exists_held last
    rw [fieldName?_of_decode? decoded, keyed name f held]
  · intro written name f held
    obtain ⟨v, last, decoded⟩ := h.exists_value held
    have own := written name v last
    rw [fieldName?_of_decode? decoded] at own
    exact Option.some.inj own

/-- Reading checks no names. What was read from a text holds usable names only, and has each field
    under its own name, exactly when the text does. -/
theorem read?_names_as_written (handle : Codec H) (text : String) :
    (∀ b, (bindings handle).read? text = some b → ∃ members,
      Json.WritesUnder "types" text members ∧ b.names = (members.map Prod.fst).eraseDups ∧
      ((∀ name ∈ b.names, Usable name) ↔ ∀ member ∈ members, Usable member.1)) ∧
    (∀ c, catalog.read? text = some c → ∃ members,
      Json.WritesUnder "types" text members ∧ c.names = (members.map Prod.fst).eraseDups ∧
      ((∀ name ∈ c.names, Usable name) ↔ ∀ member ∈ members, Usable member.1)) ∧
    ∀ o, (object handle).read? text = some o → ∃ members,
      Json.WritesUnder "fields" text members ∧ o.fieldNames = (members.map Prod.fst).eraseDups ∧
      (o.KeyedByName ↔
        ∀ name v, lastNamed name members = some v → v.fieldName? = some name) ∧
      (o.KeyedByName ↔ o.fieldNames = o.fields.values.map Shape.Field.name) := by
  have usable {members : List (String × Json)} {names : List String}
      (h : names = (members.map Prod.fst).eraseDups) :
      (∀ name ∈ names, Usable name) ↔ ∀ member ∈ members, Usable member.1 := by
    simp only [h, List.mem_eraseDups, List.forall_mem_map]
  refine ⟨fun b hb => ?_, fun c hc => ?_, fun o ho => ?_⟩
  · obtain ⟨members, m, rfl, written, read⟩ := exists_members_of_read? (decode?_bindings handle) hb
    exact ⟨members, written, read.names_eq, usable read.names_eq⟩
  · obtain ⟨members, m, rfl, written, read⟩ := exists_members_of_read? decode?_catalog hc
    exact ⟨members, written, read.names_eq, usable read.names_eq⟩
  · obtain ⟨members, m, rfl, written, read⟩ := exists_members_of_read? (decode?_object handle) ho
    exact ⟨members, written, read.names_eq, keyedByName_iff_of_readFrom read,
      Shape.Object.keyedByName_iff_fieldNames _⟩

theorem read?_names_as_written_usable :
    (∃ b members, (bindings string).read? "[\x7b\"B\":\"x\",\"A\":\"y\",\"B\":\"z\"\x7d]" = some b ∧
      Json.WritesUnder "types" "[\x7b\"B\":\"x\",\"A\":\"y\",\"B\":\"z\"\x7d]" members ∧
      (∀ name ∈ b.names, Usable name) ∧ ∀ member ∈ members, Usable member.1) ∧
    (∃ c members, catalog.read? "\x7b\"types\":\x7b\"A\":null\x7d\x7d" = some c ∧
      Json.WritesUnder "types" "\x7b\"types\":\x7b\"A\":null\x7d\x7d" members ∧
      (∀ name ∈ c.names, Usable name) ∧ ∀ member ∈ members, Usable member.1) ∧
    ∃ o members, (object string).read?
        "[\x7b\"a\":[\"a\",\x7b\"Named\":[\"T\",true,\"Unresolved\"]\x7d,[]]\x7d]" = some o ∧
      Json.WritesUnder "fields"
        "[\x7b\"a\":[\"a\",\x7b\"Named\":[\"T\",true,\"Unresolved\"]\x7d,[]]\x7d]" members ∧
      o.fieldNames = ["a"] ∧ o.KeyedByName ∧
      ∀ name v, lastNamed name members = some v → v.fieldName? = some name := by
  have bound : ((bindings string).read? "[\x7b\"B\":\"x\",\"A\":\"y\",\"B\":\"z\"\x7d]").map
      Bindings.names = some ["B", "A"] := by decide +kernel
  have declared : (catalog.read? "\x7b\"types\":\x7b\"A\":null\x7d\x7d").map Catalog.names =
      some ["A"] := by decide +kernel
  have keyed : ((object string).read?
      "[\x7b\"a\":[\"a\",\x7b\"Named\":[\"T\",true,\"Unresolved\"]\x7d,[]]\x7d]").map
      (fun o => (o.fieldNames, o.fields.values.map Shape.Field.name)) = some (["a"], ["a"]) := by
    decide +kernel
  obtain ⟨b, hb, names⟩ := Option.map_eq_some_iff.mp bound
  obtain ⟨c, hc, names'⟩ := Option.map_eq_some_iff.mp declared
  obtain ⟨o, ho, both⟩ := Option.map_eq_some_iff.mp keyed
  obtain ⟨fieldNames, own⟩ := Prod.mk.inj both
  obtain ⟨ms, written, -, usable⟩ := (read?_names_as_written string _).1 b hb
  obtain ⟨ms', written', -, usable'⟩ := (read?_names_as_written string _).2.1 c hc
  obtain ⟨fields, writtenFields, -, under, listed⟩ := (read?_names_as_written string _).2.2 o ho
  have inBindings : ∀ name ∈ b.names, Usable name := names ▸ by decide
  have inCatalog : ∀ name ∈ c.names, Usable name := names' ▸ by decide
  have named := listed.mpr (fieldNames.trans own.symm)
  exact ⟨⟨b, ms, hb, written, inBindings, usable.mp inBindings⟩,
    ⟨c, ms', hc, written', inCatalog, usable'.mp inCatalog⟩,
    o, fields, ho, writtenFields, fieldNames, named, under.mp named⟩

/-- A text may bind a built-in scalar, declare a name that is none, or put a field under the name of
    another; no object that is built field by field is like that. -/
theorem read?_names_unusable :
    (∃ b, (bindings string).read? "\x7b\"types\":\x7b\"Int\":\"x\"\x7d\x7d" = some b ∧
      ¬ ∀ name ∈ b.names, Usable name) ∧
    (∃ c, catalog.read? "\x7b\"types\":\x7b\"a b\":null\x7d\x7d" = some c ∧
      ¬ ∀ name ∈ c.names, Usable name) ∧
    ∃ o, (object string).read?
        "[\x7b\"a\":[\"b\",\x7b\"Named\":[\"T\",true,\"Unresolved\"]\x7d,[]]\x7d]" = some o ∧
      ¬ o.KeyedByName ∧ o.fieldNames ≠ o.fields.values.map Shape.Field.name ∧
      ∀ fields, o ≠ .ofFields fields := by
  have bound : ((bindings string).read? "\x7b\"types\":\x7b\"Int\":\"x\"\x7d\x7d").map
      Bindings.names = some ["Int"] := by decide +kernel
  have declared : (catalog.read? "\x7b\"types\":\x7b\"a b\":null\x7d\x7d").map Catalog.names =
      some ["a b"] := by decide +kernel
  have held : ((object string).read?
      "[\x7b\"a\":[\"b\",\x7b\"Named\":[\"T\",true,\"Unresolved\"]\x7d,[]]\x7d]").map
      (fun o => (o.field? "a").map Shape.Field.name) = some (some "b") := by
    decide +kernel
  obtain ⟨b, hb, names⟩ := Option.map_eq_some_iff.mp bound
  obtain ⟨c, hc, names'⟩ := Option.map_eq_some_iff.mp declared
  obtain ⟨o, ho, under⟩ := Option.map_eq_some_iff.mp held
  obtain ⟨f, hf, name⟩ := Option.map_eq_some_iff.mp under
  have unkeyed : ¬ o.KeyedByName := by
    intro keyed
    rw [keyed "a" f hf] at name
    exact absurd name (by decide)
  refine ⟨⟨b, hb, names ▸ by decide⟩, ⟨c, hc, names' ▸ by decide⟩, o, ho, unkeyed, ?_, ?_⟩
  · exact fun same => unkeyed (o.keyedByName_iff_fieldNames.mpr same)
  · exact fun fields built => unkeyed (o.keyedByName_iff_exists_ofFields.mpr ⟨fields, built⟩)

end Codec

end ShapeSchema
