import ShapeSchema.Proofs.WrittenJson
import ShapeSchema.Shape.Codec
set_option autoImplicit false

namespace ShapeSchema

namespace Json

theorem soleMember?_of_mem {members : List (Option String × Json)} {name : String} {v : Json}
    (nodup : (members.map Prod.fst).Nodup) (hm : (some name, v) ∈ members) :
    soleMember? members name = some v := by
  obtain ⟨before, after, rfl⟩ := List.append_of_mem hm
  rw [List.map_append, List.map_cons, List.nodup_append] at nodup
  obtain ⟨-, later, apart⟩ := nodup
  have ahead : before.filter (·.1 = some name) = [] :=
    List.filter_eq_nil_iff.mpr fun m hm => by
      simpa using apart _ (List.mem_map_of_mem hm) _ List.mem_cons_self
  have behind : after.filter (·.1 = some name) = [] :=
    List.filter_eq_nil_iff.mpr fun m hm => by
      have fresh := (List.nodup_cons.mp later).1
      simpa using fun h : m.1 = some name => fresh (List.mem_map.mpr ⟨m, hm, h⟩)
  have only : (before ++ (some name, v) :: after).filter (·.1 = some name) = [(some name, v)] := by
    simp [List.filter_append, ahead, behind]
  rw [soleMember?, only]

theorem soleMembers?_of_subset {members : List (Option String × Json)}
    (nodup : (members.map Prod.fst).Nodup) {asked : List (String × Json)}
    (present : ∀ m ∈ asked, (some m.1, m.2) ∈ members) :
    soleMembers? members (asked.map Prod.fst) = some (asked.map Prod.snd) := by
  induction asked with
  | nil => rfl
  | cons m more ih =>
    have first := soleMember?_of_mem nodup (present m List.mem_cons_self)
    have later := ih fun m hm => present m (List.mem_cons_of_mem _ hm)
    rw [List.map_cons, soleMembers?, first, later]
    rfl

theorem fields?_obj (members : List (String × Json)) (nodup : (members.map Prod.fst).Nodup) :
    fields? (members.map Prod.fst) (.obj members) = some (members.map Prod.snd) := by
  have keys : ((members.map fun m => (some m.1, m.2)).map Prod.fst).Nodup := by
    rw [List.map_map]
    exact List.pairwise_map.mpr ((List.pairwise_map.mp nodup).imp fun apart h =>
      apart (Option.some.inj h))
  rw [obj, fields?, if_pos (by simp)]
  exact soleMembers?_of_subset keys fun m hm => List.mem_map.mpr ⟨m, hm, rfl⟩

theorem fields?_sole (name : String) (v : Json) : fields? [name] (.obj [(name, v)]) = some [v] :=
  fields?_obj [(name, v)] (by simp)

theorem variant?_obj (name : String) (content : Json) :
    variant? (.obj [(name, content)]) = some (name, some content) :=
  rfl

end Json

namespace Codec

variable {H α : Type}

/-- What is written is read back, and no numbers are written. -/
structure Faithful (c : Codec α) : Prop where
  plain : ∀ a, (c.encode a).Plain
  back : ∀ a, c.decode? (c.encode a) = some a

theorem Faithful.persists {c : Codec α} (h : Faithful c) (a : α) :
    c.read? (c.write a) = some a := by
  rw [read?, write, Json.parse?_compact (h.plain a)]
  exact h.back a

theorem mapM_map {α β : Type} {write : α → β} {read? : β → Option α}
    (back : ∀ a, read? (write a) = some a) (as : List α) : (as.map write).mapM read? = some as := by
  have undone : read? ∘ write = fun a => pure (id a) := funext back
  rw [List.mapM_map, undone, List.mapM_pure, List.map_id]
  rfl

theorem Faithful.map?_ofMap {c : Codec α} (h : Faithful c) (m : OrderedMap α) :
    (Json.ofMap c.encode m).map? c.decode? = some m := by
  have entry (e : String × α) : Json.memberOf? c.decode? (some e.1, c.encode e.2) = some e := by
    simp [Json.memberOf?, h.back]
  have entries := mapM_map entry m.entries
  rw [Json.ofMap, Json.obj, List.map_map, Json.map?]
  exact (congrArg (OrderedMap.ofList <$> ·) entries).trans (congrArg some m.ofList_entries)

theorem Faithful.plain_ofMap {c : Codec α} (h : Faithful c) (m : OrderedMap α) :
    (Json.ofMap c.encode m).Plain := by
  refine .obj fun member hm => ?_
  obtain ⟨entry, -, rfl⟩ := List.mem_map.mp hm
  exact h.plain entry.2

theorem faithful_string : Faithful string := ⟨.str, fun _ => rfl⟩

theorem faithful_reference : Faithful reference := ⟨fun r => .str r.name, fun _ => rfl⟩

theorem faithful_scalar : Faithful scalar :=
  ⟨fun s => .str s.name, fun s => Scalar.ofName?_name s⟩

theorem Faithful.resolution {handle : Codec H} (h : Faithful handle) :
    Faithful (resolution handle) where
  plain
    | .scalar s => .obj (by simpa using faithful_scalar.plain s)
    | .environment a => .obj (by simpa using h.plain a)
    | .unresolved => .str _
  back
    | .scalar s => congrArg (Resolution.scalar <$> ·) (faithful_scalar.back s)
    | .environment a => congrArg (Resolution.environment <$> ·) (h.back a)
    | .unresolved => rfl

theorem decodeType?_list (handle : Codec H) (element nullable : Json) :
    decodeType? handle (.obj [("List", .obj [("inner_type_annotation", element),
      ("nullable", nullable)])]) =
      (do return .list (← decodeType? handle element) (← nullable.bool?)) := by
  have record := Json.fields?_obj [("inner_type_annotation", element), ("nullable", nullable)]
    (by simp)
  rw [decodeType?]
  split
  · next content hv =>
    cases hv
    split
    · next e n hc =>
      cases hc.symm.trans record
      rfl
    · next other => exact absurd record (other _ _)
  · next hv => simp [Json.variant?_obj] at hv
  · next other _ => exact absurd rfl (other _)

theorem decodeType?_named (handle : Codec H) (name nullable meaning : Json) :
    decodeType? handle (.obj [("Named", .obj [("type_name", name), ("nullable", nullable),
      ("resolution", meaning)])]) =
      (do
        return .named (← name.string?) (← nullable.bool?) (← decodeResolution? handle meaning)) := by
  have record := Json.fields?_obj [("type_name", name), ("nullable", nullable),
    ("resolution", meaning)] (by simp)
  rw [decodeType?]
  split
  · next hv => simp [Json.variant?_obj] at hv
  · next content hv =>
    cases hv
    split
    · next n b m hc =>
      cases hc.symm.trans record
      rfl
    · next other => exact absurd record (other _ _ _)
  · next _ other => exact absurd rfl (other _)

theorem Faithful.resolvedType {handle : Codec H} (h : Faithful handle) :
    Faithful (resolvedType handle) where
  plain t := by
    change (encodeType handle t).Plain
    induction t with
    | named name nullable meaning =>
      exact .obj (by simpa using .obj (by simp [Json.Plain.str, Json.Plain.bool,
        h.resolution.plain meaning]))
    | list element nullable ih =>
      exact .obj (by simpa using .obj (by simp [Json.Plain.bool, ih]))
  back t := by
    change decodeType? handle (encodeType handle t) = some t
    induction t with
    | named name nullable meaning =>
      have known : decodeResolution? handle ((Codec.resolution handle).encode meaning) =
          some meaning := h.resolution.back meaning
      rw [encodeType, decodeType?_named, known]
      rfl
    | list element nullable ih =>
      rw [encodeType, decodeType?_list, ih]
      rfl

theorem Faithful.parameter {handle : Codec H} (h : Faithful handle) :
    Faithful (parameter handle) where
  plain p := .obj (by simp [Json.Plain.str, h.resolvedType.plain p.type])
  back p := by
    have record : Json.fields? ["name", "type_annotation"] ((Codec.parameter handle).encode p) =
        some [.str p.name, (Codec.resolvedType handle).encode p.type] :=
      Json.fields?_obj [_, _] (by simp)
    simp only [Codec.parameter] at record ⊢
    rw [record]
    simp [Json.string?, Json.str, h.resolvedType.back]

theorem Faithful.field {handle : Codec H} (h : Faithful handle) : Faithful (field handle) where
  plain f := by
    have parameters : ∀ v ∈ f.parameters.map (Codec.parameter handle).encode, v.Plain :=
      List.forall_mem_map.mpr fun p _ => h.parameter.plain p
    exact .obj (by simp [Json.Plain.str, h.resolvedType.plain, Json.Plain.array parameters])
  back f := by
    have record : Json.fields? ["name", "type_annotation", "parameters"]
        ((Codec.field handle).encode f) = some [.str f.name,
          (Codec.resolvedType handle).encode f.type,
          .array (f.parameters.map (Codec.parameter handle).encode)] :=
      Json.fields?_obj [_, _, _] (by simp)
    have parameters := mapM_map h.parameter.back f.parameters
    simp only [Codec.field] at record ⊢
    rw [record]
    simp [Json.string?, Json.str, Json.items?, h.resolvedType.back, parameters]

theorem Faithful.object {handle : Codec H} (h : Faithful handle) : Faithful (object handle) where
  plain o := .obj (by simp [h.field.plain_ofMap o.fields])
  back o := by
    simp only [Codec.object, Json.fields?_sole]
    simp [h.field.map?_ofMap]

theorem faithful_enum : Faithful enum where
  plain e := by
    have values : ∀ v ∈ e.values.map Json.str, v.Plain :=
      List.forall_mem_map.mpr fun value _ => .str value
    exact .obj (by simp [Json.Plain.array values])
  back e := by
    have values : (e.values.map Json.str).mapM Json.string? = some e.values :=
      mapM_map faithful_string.back e.values
    have same : Shape.Enum.ofValues e.values = e := by
      simp [Shape.Enum.ofValues, distinct_of_nodup e.nodup]
    simp only [enum, Json.fields?_sole]
    simp [Json.items?, values, same]

theorem Faithful.shape {handle : Codec H} (h : Faithful handle) : Faithful (shape handle) where
  plain
    | .object o => .obj (by simpa using h.object.plain o)
    | .enum e => .obj (by simpa using faithful_enum.plain e)
  back
    | .object o => congrArg (Shape.object <$> ·) (h.object.back o)
    | .enum e => congrArg (Shape.enum <$> ·) (faithful_enum.back e)

theorem encode_shape_ne_null (handle : Codec H) (s : Shape H) :
    (shape handle).encode s ≠ .null := by
  cases s <;> exact nofun

/-- Nothing is told from something when something is never written as `null`. -/
theorem Faithful.optional {c : Codec α} (h : Faithful c) (something : ∀ a, c.encode a ≠ .null) :
    Faithful (optional c) where
  plain
    | some a => h.plain a
    | none => .null
  back
    | some a => by
      have read : (Codec.optional c).decode? (c.encode a) = some <$> c.decode? (c.encode a) := by
        cases hv : c.encode a with
        | null => exact absurd hv (something a)
        | _ => rfl
      exact read.trans (congrArg (some <$> ·) (h.back a))
    | none => rfl

theorem Faithful.bindings {handle : Codec H} (h : Faithful handle) :
    Faithful (bindings handle) where
  plain b := .obj (by simp [h.plain_ofMap b.types])
  back b := by
    simp only [Codec.bindings, Json.fields?_sole]
    simp [h.map?_ofMap]

theorem faithful_catalog : Faithful catalog := by
  have shapes : Faithful (optional (shape reference)) :=
    faithful_reference.shape.optional (encode_shape_ne_null reference)
  refine ⟨fun c => .obj (by simp [shapes.plain_ofMap c.types]), fun c => ?_⟩
  simp only [catalog, Json.fields?_sole]
  simp [shapes.map?_ofMap]

/-- Nothing is lost by persisting: the texts of enums, shapes, bindings and catalogs are read back
    as what was written, whatever the names in them are. -/
theorem persisted_reads_back :
    (∀ e : Shape.Enum, enum.read? (enum.write e) = some e) ∧
      (∀ s : Shape String, (shape string).read? ((shape string).write s) = some s) ∧
      (∀ s : Shape Reference, (shape reference).read? ((shape reference).write s) = some s) ∧
      (∀ b : Bindings String, (bindings string).read? ((bindings string).write b) = some b) ∧
      (∀ b : Bindings Reference,
        (bindings reference).read? ((bindings reference).write b) = some b) ∧
      ∀ c : Catalog, catalog.read? (catalog.write c) = some c :=
  ⟨faithful_enum.persists, faithful_string.shape.persists, faithful_reference.shape.persists,
    faithful_string.bindings.persists, faithful_reference.bindings.persists,
    faithful_catalog.persists⟩

example : catalog.write ⟨⟨[("A\n", none)], by decide⟩⟩ =
    "\x7b\"types\":\x7b\"A\\n\":null\x7d\x7d" := by
  decide +kernel

end Codec

end ShapeSchema
