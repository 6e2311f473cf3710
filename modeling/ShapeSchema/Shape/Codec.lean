import ShapeSchema.Bindings
import ShapeSchema.Catalog
import ShapeSchema.Json.Codec
set_option autoImplicit false

namespace ShapeSchema

variable {H : Type}

namespace Codec

def string : Codec String := ⟨Json.str, Json.string?⟩

def reference : Codec Reference :=
  ⟨fun r => .str r.name, fun v => Reference.mk <$> v.string?⟩

def scalar : Codec Scalar := ⟨fun s => .str s.name, fun v => v.bareVariant? >>= Scalar.ofName?⟩

def decodeResolution? (handle : Codec H) (v : Json) : Option (Resolution H) :=
  match v.variant? with
  | some ("Scalar", some content) => .scalar <$> scalar.decode? content
  | some ("Environment", some content) => .environment <$> handle.decode? content
  | some ("Unresolved", none) | some ("Unresolved", some .null) => some .unresolved
  | _ => none

def resolution (handle : Codec H) : Codec (Resolution H) where
  encode
    | .scalar s => .obj [("Scalar", scalar.encode s)]
    | .environment h => .obj [("Environment", handle.encode h)]
    | .unresolved => .str "Unresolved"
  decode? := decodeResolution? handle

def encodeType (handle : Codec H) : ResolvedType H → Json
  | .list element nullable => .obj [("List", .obj [
      ("inner_type_annotation", encodeType handle element), ("nullable", .bool nullable)])]
  | .named name nullable meaning => .obj [("Named", .obj [
      ("type_name", .str name), ("nullable", .bool nullable),
      ("resolution", (resolution handle).encode meaning)])]

def decodeType? (handle : Codec H) (v : Json) : Option (ResolvedType H) :=
  match hv : v.variant? with
  | some ("List", some content) =>
    match hc : content.fields? ["inner_type_annotation", "nullable"] with
    | some [element, nullable] =>
      have : sizeOf element < sizeOf v :=
        Nat.lt_trans (Json.sizeOf_of_fields? hc element (by simp)) (Json.sizeOf_of_variant? hv)
      return .list (← decodeType? handle element) (← nullable.bool?)
    | _ => none
  | some ("Named", some content) =>
    match content.fields? ["type_name", "nullable", "resolution"] with
    | some [name, nullable, meaning] =>
      return .named (← name.string?) (← nullable.bool?) (← decodeResolution? handle meaning)
    | _ => none
  | _ => none
termination_by sizeOf v

def resolvedType (handle : Codec H) : Codec (ResolvedType H) :=
  ⟨encodeType handle, decodeType? handle⟩

def parameter (handle : Codec H) : Codec (Shape.Parameter H) where
  encode p := .obj [("name", .str p.name), ("type_annotation", (resolvedType handle).encode p.type)]
  decode? v :=
    match v.fields? ["name", "type_annotation"] with
    | some [name, type] => return ⟨← name.string?, ← (resolvedType handle).decode? type⟩
    | _ => none

def field (handle : Codec H) : Codec (Shape.Field H) where
  encode f := .obj [("name", .str f.name), ("type_annotation", (resolvedType handle).encode f.type),
    ("parameters", .array (f.parameters.map (parameter handle).encode))]
  decode? v :=
    match v.fields? ["name", "type_annotation", "parameters"] with
    | some [name, type, parameters] => do
      let parameters ← (← parameters.items?).mapM (parameter handle).decode?
      return ⟨← name.string?, ← (resolvedType handle).decode? type, parameters⟩
    | _ => none

def object (handle : Codec H) : Codec (Shape.Object H) where
  encode o := .obj [("fields", Json.ofMap (field handle).encode o.fields)]
  decode? v :=
    match v.fields? ["fields"] with
    | some [fields] => return ⟨← fields.map? (field handle).decode?⟩
    | _ => none

def enum : Codec Shape.Enum where
  encode e := .obj [("values", .array (e.values.map Json.str))]
  decode? v :=
    match v.fields? ["values"] with
    | some [values] => return .ofValues (← (← values.items?).mapM Json.string?)
    | _ => none

def shape (handle : Codec H) : Codec (Shape H) where
  encode
    | .object o => .obj [("Object", (object handle).encode o)]
    | .enum e => .obj [("Enum", enum.encode e)]
  decode? v :=
    match v.variant? with
    | some ("Object", some content) => .object <$> (object handle).decode? content
    | some ("Enum", some content) => .enum <$> enum.decode? content
    | _ => none

def optional {α : Type} (c : Codec α) : Codec (Option α) where
  encode
    | some a => c.encode a
    | none => .null
  decode?
    | .null => some none
    | v => some <$> c.decode? v

def bindings (handle : Codec H) : Codec (Bindings H) where
  encode b := .obj [("types", Json.ofMap handle.encode b.types)]
  decode? v :=
    match v.fields? ["types"] with
    | some [types] => return ⟨← types.map? handle.decode?⟩
    | _ => none

def catalog : Codec Catalog where
  encode c := .obj [("types", Json.ofMap (optional (shape reference)).encode c.types)]
  decode? v :=
    match v.fields? ["types"] with
    | some [types] => return ⟨← types.map? (optional (shape reference)).decode?⟩
    | _ => none

end Codec

end ShapeSchema
