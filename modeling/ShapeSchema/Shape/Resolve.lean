import ShapeSchema.Environment
import ShapeSchema.Shape
import ShapeSchema.Syntax.Reading
set_option autoImplicit false

namespace ShapeSchema

variable {H σ : Type}

/-- The meaning of a type name. Built-in scalars are not asked for. -/
def Asking.resolve (ask : Asking H) (name : String) : Journal (Resolution H) :=
  match Scalar.ofName? name with
  | some s => return .scalar s
  | none => do
    match ← ask name with
    | some handle => return .environment handle
    | none =>
      .trace s!"type `{name}` is not in the type environment"
      return .unresolved

def Environment.resolve (env : Environment H) (name : String) : Journal (Resolution H) :=
  env.ask.resolve name

namespace Syntax

def TypeExpr.resolve (ask : Asking H) : TypeExpr σ → Journal (ResolvedType H)
  | .named name bang _ => return .named name.text bang.isNone (← ask.resolve name.text)
  | .list element bang _ => return .list (← element.resolve ask) bang.isNone

def Parameter.resolve (ask : Asking H) (p : Parameter σ) : Journal (Shape.Parameter H) :=
  return ⟨p.name.text, ← p.type.resolve ask⟩

def Field.resolve (ask : Asking H) (d : Field σ) : Journal (Shape.Field H) := do
  let parameters ← d.parameters.mapM (·.resolve ask)
  let type ← d.type.resolve ask
  .trace s!"resolved field `{d.name.text}: {type.text}`"
  return ⟨d.name.text, type, parameters⟩

def Field.declare (ask : Asking H) (o : Shape.Object H) (d : Field σ) :
    Journal (Shape.Object H) := do
  let field ← d.resolve ask
  if let some previous := o.field? field.name then
    .warn <| s!"field `{previous.name}` is declared more than once; " ++
      s!"type `{field.type.text}` replaces `{previous.type.text}`"
  return o.insert field

def resolveFields (ask : Asking H) (fields : List (Field σ)) : Journal (Shape.Object H) := do
  let object ← fields.foldlM (Field.declare ask) .empty
  let summary := s!"resolved object block with {object.fields.size} fields"
  match object.unresolvedNames with
  | [] => .debug summary
  | names => .debug (summary ++ "; unresolved types: " ++ String.intercalate ", " names)
  return object

def resolveValues (values : List (Name σ)) : Journal Shape.Enum := do
  let enum := Shape.Enum.ofValues (values.map (·.text))
  if enum.values.length ≠ values.length then
    .debug s!"enum block lists {values.length} values, {enum.values.length} of them distinct"
  return enum

def Block.resolve (ask : Asking H) : Block σ → Journal (Shape H)
  | .object fields _ => .object <$> resolveFields ask fields
  | .enum values _ => .enum <$> resolveValues values

end Syntax

/-- The shape that a text declares, with the meaning of its type names asked for. -/
def Shape.ofTextAsking? (ask : Asking H) (text : String) :
    Journal (Except ParseError (Shape H)) := do
  .trace s!"parsing {text.utf8ByteSize} bytes of schema text"
  match ← Syntax.Block.ofText? text with
  | .ok block => .ok <$> block.resolve ask
  | .error e => return .error e

def Shape.ofText? (env : Environment H) (text : String) : Journal (Except ParseError (Shape H)) :=
  ofTextAsking? env.ask text

end ShapeSchema
