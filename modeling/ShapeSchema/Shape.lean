import ShapeSchema.Ordered
import ShapeSchema.Shape.ResolvedType
set_option autoImplicit false

namespace ShapeSchema.Shape

structure Parameter (H : Type) where
  name : String
  type : ResolvedType H
  deriving DecidableEq, Repr

structure Field (H : Type) where
  name : String
  type : ResolvedType H
  parameters : List (Parameter H)
  deriving DecidableEq, Repr

namespace Field

variable {H : Type}

def parameter? (f : Field H) (name : String) : Option (Parameter H) :=
  f.parameters.find? (·.name = name)

def types (f : Field H) : List (ResolvedType H) := f.parameters.map (·.type) ++ [f.type]

end Field

structure Object (H : Type) where
  fields : OrderedMap (Field H)

namespace Object

variable {H : Type}

def empty : Object H := ⟨.empty⟩

/-- Adds a field; one of the same name gives way to it. -/
def insert (o : Object H) (f : Field H) : Object H := ⟨o.fields.insert f.name f⟩

def ofFields (fields : List (Field H)) : Object H := fields.foldl insert empty

def field? (o : Object H) (name : String) : Option (Field H) := o.fields.get? name

def fieldNames (o : Object H) : List String := o.fields.names

/-- The type names that nothing is known of, in the order of their first occurrence. -/
def unresolvedNames (o : Object H) : List String :=
  distinct ((o.fields.values.flatMap Field.types).filterMap ResolvedType.unresolved?)

instance [DecidableEq H] : BEq (Object H) := ⟨fun o p => o.fields == p.fields⟩

end Object

structure Enum where
  values : List String
  nodup : values.Nodup

namespace Enum

def ofValues (values : List String) : Enum := ⟨distinct values, nodup_distinct values⟩

def contains (e : Enum) (value : String) : Bool := e.values.contains value

instance : BEq Enum := ⟨fun e f =>
  e.values.length == f.values.length && e.values.all f.values.contains⟩

end Enum

end Shape

inductive Shape (H : Type)
  | object (o : Shape.Object H)
  | enum (e : Shape.Enum)

namespace Shape

variable {H : Type}

instance [DecidableEq H] : BEq (Shape H) where
  beq
    | .object o, .object p => o == p
    | .enum e, .enum f => e == f
    | _, _ => false

def object? : Shape H → Option (Object H)
  | .object o => some o
  | .enum _ => none

end ShapeSchema.Shape
