import ShapeSchema.Shape.Resolve
set_option autoImplicit false

/-!
# Catalogs

A catalog owns named shapes that may refer to one another. A name is declared before its shape
exists, and from then on schema texts can use it: its handle is a `Reference`, which is followed in
the catalog only when the shape behind it is wanted. So a shape may refer to itself.
-/

namespace ShapeSchema

structure Reference where
  name : String
  deriving DecidableEq, Repr

/-- The declared names in the order of their declaration, each with its shape once it has one. -/
structure Catalog where
  types : OrderedMap (Option (Shape Reference))

structure DanglingReference where
  name : String
  deriving DecidableEq, Repr

def DanglingReference.message (e : DanglingReference) : String :=
  s!"dangling reference to `{e.name}`"

namespace Catalog

def empty : Catalog := ⟨.empty⟩

def get? (c : Catalog) (name : String) : Option (Shape Reference) := (c.types.get? name).join

def isDeclared (c : Catalog) (name : String) : Bool := c.types.contains name

def isDefined (c : Catalog) (name : String) : Bool := (c.get? name).isSome

def names (c : Catalog) : List String := c.types.names

def undefinedNames (c : Catalog) : List String :=
  (c.types.entries.filter (·.2.isNone)).map Prod.fst

def lookup (c : Catalog) (name : String) : Option Reference :=
  if c.isDeclared name then some ⟨name⟩ else none

/-- Declared names resolve, with a shape or without. -/
def environment (c : Catalog) : Environment Reference := ⟨c.lookup⟩

abbrev Answer (α : Type) := Except EnvironmentError α × Catalog

def declare (c : Catalog) (name : String) : Journal (Answer Reference) := do
  match checkTypeName name with
  | .error e => return (.error e, c)
  | .ok () =>
    if c.isDeclared name then return (.ok ⟨name⟩, c)
    else
      .trace s!"declared type `{name}`"
      return (.ok ⟨name⟩, ⟨c.types.insert name none⟩)

def warnRedefined (name : String) : Journal Unit :=
  .warn s!"type `{name}` was redefined; the earlier definition is replaced"

def define (c : Catalog) (name : String) (shape : Shape Reference) :
    Journal (Answer (Option (Shape Reference))) := do
  match checkTypeName name with
  | .error e => return (.error e, c)
  | .ok () =>
    let (held, types) := c.types.exchange name (some shape)
    let previous := held.join
    if previous.isSome then warnRedefined name
    return (.ok previous, ⟨types⟩)

/-- Declares a name and gives it the shape of a text, which may refer to the name. A text that is
    refused leaves the name declared. -/
def parseAndDefine (c : Catalog) (name text : String) : Journal (Answer (Shape Reference)) := do
  let (declared, c) ← c.declare name
  match declared with
  | .error e => return (.error e, c)
  | .ok _ =>
    match ← Shape.ofText? c.environment text with
    | .error e => return (.error (.schema e), c)
    | .ok shape =>
      let (held, types) := c.types.slot name none
      if held.isSome then warnRedefined name
      return (.ok shape, ⟨types.write name (some shape)⟩)

/-- Two catalogs are equal when they hold the same names with equal shapes, in whatever order. -/
instance : BEq Catalog := ⟨fun c d => c.types == d.types⟩

end Catalog

def Reference.follow (r : Reference) (c : Catalog) :
    Except DanglingReference (Shape Reference) :=
  match c.get? r.name with
  | some shape => .ok shape
  | none => .error ⟨r.name⟩

end ShapeSchema
