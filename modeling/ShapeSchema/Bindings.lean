import ShapeSchema.Environment
import ShapeSchema.Journal
import ShapeSchema.Ordered
set_option autoImplicit false

namespace ShapeSchema

structure Bindings (H : Type) where
  types : OrderedMap H

namespace Bindings

variable {H : Type}

def empty : Bindings H := ⟨.empty⟩

abbrev Answer (H α : Type) := Except EnvironmentError α × Bindings H

/-- Binds a name to a handle; answers the handle bound before. -/
def insert (b : Bindings H) (name : String) (handle : H) : Journal (Answer H (Option H)) := do
  match checkTypeName name with
  | .error e => return (.error e, b)
  | .ok () =>
    let (previous, types) := b.types.exchange name handle
    if previous.isSome then
      .debug s!"replaced type environment entry `{name}`"
    return (.ok previous, ⟨types⟩)

/-- The builder: binds a name like `insert` and does not answer what was bound before. -/
def extend (b : Bindings H) (name : String) (handle : H) : Journal (Answer H Unit) := do
  let (answer, b) ← b.insert name handle
  return (answer.map fun _ => (), b)

def get? (b : Bindings H) (name : String) : Option H := b.types.get? name

def contains (b : Bindings H) (name : String) : Bool := b.types.contains name

def remove (b : Bindings H) (name : String) : Option H × Bindings H :=
  (b.types.get? name, ⟨b.types.erase name⟩)

def names (b : Bindings H) : List String := b.types.names

def environment (b : Bindings H) : Environment H := ⟨b.get?⟩

instance [BEq H] : BEq (Bindings H) := ⟨fun b c => b.types == c.types⟩

theorem value_insert (b : Bindings H) (name : String) (handle : H) :
    (b.insert name handle).value = match checkTypeName name with
      | .error e => (.error e, b)
      | .ok () => (.ok (b.get? name), ⟨b.types.insert name handle⟩) := by
  unfold insert
  cases checkTypeName name with
  | error e => rfl
  | ok u =>
    dsimp only [OrderedMap.exchange]
    split <;> rfl

end Bindings

end ShapeSchema
