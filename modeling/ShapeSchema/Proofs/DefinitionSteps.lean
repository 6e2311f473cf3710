import ShapeSchema.Proofs.CatalogOperations
import ShapeSchema.Proofs.EnvironmentIndependence
set_option autoImplicit false

/-!
# Defining by a text, step by step

A catalog that is given a text under a name declares the name, reads the text and fills the slot of
the name, where a definition exchanges the shape of the name for another. Yet it answers, ends and
reports as the three operations do one after the other, the first refusal being the last thing that
happens.
-/

namespace ShapeSchema

namespace Catalog

variable {α β : Type}

/-- One operation and then another on the catalog behind it. An error of the first is the answer,
    with the catalog as the first has left it. -/
def andThen (first : Journal (Answer α)) (next : α → Catalog → Journal (Answer β)) :
    Journal (Answer β) := do
  match ← first with
  | (.error e, c) => return (.error e, c)
  | (.ok a, c) => next a c

def read (c : Catalog) (text : String) : Journal (Answer (Shape Reference)) :=
  return ((← Shape.ofText? c.environment text).mapError .schema, c)

/-- If the name is accepted, to fill its slot is to define it: the slot tells of a shape just when
    the definition replaces one, and both leave the shape in the same place. -/
theorem fill_slot_eq_define {c : Catalog} {name : String} (h : checkTypeName name = .ok ())
    (shape : Shape Reference) :
    (do
      if (c.types.slot name none).1.isSome then warnRedefined name
      return (.ok shape, ⟨(c.types.slot name none).2.write name (some shape)⟩)) =
    andThen (c.define name shape) fun _ c => return (.ok shape, c) := by
  rw [slot_fst, write_slot]
  simp only [andThen, define, h]
  by_cases replaced : (c.get? name).isSome = true
  · have exchanged : (c.types.exchange name (some shape)).1.join.isSome = true := replaced
    rw [if_pos replaced, if_pos exchanged]
    rfl
  · have exchanged : ¬(c.types.exchange name (some shape)).1.join.isSome = true := replaced
    rw [if_neg replaced, if_neg exchanged]
    rfl

/-- Whatever the catalog holds, defining by a text is declaring, reading and defining: the answer,
    the catalog behind it, the records and the lookups are the same. -/
theorem parseAndDefine_eq_steps (c : Catalog) (name text : String) :
    c.parseAndDefine name text =
      andThen (c.declare name) fun _ c =>
        andThen (c.read text) fun shape c =>
          andThen (c.define name shape) fun _ c => return (.ok shape, c) := by
  refine Journal.bind_congr _ ?_
  rw [value_declare]
  cases accepted : checkTypeName name with
  | error e => rfl
  | ok u =>
    simp only [read, andThen, bind_assoc]
    refine Journal.bind_congr _ ?_
    cases (Shape.ofText? (c.withName name).environment text).value with
    | error e => rfl
    | ok shape => exact fill_slot_eq_define accepted shape

end Catalog

end ShapeSchema
