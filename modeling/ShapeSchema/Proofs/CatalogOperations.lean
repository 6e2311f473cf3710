import ShapeSchema.Catalog
import ShapeSchema.Proofs.CanonicalOutcome
set_option autoImplicit false

namespace ShapeSchema

namespace Catalog

inductive Operation
  | declare (name : String)
  | define (name : String) (shape : Shape Reference)
  | parseAndDefine (name text : String)

namespace Operation

def apply (c : Catalog) : Operation → Catalog
  | .declare name => (c.declare name).value.2
  | .define name shape => (c.define name shape).value.2
  | .parseAndDefine name text => (c.parseAndDefine name text).value.2

/-- Shapes come in through texts. -/
def FromText : Operation → Prop
  | .define _ _ => False
  | .declare _ | .parseAndDefine _ _ => True

def Redefines (name : String) : Operation → Prop
  | .declare _ => False
  | .define other _ => other = name
  | .parseAndDefine other text =>
    other = name ∧ ∃ b, (Syntax.Block.ofText? text).value = .ok b

end Operation

def after (c : Catalog) (ops : List Operation) : Catalog := ops.foldl Operation.apply c

def withName (c : Catalog) (name : String) : Catalog :=
  if c.isDeclared name then c else ⟨c.types.insert name none⟩

def withShape (c : Catalog) (name : String) (shape : Shape Reference) : Catalog :=
  ⟨c.types.insert name (some shape)⟩

variable {c : Catalog}

theorem isDeclared_withName (name other : String) :
    (c.withName name).isDeclared other = (decide (other = name) || c.isDeclared other) := by
  unfold withName
  split
  · next declared =>
    by_cases h : other = name
    · simp [h, declared]
    · simp [h]
  · exact c.types.contains_insert name other none

theorem isDeclared_withShape (name other : String) (shape : Shape Reference) :
    (c.withShape name shape).isDeclared other = (decide (other = name) || c.isDeclared other) :=
  c.types.contains_insert name other (some shape)

theorem get?_withName (name other : String) : (c.withName name).get? other = c.get? other := by
  unfold withName
  split
  · rfl
  · next fresh =>
    have absent : c.types.get? name = none := by
      simpa [isDeclared, OrderedMap.contains] using fresh
    change ((c.types.insert name none).get? other).join = (c.types.get? other).join
    rw [OrderedMap.get?_insert]
    by_cases h : other = name
    · rw [if_pos h, h, absent]
      rfl
    · rw [if_neg h]

theorem get?_withShape (name other : String) (shape : Shape Reference) :
    (c.withShape name shape).get? other = if other = name then some shape else c.get? other := by
  change ((c.types.insert name (some shape)).get? other).join = _
  rw [OrderedMap.get?_insert]
  split <;> rfl

theorem mem_undefinedNames {name : String} :
    name ∈ c.undefinedNames ↔ c.isDeclared name = true ∧ c.get? name = none := by
  have listed : name ∈ c.undefinedNames ↔ c.types.get? name = some none := by
    rw [OrderedMap.get?_eq_some_iff, undefinedNames]
    simp [List.mem_map, List.mem_filter]
  rw [listed, isDeclared, OrderedMap.contains, get?]
  rcases c.types.get? name with _ | _ | shape <;> simp

theorem value_declare (c : Catalog) (name : String) :
    (c.declare name).value = match checkTypeName name with
      | .error e => (.error e, c)
      | .ok () => (.ok ⟨name⟩, c.withName name) := by
  unfold declare withName
  cases checkTypeName name with
  | error e => rfl
  | ok u => cases c.isDeclared name <;> rfl

theorem value_define (c : Catalog) (name : String) (shape : Shape Reference) :
    (c.define name shape).value = match checkTypeName name with
      | .error e => (.error e, c)
      | .ok () => (.ok (c.get? name), c.withShape name shape) := by
  unfold define
  cases checkTypeName name with
  | error e => rfl
  | ok u =>
    dsimp only [OrderedMap.exchange]
    split <;> rfl

theorem slot_fst (c : Catalog) (name : String) : (c.types.slot name none).1 = c.get? name := by
  rw [OrderedMap.slot_fst, get?]
  cases c.types.get? name <;> rfl

theorem write_slot (c : Catalog) (name : String) (shape : Shape Reference) :
    ⟨(c.types.slot name none).2.write name (some shape)⟩ = c.withShape name shape :=
  congrArg Catalog.mk (c.types.write_slot name none (some shape))

/-- A text is read in the catalog with the name declared. -/
theorem value_parseAndDefine (c : Catalog) (name text : String) :
    (c.parseAndDefine name text).value = match checkTypeName name with
      | .error e => (.error e, c)
      | .ok () =>
        match (Shape.ofText? (c.withName name).environment text).value with
        | .error e => (.error (.schema e), c.withName name)
        | .ok shape => (.ok shape, (c.withName name).withShape name shape) := by
  simp only [parseAndDefine, Journal.value_bind, value_declare]
  cases checkTypeName name with
  | error e => rfl
  | ok u =>
    simp only [Journal.value_bind]
    cases (Shape.ofText? (c.withName name).environment text).value with
    | error e => rfl
    | ok shape =>
      dsimp only
      rw [← write_slot]
      split <;> rfl

theorem parseAndDefine_eq_ok {name text : String} {shape : Shape Reference}
    (h : (c.parseAndDefine name text).value.1 = .ok shape) :
    (Shape.ofText? (c.withName name).environment text).value = .ok shape ∧
      (c.parseAndDefine name text).value.2 = (c.withName name).withShape name shape := by
  rw [value_parseAndDefine] at h ⊢
  cases hn : checkTypeName name with
  | error e =>
    rw [hn] at h
    cases h
  | ok u =>
    rw [hn] at h
    dsimp only at h ⊢
    cases hs : (Shape.ofText? (c.withName name).environment text).value with
    | error e =>
      rw [hs] at h
      cases h
    | ok found =>
      rw [hs] at h
      cases h
      exact ⟨rfl, rfl⟩

end Catalog

end ShapeSchema
