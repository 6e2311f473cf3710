import ShapeSchema.Json.Text
import ShapeSchema.Ordered
set_option autoImplicit false

namespace ShapeSchema

structure Codec (α : Type) where
  encode : α → Json
  decode? : Json → Option α

namespace Codec

variable {α : Type}

def write (c : Codec α) (a : α) : String := (c.encode a).compact

def read? (c : Codec α) (text : String) : Option α := Json.parse? text >>= c.decode?

end Codec

namespace Json

def string? : Json → Option String
  | .string content => content
  | _ => none

def bool? : Json → Option Bool
  | .bool b => some b
  | _ => none

def items? : Json → Option (List Json)
  | .array items => some items
  | _ => none

/-- The value of the only member with this name. -/
def soleMember? (members : List (Option String × Json)) (name : String) : Option Json :=
  match members.filter (·.1 = some name) with
  | [(_, value)] => some value
  | _ => none

def soleMembers? (members : List (Option String × Json)) : List String → Option (List Json)
  | [] => some []
  | name :: more => do return (← soleMember? members name) :: (← soleMembers? members more)

def fields? (names : List String) : Json → Option (List Json)
  | .array items => if items.length = names.length then some items else none
  | .object members =>
    if members.all (·.1.isSome) then soleMembers? members names else none
  | _ => none

/-- The name of an alternative, and its content if it is written with one. -/
def variant? : Json → Option (String × Option Json)
  | .string (some name) => some (name, none)
  | .object [(some name, content)] => some (name, some content)
  | _ => none

def bareVariant? (v : Json) : Option String :=
  match variant? v with
  | some (name, none) | some (name, some .null) => some name
  | _ => none

def memberOf? {α : Type} (value? : Json → Option α) (member : Option String × Json) :
    Option (String × α) := do
  return (← member.1, ← value? member.2)

/-- The map that an object writes down; of members with one name the last counts. -/
def map? {α : Type} (value? : Json → Option α) : Json → Option (OrderedMap α)
  | .object members => OrderedMap.ofList <$> members.mapM (memberOf? value?)
  | _ => none

def ofMap {α : Type} (value : α → Json) (m : OrderedMap α) : Json :=
  .obj (m.entries.map fun (name, a) => (name, value a))

theorem sizeOf_of_soleMember? {members : List (Option String × Json)} {name : String} {v : Json}
    (h : soleMember? members name = some v) : sizeOf v < sizeOf members := by
  unfold soleMember? at h
  split at h
  · next key value hf =>
    cases h
    have hm : (key, v) ∈ members := (List.mem_filter.mp (hf ▸ List.mem_singleton_self _)).1
    have := List.sizeOf_lt_of_mem hm
    simp only [Prod.mk.sizeOf_spec] at this
    omega
  · cases h

theorem sizeOf_of_soleMembers? {members : List (Option String × Json)} {names : List String}
    {vs : List Json} (h : soleMembers? members names = some vs) :
    ∀ v ∈ vs, sizeOf v < sizeOf members := by
  induction names generalizing vs with
  | nil => cases h; simp
  | cons name names ih =>
    simp only [soleMembers?, Option.bind_eq_bind, Option.bind_eq_some_iff, Option.pure_def,
      Option.some.injEq] at h
    obtain ⟨v, hv, vs', hvs', rfl⟩ := h
    simp only [List.mem_cons, forall_eq_or_imp]
    exact ⟨sizeOf_of_soleMember? hv, ih hvs'⟩

theorem sizeOf_of_fields? {names : List String} {record : Json} {vs : List Json}
    (h : fields? names record = some vs) : ∀ v ∈ vs, sizeOf v < sizeOf record := by
  intro v hv
  cases record with
  | array items =>
    simp only [fields?, Option.ite_none_right_eq_some, Option.some.injEq] at h
    obtain ⟨_, rfl⟩ := h
    have := List.sizeOf_lt_of_mem hv
    simp only [array.sizeOf_spec]
    omega
  | object members =>
    simp only [fields?, Option.ite_none_right_eq_some] at h
    have := sizeOf_of_soleMembers? h.2 v hv
    simp only [object.sizeOf_spec]
    omega
  | _ => cases h

theorem sizeOf_of_variant? {v content : Json} {name : String}
    (h : variant? v = some (name, some content)) : sizeOf content < sizeOf v := by
  unfold variant? at h
  split at h
  · cases h
  · cases h; simp; omega
  · cases h

end Json

end ShapeSchema
