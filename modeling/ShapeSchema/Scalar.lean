set_option autoImplicit false

namespace ShapeSchema

inductive Scalar
  | boolean
  | float
  | id
  | int
  | string
  deriving DecidableEq, Repr

namespace Scalar

def all : List Scalar := [.boolean, .float, .id, .int, .string]

def name : Scalar → String
  | .boolean => "Boolean"
  | .float => "Float"
  | .id => "ID"
  | .int => "Int"
  | .string => "String"

/-- The type that represents the values of the scalar; an identifier is carried as a string. -/
def nativeType : Scalar → String
  | .boolean => "bool"
  | .float => "f64"
  | .id | .string => "String"
  | .int => "i64"

def ofName? (name : String) : Option Scalar := all.find? (·.name = name)

def isBuiltin (name : String) : Bool := (ofName? name).isSome

theorem ofName?_name (s : Scalar) : ofName? s.name = some s := by
  cases s <;> decide

theorem name_eq_of_ofName? {name : String} {s : Scalar} (h : ofName? name = some s) :
    s.name = name := by
  simpa using List.find?_some h

end Scalar

end ShapeSchema
