import ShapeSchema.Scalar
set_option autoImplicit false

namespace ShapeSchema

/-- What a type name means. -/
inductive Resolution (H : Type)
  | scalar (s : Scalar)
  | environment (handle : H)
  | unresolved
  deriving DecidableEq, Repr

namespace Resolution

variable {H : Type}

def isResolved : Resolution H → Bool
  | .unresolved => false
  | _ => true

def handle? : Resolution H → Option H
  | .environment h => some h
  | _ => none

end Resolution

inductive ResolvedType (H : Type)
  | named (name : String) (nullable : Bool) (resolution : Resolution H)
  | list (element : ResolvedType H) (nullable : Bool)
  deriving DecidableEq, Repr

namespace ResolvedType

variable {H K : Type}

def isNullable : ResolvedType H → Bool
  | .named _ nullable _ | .list _ nullable => nullable

def isList : ResolvedType H → Bool
  | .list _ _ => true
  | .named _ _ _ => false

def element? : ResolvedType H → Option (ResolvedType H)
  | .list element _ => some element
  | .named _ _ _ => none

def name? : ResolvedType H → Option String
  | .named name _ _ => some name
  | .list _ _ => none

def leafName : ResolvedType H → String
  | .named name _ _ => name
  | .list element _ => element.leafName

def leafNullable : ResolvedType H → Bool
  | .named _ nullable _ => nullable
  | .list element _ => element.leafNullable

def leafResolution : ResolvedType H → Resolution H
  | .named _ _ resolution => resolution
  | .list element _ => element.leafResolution

def depth : ResolvedType H → Nat
  | .named _ _ _ => 0
  | .list element _ => element.depth + 1

def bangUnless (nullable : Bool) : List Char := if nullable then [] else ['!']

/-- The characters that write the type in schema text, and `rest` behind them. -/
def charsThen (rest : List Char) : ResolvedType H → List Char
  | .named name nullable _ => name.toList ++ (bangUnless nullable ++ rest)
  | .list element nullable => '[' :: element.charsThen (']' :: (bangUnless nullable ++ rest))

def chars (a : ResolvedType H) : List Char := a.charsThen []

def text (a : ResolvedType H) : String := String.ofList a.chars

/-- Whether two types agree in list levels, nullability at each level and type name. -/
def isEquivalent : ResolvedType H → ResolvedType K → Bool
  | .named name nullable _, .named name' nullable' _ => name == name' && nullable == nullable'
  | .list element nullable, .list element' nullable' =>
    nullable == nullable' && element.isEquivalent element'
  | _, _ => false

def unresolved? (a : ResolvedType H) : Option String :=
  if a.leafResolution.isResolved then none else some a.leafName

theorem charsThen_eq (a : ResolvedType H) (rest : List Char) :
    a.charsThen rest = a.chars ++ rest := by
  unfold chars
  induction a generalizing rest with
  | named => simp [charsThen]
  | list element nullable ih =>
    simp only [charsThen, List.append_nil]
    rw [ih (']' :: (bangUnless nullable ++ rest)), ih (']' :: bangUnless nullable)]
    simp

theorem chars_list (element : ResolvedType H) (nullable : Bool) :
    (list element nullable).chars = '[' :: element.chars ++ ']' :: bangUnless nullable := by
  rw [chars, charsThen, charsThen_eq, List.append_nil]
  rfl

end ResolvedType

end ShapeSchema
