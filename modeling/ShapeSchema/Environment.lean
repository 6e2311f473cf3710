import ShapeSchema.Diagnostic.Render
import ShapeSchema.Journal
import ShapeSchema.Scalar
import ShapeSchema.Token.CharClass
set_option autoImplicit false

/-!
# Environments

An environment gives handles to type names. It is consulted for names that are no built-in scalars,
so a name can be entered only if it can occur in a text and is none of theirs.
-/

namespace ShapeSchema

structure Environment (H : Type) where
  lookup : String → Option H

/-- A way to ask for the handle of a name, with what is reported about it. -/
abbrev Asking (H : Type) := String → Journal (Option H)

namespace Environment

variable {H : Type}

def empty : Environment H := ⟨fun _ => none⟩

/-- Looks a name up and puts it on record that it was looked up. -/
def ask (env : Environment H) : Asking H := fun name => ⟨env.lookup name, [.lookup name]⟩

theorem ask_eq (env : Environment H) (name : String) :
    (env.ask name).value = env.lookup name ∧ (env.ask name).lookups = [name] := ⟨rfl, rfl⟩

end Environment

inductive EnvironmentError
  | builtinScalar (name : String)
  | invalidName (name : String)
  | schema (e : ParseError)
  deriving DecidableEq, Repr

namespace EnvironmentError

def message : EnvironmentError → String
  | .builtinScalar name => s!"`{name}` is a built-in scalar and cannot be redefined"
  | .invalidName name => s!"`{name}` is not a valid type name"
  | .schema e => e.oneLine

end EnvironmentError

/-- Accepts the names that an environment may hold. -/
def checkTypeName (name : String) : Except EnvironmentError Unit :=
  if !isValidName name then .error (.invalidName name)
  else if Scalar.isBuiltin name then .error (.builtinScalar name)
  else .ok ()

theorem checkTypeName_eq_ok_iff (name : String) :
    checkTypeName name = .ok () ↔ isValidName name = true ∧ Scalar.isBuiltin name = false := by
  unfold checkTypeName
  cases isValidName name <;> cases Scalar.isBuiltin name <;> simp

end ShapeSchema
