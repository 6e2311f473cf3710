import ShapeSchema.Text.Span
set_option autoImplicit false

namespace ShapeSchema

inductive Note.Kind
  | general
  | help
  deriving DecidableEq, Repr

structure Note where
  kind : Note.Kind
  message : String
  span : Option Span
  deriving DecidableEq, Repr

namespace Note

def Kind.label : Kind → String
  | .general => "note"
  | .help => "help"

def general (message : String) : Note := ⟨.general, message, none⟩

def generalAt (message : String) (span : Span) : Note := ⟨.general, message, some span⟩

def help (message : String) : Note := ⟨.help, message, none⟩

end Note

end ShapeSchema
