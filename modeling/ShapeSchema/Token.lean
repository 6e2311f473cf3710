import ShapeSchema.Diagnostic.Note
set_option autoImplicit false

namespace ShapeSchema

inductive Punctuator
  | bang
  | colon
  | comma
  | braceOpen
  | braceClose
  | parenOpen
  | parenClose
  | bracketOpen
  | bracketClose
  deriving DecidableEq, Repr

namespace Punctuator

def char : Punctuator → Char
  | .bang => '!'
  | .colon => ':'
  | .comma => ','
  | .braceOpen => '\x7b'
  | .braceClose => '\x7d'
  | .parenOpen => '('
  | .parenClose => ')'
  | .bracketOpen => '['
  | .bracketClose => ']'

def all : List Punctuator :=
  [.bang, .colon, .comma, .braceOpen, .braceClose, .parenOpen, .parenClose, .bracketOpen,
    .bracketClose]

def ofChar? (c : Char) : Option Punctuator := all.find? (·.char = c)

def text (p : Punctuator) : String := p.char.toString

def isClosing : Punctuator → Bool
  | .braceClose | .parenClose | .bracketClose => true
  | _ => false

theorem ofChar?_char (p : Punctuator) : ofChar? p.char = some p := by
  cases p <;> decide

theorem char_eq_of_ofChar? {c : Char} {p : Punctuator} (h : ofChar? c = some p) : p.char = c := by
  simpa using List.find?_some h

end Punctuator

inductive Trivia.Kind
  | whitespace
  | semicolon
  deriving DecidableEq, Repr

structure Trivia where
  kind : Trivia.Kind
  span : Span
  deriving DecidableEq, Repr

inductive Token.Kind
  | punctuator (p : Punctuator)
  | name (text : String)
  | endOfInput
  | invalid (message : String) (notes : List Note)
  deriving DecidableEq, Repr

/-- A token, its span, and the separators between it and the token before. -/
structure Token where
  kind : Token.Kind
  trivia : List Trivia
  span : Span
  deriving DecidableEq, Repr

namespace Token

namespace Kind

/-- The token as messages quote it. -/
def text : Kind → String
  | .punctuator p => p.text
  | .name n => n
  | .endOfInput => "end of input"
  | .invalid message _ => s!"tokenization error: {message}"

def name? : Kind → Option String
  | .name n => some n
  | _ => none

def isName (k : Kind) : Bool := k.name?.isSome

def isClosing : Kind → Bool
  | .punctuator p => p.isClosing
  | _ => false

/-- Whether two tokens differ in their contents at most. -/
def sameSort : Kind → Kind → Bool
  | .punctuator p, .punctuator q => p = q
  | .name _, .name _ => true
  | .endOfInput, .endOfInput => true
  | .invalid _ _, .invalid _ _ => true
  | _, _ => false

theorem isName_iff {k : Kind} : k.isName = true ↔ ∃ n, k = .name n := by
  cases k <;> simp [isName, name?]

end Kind

def isSeparated (t : Token) : Bool := !t.trivia.isEmpty

end Token

end ShapeSchema
