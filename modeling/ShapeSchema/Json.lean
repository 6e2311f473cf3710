set_option autoImplicit false

namespace ShapeSchema

inductive Json
  | null
  | bool (value : Bool)
  | number (literal : String)
  | string (content : Option String)
  | array (items : List Json)
  | object (members : List (Option String × Json))

namespace Json

def str (s : String) : Json := .string (some s)

def obj (members : List (String × Json)) : Json :=
  .object (members.map fun (key, value) => (some key, value))

/-- The smallest parts of JSON text. A scalar is a value without parts of its own. -/
inductive Lexeme
  | bracketOpen
  | bracketClose
  | braceOpen
  | braceClose
  | comma
  | colon
  | scalar (value : Json)

mutual

/-- The lexemes of a value, in the order in which it is written, and `rest` behind them. -/
def lexemesThen (rest : List Lexeme) : Json → List Lexeme
  | .array items => .bracketOpen :: itemsThen rest items
  | .object members => .braceOpen :: membersThen rest members
  | scalar => .scalar scalar :: rest

def itemsThen (rest : List Lexeme) : List Json → List Lexeme
  | [] => .bracketClose :: rest
  | [item] => item.lexemesThen (.bracketClose :: rest)
  | item :: more => item.lexemesThen (.comma :: itemsThen rest more)

def membersThen (rest : List Lexeme) : List (Option String × Json) → List Lexeme
  | [] => .braceClose :: rest
  | [(key, value)] => .scalar (.string key) :: .colon :: value.lexemesThen (.braceClose :: rest)
  | (key, value) :: more =>
    .scalar (.string key) :: .colon :: value.lexemesThen (.comma :: membersThen rest more)

end

def lexemes (v : Json) : List Lexeme := v.lexemesThen []

end Json

end ShapeSchema
