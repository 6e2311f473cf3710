import ShapeSchema.Text.Printable
set_option autoImplicit false

namespace ShapeSchema.Text

def hexDigits (n : Nat) : List Char := Nat.toDigits 16 n

def bracedCode (c : Char) : List Char :=
  ['\\', 'u', '\x7b'] ++ hexDigits c.toNat ++ ['\x7d']

/-- The escape of a character that no quotation mark surrounds. -/
def escapeUnquoted (c : Char) : List Char :=
  if c = '\x00' then ['\\', '0']
  else if c = '\t' then ['\\', 't']
  else if c = '\r' then ['\\', 'r']
  else if c = '\n' then ['\\', 'n']
  else if c = '\\' then ['\\', '\\']
  else if extendsGrapheme c || isUnprintable c then bracedCode c
  else [c]

/-- The escape of a character that stands alone: both kinds of quotation mark are escaped. -/
def escapeChar (c : Char) : List Char :=
  if c = '\'' ∨ c = '"' then ['\\', c] else escapeUnquoted c

/-- A text between double quotes; an apostrophe inside it stays as it is. -/
def quoted (s : String) : String :=
  String.ofList (['"'] ++ s.toList.flatMap (fun c => if c = '"' then ['\\', c] else escapeUnquoted c)
    ++ ['"'])

end ShapeSchema.Text
