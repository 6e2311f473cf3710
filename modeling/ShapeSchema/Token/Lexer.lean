import ShapeSchema.Text.Escape
import ShapeSchema.Token.CharClass
set_option autoImplicit false

/-!
# The tokens of a text

Schema text splits into lexemes: the longest runs of whitespace, the longest runs of name
characters, and every other character for itself. `Token.ofText` reads them off from left to right;
separators are kept with the token that follows them, and the last token marks the end.
Nothing is refused here: text that is no token becomes an `invalid` one.
-/

namespace ShapeSchema

/-- Whether two neighbouring characters belong to one lexeme. -/
def sameLexeme (a b : Char) : Bool :=
  isWhitespace a && isWhitespace b || isNameChar a && isNameChar b

/-- The lexemes of a text; their concatenation is the text. -/
def lexemes (cs : List Char) : List (List Char) := cs.splitBy sameLexeme

inductive Lexeme
  | separator (k : Trivia.Kind)
  | token (k : Token.Kind)
  deriving DecidableEq, Repr

namespace Lexeme

/-- A run of name characters that starts with a digit. -/
def digitLed (run : List Char) : Token.Kind :=
  .invalid s!"invalid name `{String.ofList run}`"
    [.help "names must start with a letter or `_`"]

/-- Why a character that other declaration languages use has no place here. -/
def adviceFor (c : Char) : List Note :=
  if c = '#' then [.general "comments are not supported in shape declarations"]
  else if c = '@' then [.general "directives are not supported in shape declarations"]
  else if c = '=' then [.general "default values are not supported in shape declarations"]
  else []

def unexpectedChar (c : Char) : Token.Kind :=
  .invalid s!"unexpected character `{String.ofList (Text.escapeChar c)}`" (adviceFor c)

/-- The meaning of the lexeme that starts with `c`; its first character decides. -/
def ofRun (c : Char) (rest : List Char) : Lexeme :=
  if isWhitespace c then .separator .whitespace
  else if c = ';' then .separator .semicolon
  else match Punctuator.ofChar? c with
    | some p => .token (.punctuator p)
    | none =>
      if isNameStart c then .token (.name (String.ofList (c :: rest)))
      else if isNameChar c then .token (digitLed (c :: rest))
      else .token (unexpectedChar c)

end Lexeme

namespace Token

def addTrivia (t : Trivia) : List Token → List Token
  | [] => []
  | first :: rest => { first with trivia := t :: first.trivia } :: rest

/-- The tokens of lexemes that start at `p`, and the end of input behind them. -/
def scan (p : Position) : List (List Char) → List Token
  | [] => [⟨.endOfInput, [], .empty p⟩]
  | [] :: more => scan p more
  | (c :: rest) :: more =>
    let stop := p.through (c :: rest)
    match Lexeme.ofRun c rest with
    | .separator k => addTrivia ⟨k, ⟨p, stop⟩⟩ (scan stop more)
    | .token k => ⟨k, [], ⟨p, stop⟩⟩ :: scan stop more

def ofText (text : String) : List Token := scan .start (lexemes text.toList)

end Token

end ShapeSchema
