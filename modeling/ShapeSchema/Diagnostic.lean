import ShapeSchema.Diagnostic.Note
import ShapeSchema.Token
set_option autoImplicit false

namespace ShapeSchema

inductive Expected
  | punctuator (p : Punctuator)
  | enumOpener
  | enumKeyword
  | fieldName
  | enumValue
  | parameterName
  | typeName
  deriving DecidableEq, Repr

def Expected.text : Expected → String
  | .punctuator p => s!"`{p.text}`"
  | .enumOpener => "`enum\x7b`"
  | .enumKeyword => "`enum`"
  | .fieldName => "field name"
  | .enumValue => "enum value"
  | .parameterName => "parameter name"
  | .typeName => "type name"

inductive Cause
  | unexpectedToken (expected : List String) (found : String)
  | unexpectedEnd (expected : List String)
  | invalidToken
  | unclosedDelimiter (delimiter : String)
  | mismatchedDelimiter (expected found : String)
  | missingSeparator (found : String)
  | emptyConstruct (construct : String)
  | trailingInput
  | invalidSyntax
  deriving DecidableEq, Repr

def Cause.summary : Cause → String
  | .unexpectedToken _ found => s!"unexpected token: `{found}`"
  | .unexpectedEnd _ => "unexpected end of input"
  | .invalidToken => "lexer error"
  | .unclosedDelimiter delimiter => s!"unclosed delimiter: `{delimiter}`"
  | .mismatchedDelimiter _ _ => "mismatched delimiter"
  | .missingSeparator found => s!"missing separator before `{found}`"
  | .emptyConstruct construct => s!"invalid empty construct: `{construct}`"
  | .trailingInput => "trailing input after schema block"
  | .invalidSyntax => "invalid syntax"

structure ParseError where
  message : String
  span : Span
  cause : Cause
  notes : List Note
  deriving DecidableEq, Repr

namespace ParseError

def addNote (e : ParseError) (note : Note) : ParseError := { e with notes := e.notes ++ [note] }

def addHelp (e : ParseError) (message : String) : ParseError := e.addNote (.help message)

/-- The text that the error points at. -/
def offending? (e : ParseError) (source : String) : Option String := e.span.bytes.slice? source

def ofInvalid (message : String) (span : Span) (notes : List Note) : ParseError :=
  ⟨message, span, .invalidToken, notes⟩

/-- The alternatives of a message, as in "A or B". -/
def alternatives (expected : List Expected) : String :=
  String.intercalate " or " (expected.map Expected.text)

def unexpectedToken (expected : List Expected) (found : String) (span : Span) : ParseError :=
  ⟨s!"expected {alternatives expected}, found `{found}`", span,
    .unexpectedToken (expected.map Expected.text) found, []⟩

def unexpectedEnd (expected : List Expected) (place : Position) : ParseError :=
  ⟨s!"expected {alternatives expected}, found end of input", .empty place,
    .unexpectedEnd (expected.map Expected.text), []⟩

def missingSeparator (declarations found : String) (span : Span) : ParseError :=
  ⟨s!"expected a separator before `{found}`", span, .missingSeparator found,
    [.help s!"separate {declarations} with a space"]⟩

def emptyParameterList (span : Span) : ParseError :=
  ⟨"parameter list cannot be empty", span, .emptyConstruct "parameter list",
    [.help "omit the parentheses for a field without parameters"]⟩

def trailingInput (found : String) (span : Span) : ParseError :=
  ⟨s!"unexpected `{found}` after the end of the schema block", span, .trailingInput,
    [.general "schema text holds exactly one object or enum block"]⟩

def tooDeep (span : Span) : ParseError :=
  ⟨"maximum nesting depth exceeded", span, .invalidSyntax, []⟩

def tooLarge (span : Span) : ParseError :=
  ⟨"schema text is too large", span, .invalidSyntax,
    [.general s!"byte offsets past {ByteSpan.limit} cannot be represented"]⟩

def noOpenDelimiter (span : Span) : ParseError :=
  ⟨"no delimiter is open", span, .invalidSyntax, []⟩

end ParseError

end ShapeSchema
