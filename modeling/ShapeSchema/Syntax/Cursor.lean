import ShapeSchema.Diagnostic
import ShapeSchema.Journal
set_option autoImplicit false

namespace ShapeSchema

inductive Construct
  | objectBlock
  | enumBlock
  | parameterList
  | listType
  deriving DecidableEq, Repr

namespace Construct

def description : Construct → String
  | .objectBlock => "object block"
  | .enumBlock => "enum block"
  | .parameterList => "parameter list"
  | .listType => "list type"

def opener : Construct → Punctuator
  | .objectBlock | .enumBlock => .braceOpen
  | .parameterList => .parenOpen
  | .listType => .bracketOpen

def closer : Construct → Punctuator
  | .objectBlock | .enumBlock => .braceClose
  | .parameterList => .parenClose
  | .listType => .bracketClose

end Construct

structure Opener where
  construct : Construct
  span : Span
  deriving DecidableEq, Repr

/-- A record written while tokens are read; `unread` tokens had not been looked at by then. -/
structure Notice where
  unread : Nat
  record : Record
  deriving DecidableEq, Repr

structure Cursor where
  /-- The tokens ahead. -/
  rest : List Token
  /-- The open delimiters, innermost first. -/
  openers : List Opener
  /-- How many type expressions are being read. -/
  depth : Nat
  /-- The end of the last token read. -/
  lastEnd : Option Position
  /-- The notices so far, newest first. -/
  notices : List Notice

namespace Cursor

def ofTokens (tokens : List Token) : Cursor := ⟨tokens, [], 0, none, []⟩

def reached (s : Cursor) : Position := s.lastEnd.getD .start

/-- The span of the next token; behind the last token, the empty span there. -/
def nextSpan (s : Cursor) : Span :=
  match s.rest with
  | t :: _ => t.span
  | [] => .empty s.reached

def advance (s : Cursor) (t : Token) (rest : List Token) : Cursor :=
  { s with rest, lastEnd := some t.span.stop }

/-- The error for input that ends here: an open delimiter is the cause, if there is one. -/
def endError (s : Cursor) (expected : List Expected) : ParseError :=
  match s.openers with
  | opener :: _ =>
    let delimiter := opener.construct.opener.text
    ⟨s!"unclosed `{delimiter}`", .empty s.reached, .unclosedDelimiter delimiter,
      [.generalAt s!"{opener.construct.description} opened here" opener.span]⟩
  | [] => .unexpectedEnd expected s.reached

def mismatchError (opener : Opener) (found : String) (span : Span) : ParseError :=
  let wanted := opener.construct.closer.text
  ⟨s!"expected `{wanted}`, found `{found}`", span, .mismatchedDelimiter wanted found,
    [.generalAt
      s!"{opener.construct.description} opened with `{opener.construct.opener.text}` here"
      opener.span]⟩

/-- The error for a next token that is none of `expected`, with the most telling cause: an invalid
    token, the end of input, a closing delimiter of the wrong kind, or the token itself. -/
def unexpected (s : Cursor) (expected : List Expected) : ParseError :=
  match s.rest with
  | [] => s.endError expected
  | t :: _ =>
    match t.kind with
    | .endOfInput => s.endError expected
    | .invalid message notes => .ofInvalid message t.span notes
    | kind =>
      match s.openers.head?.filter fun opener =>
          kind.isClosing && kind != .punctuator opener.construct.closer with
      | some opener => mismatchError opener kind.text t.span
      | none => .unexpectedToken expected kind.text t.span

end Cursor

end ShapeSchema
