import ShapeSchema.Diagnostic
import ShapeSchema.Text.Lines
set_option autoImplicit false

namespace ShapeSchema.ParseError

def place (e : ParseError) : String :=
  s!"<input>:{e.span.start.line + 1}:{e.span.start.column + 1}"

def oneLine (e : ParseError) : String := s!"{e.place}: error: {e.message}"

def spaces (n : Nat) : List Char := List.replicate n ' '

def padLeft (width : Nat) (s : List Char) : List Char := spaces (width - s.length) ++ s

/-- The width of the column of line numbers, two at least. -/
def gutter (line : Nat) : Nat := max 2 (Nat.toDigits 10 (line + 1)).length

def numberedLine (line : Nat) (content : List Char) : List Char :=
  padLeft (gutter line) (Nat.toDigits 10 (line + 1)) ++ " | ".toList ++ content ++ ['\n']

/-- A row below a source line with `mark` under the column. -/
def markRow (line column : Nat) (mark : List Char) : List Char :=
  spaces (gutter line) ++ " | ".toList ++ spaces column ++ mark ++ ['\n']

/-- How many carets underline a span: its characters when it ends in its first line, and one at
    least. -/
def caretCount (s : Span) : Nat :=
  if s.stop.line = s.start.line then max 1 (s.stop.column - s.start.column) else 1

def snippet? (source : String) (s : Span) : Option (List Char) :=
  (Text.lines source.toList)[s.start.line]?.map fun content =>
    spaces (gutter s.start.line) ++ " |\n".toList ++ numberedLine s.start.line content ++
      markRow s.start.line s.start.column (List.replicate (caretCount s) '^')

def noteSnippet? (source : String) (s : Span) : Option (List Char) :=
  (Text.lines source.toList)[s.start.line]?.map fun content =>
    spaces 5 ++ numberedLine s.start.line content ++
      spaces 5 ++ markRow s.start.line s.start.column ['-']

def renderNote (source : Option String) (note : Note) : List Char :=
  s!"   = {note.kind.label}: {note.message}\n".toList ++
    ((do noteSnippet? (← source) (← note.span)) : Option (List Char)).getD []

/-- The error in detail; without a source there are no source lines. -/
def detailed (e : ParseError) (source : Option String) : String :=
  String.ofList <|
    s!"error: {e.message}\n".toList ++ ("  --> ".toList ++ e.place.toList ++ ['\n']) ++
      ((do snippet? (← source) e.span) : Option (List Char)).getD [] ++
      e.notes.flatMap (renderNote source)

end ShapeSchema.ParseError
