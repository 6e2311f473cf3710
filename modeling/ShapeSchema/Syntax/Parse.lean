import ShapeSchema.Syntax
import ShapeSchema.Syntax.Cursor
set_option autoImplicit false

namespace ShapeSchema

abbrev Parse := EStateM ParseError Cursor

namespace Parse

variable {α β : Type}

/-- Stops with an error that depends on where the cursor is. -/
def fail (error : Cursor → ParseError) : Parse α := fun s => .error (error s) s

def refuse (expected : List Expected) : Parse α := fail (·.unexpected expected)

def nextIs (p : Punctuator) : Parse Bool := fun s =>
  .ok (s.rest.head?.any (·.kind == .punctuator p)) s

def nextName? : Parse (Option String) := fun s => .ok (s.rest.head?.bind (·.kind.name?)) s

def accept (p : Punctuator) : Parse (Option Token) := fun s =>
  match s.rest with
  | [] => .ok none s
  | t :: rest => if t.kind = .punctuator p then .ok (some t) (s.advance t rest) else .ok none s

def expect (p : Punctuator) : Parse Token := do
  match ← accept p with
  | some t => return t
  | none => refuse [.punctuator p]

def byteSpan (span : Span) : Parse ByteSpan :=
  match span.bytes? with
  | some bytes => pure bytes
  | none => throw (.tooLarge span)

/-- The byte offset where the text read so far ends. -/
def reachedByte : Parse Nat := do
  match (← get).lastEnd with
  | none => return 0
  | some p => return (← byteSpan (.empty p)).stop

def acceptName : Parse (Option (String × Span)) := fun s =>
  match s.rest with
  | [] => .ok none s
  | t :: rest =>
    match t.kind with
    | .name text => .ok (some (text, t.span)) (s.advance t rest)
    | _ => .ok none s

def name (role : Expected) : Parse (Syntax.Name ByteSpan) := do
  match ← acceptName with
  | some (text, span) => return ⟨text, ← byteSpan span⟩
  | none => refuse [role]

def opened (construct : Construct) (t : Token) : Parse Unit :=
  modify fun s => { s with openers := ⟨construct, t.span⟩ :: s.openers }

/-- Reads the delimiter that closes the innermost opener. -/
def close : Parse Unit := do
  match (← get).openers with
  | [] => fail fun s => .noOpenDelimiter s.nextSpan
  | opener :: _ =>
    let _ ← expect opener.construct.closer
    modify fun s => { s with openers := s.openers.tail }

def separated (declarations : String) : Parse Unit := fun s =>
  match s.rest with
  | [] => .ok () s
  | t :: _ =>
    if t.isSeparated then .ok () s
    else .error (.missingSeparator declarations t.kind.text t.span) s

/-- Writes a record; `ahead` tokens in front of the cursor have been looked at. -/
def announce (ahead : Nat) (level : Level) (text : String) : Parse Unit :=
  modify fun s =>
    { s with notices := ⟨s.rest.length - ahead, ⟨level, text⟩⟩ :: s.notices }

/-- Runs `p` one level deeper; the level is left again however `p` ends. -/
def deeper (p : Parse α) : Parse α := fun s =>
  match p { s with depth := s.depth + 1 } with
  | .ok a s' => .ok a { s' with depth := s'.depth - 1 }
  | .error e s' => .error e { s' with depth := s'.depth - 1 }

end Parse

end ShapeSchema
