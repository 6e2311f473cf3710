import ShapeSchema.Syntax.Progress
set_option autoImplicit false

namespace ShapeSchema.Parse

open Syntax

/-- How many type expressions may enclose one another, the innermost name included. -/
def maxDepth : Nat := 64

def bang : Parse (Option ByteSpan) := do
  match ← accept .bang with
  | some t => return some (← byteSpan t.span)
  | none => return none

def typeRule (element : Parse (TypeExpr ByteSpan)) : Parse (TypeExpr ByteSpan) := do
  match ← accept .bracketOpen with
  | some bracket =>
    let start := (← byteSpan bracket.span).start
    opened .listType bracket
    let inner ← element
    close
    let mark ← bang
    return .list inner mark ⟨start, ← reachedByte⟩
  | none =>
    let name ← name .typeName
    let mark ← bang
    return .named name mark ⟨name.span.start, ← reachedByte⟩

/-- A type expression with at most `levels` nested ones, itself included. -/
def typeWithin : Nat → Parse (TypeExpr ByteSpan)
  | 0 => fail fun s => .tooDeep s.nextSpan
  | levels + 1 => deeper (typeRule (typeWithin levels))

def typeExpr : Parse (TypeExpr ByteSpan) := fun s => typeWithin (maxDepth - s.depth) s

/-- The error for another token in place of the colon behind a name, with advice. -/
def colonError (name : String) (s : Cursor) : ParseError :=
  let e := s.unexpected [.punctuator .colon]
  match e.cause with
  | .unexpectedToken _ _ => e.addHelp
      s!"declarations need a `:` between the name and its type, e.g. `{name}: Type`"
  | _ => e

def colonAfter (name : String) : Parse Unit := do
  match ← accept .colon with
  | some _ => return ()
  | none => fail (colonError name)

def parameter : Parse (Parameter ByteSpan) := do
  let name ← name .parameterName
  colonAfter name.text
  let type ← typeExpr
  return ⟨name, type, ⟨name.span.start, ← reachedByte⟩⟩

def parameterAfterComma : Parse (Option (Parameter ByteSpan)) := do
  match ← accept .comma with
  | some _ => return some (← parameter)
  | none => return none

theorem bang_shrinks : Shrinks bang :=
  (accept_shrinks _).bind fun
    | some _ => (byteSpan_shrinks _).bind fun _ => .pure rfl
    | none => .pure rfl

theorem typeRule_shrinks {element : Parse (TypeExpr ByteSpan)} (h : Shrinks element) :
    Shrinks (typeRule element) :=
  (accept_shrinks _).bind fun
    | some _ => (byteSpan_shrinks _).bind fun _ => (opened_shrinks _ _).bind fun _ =>
        h.bind fun _ => close_shrinks.bind fun _ => bang_shrinks.bind fun _ =>
        reachedByte_shrinks.bind fun _ => .pure rfl
    | none => ((name_spends _).weaken fun _ => Nat.zero_le _).bind fun _ =>
        bang_shrinks.bind fun _ => reachedByte_shrinks.bind fun _ => .pure rfl

theorem typeWithin_shrinks (levels : Nat) : Shrinks (typeWithin levels) := by
  induction levels with
  | zero => exact .fail _
  | succ levels ih => exact deeper_shrinks (typeRule_shrinks ih)

theorem typeExpr_shrinks : Shrinks typeExpr := fun s a s' hs => typeWithin_shrinks _ s a s' hs

theorem colonAfter_shrinks (name : String) : Shrinks (colonAfter name) :=
  (accept_shrinks _).bind fun
    | some _ => .pure rfl
    | none => .fail _

theorem parameter_shrinks : Shrinks parameter :=
  ((name_spends _).weaken fun _ => Nat.zero_le _).bind fun _ => (colonAfter_shrinks _).bind fun _ =>
    typeExpr_shrinks.bind fun _ => reachedByte_shrinks.bind fun _ => .pure rfl

theorem parameterAfterComma_spends : Spends roundCost parameterAfterComma :=
  (accept_spends _).bindRound
    (fun _ => (parameter_shrinks.weaken fun _ => Nat.le_refl 0).bind fun _ => .pure rfl)
    (.pure rfl)

def parameterListError (s : Cursor) : ParseError :=
  let e := s.unexpected [.punctuator .comma, .punctuator .parenClose]
  if s.rest.head?.any (·.kind.isName) then e.addHelp "separate parameters with `,`" else e

def endOfParameters : Parse Unit := do
  if ← nextIs .parenClose then return () else fail parameterListError

def parameterItems : Parse (List (Parameter ByteSpan)) := do
  let first ← parameter
  let more ← collect (fun _ => parameterAfterComma) (fun _ => parameterAfterComma_spends) 0
  endOfParameters
  return first :: more

def parameters : Parse (List (Parameter ByteSpan)) := do
  let paren ← expect .parenOpen
  opened .parameterList paren
  match ← accept .parenClose with
  | some closing => throw (.emptyParameterList ⟨paren.span.start, closing.span.stop⟩)
  | none =>
    let items ← parameterItems
    close
    return items

def parametersIfAny : Parse (List (Parameter ByteSpan)) := do
  if ← nextIs .parenOpen then parameters else return []

def field : Parse (Syntax.Field ByteSpan) := do
  let name ← name .fieldName
  let parameters ← parametersIfAny
  colonAfter name.text
  let type ← typeExpr
  return ⟨name, parameters, type, ⟨name.span.start, ← reachedByte⟩⟩

theorem endOfParameters_shrinks : Shrinks endOfParameters :=
  (nextIs_shrinks _).bind fun
    | true => .pure rfl
    | false => .fail _

theorem parameterItems_shrinks : Shrinks parameterItems :=
  parameter_shrinks.bind fun _ => (collect_shrinks _ _ _).bind fun _ =>
    endOfParameters_shrinks.bind fun _ => .pure rfl

theorem parameters_shrinks : Shrinks parameters :=
  (expect_shrinks _).bind fun _ => (opened_shrinks _ _).bind fun _ =>
    (accept_shrinks _).bind fun
      | some _ => .throw _
      | none => parameterItems_shrinks.bind fun _ => close_shrinks.bind fun _ => .pure rfl

theorem parametersIfAny_shrinks : Shrinks parametersIfAny :=
  (nextIs_shrinks _).bind fun
    | true => parameters_shrinks
    | false => .pure rfl

theorem field_spends : Spends (fun _ => 1) field :=
  (name_spends _).bind fun _ => parametersIfAny_shrinks.bind fun _ =>
    (colonAfter_shrinks _).bind fun _ => typeExpr_shrinks.bind fun _ =>
    reachedByte_shrinks.bind fun _ => .pure rfl

/-- Yields nothing in front of the closing brace, and otherwise requires a name there that stands
    apart from the `n` declarations before it. -/
def declaration {α : Type} (role : Expected) (plural : String) (n : Nat) (item : Parse α) :
    Parse (Option α) := do
  if ← nextIs .braceClose then return none
  else if (← nextName?).isNone then refuse [role, .punctuator .braceClose]
  else
    if n ≠ 0 then separated plural
    return some (← item)

/-- A field of an object block. After a nullable type the next token has been looked at, in search
    of a `!`. -/
def announcedField : Parse (Syntax.Field ByteSpan) := do
  let field ← field
  announce (if field.type.isNullable then 1 else 0) .trace
    s!"parsed field `{field.name.text}` ({field.parameters.length} parameters)"
  return field

theorem declaration_spends {α : Type} (role : Expected) (plural : String) (n : Nat)
    {item : Parse α} (h : Spends (fun _ => 1) item) :
    Spends roundCost (declaration role plural n item) := by
  have last : Spends roundCost (do return some (← item)) := h.bind fun _ => .pure rfl
  refine (nextIs_shrinks _).bind fun closing => ?_
  cases closing with
  | true => exact .pure rfl
  | false =>
    refine nextName?_shrinks.bind fun name => ?_
    cases name with
    | none => exact .refuse _
    | some _ =>
      by_cases hn : n ≠ 0
      · simp only [Option.isNone_some, Bool.false_eq_true, if_false, if_pos hn]
        exact (separated_shrinks _).bind fun _ => last
      · simp only [Option.isNone_some, Bool.false_eq_true, if_false, if_neg hn]
        exact last

theorem announcedField_spends : Spends (fun _ => 1) announcedField :=
  field_spends.bind fun _ => (announce_shrinks _ _ _).bind fun _ => .pure rfl

def objectBlock : Parse (Block ByteSpan) := do
  let brace ← expect .braceOpen
  let start := (← byteSpan brace.span).start
  opened .objectBlock brace
  let fields ← collect (declaration .fieldName "fields" · announcedField)
    (fun n => declaration_spends _ _ n announcedField_spends) 0
  close
  announce 0 .debug s!"parsed object block with {fields.length} field declarations"
  return .object fields ⟨start, ← reachedByte⟩

def enumBlock : Parse (Block ByteSpan) := do
  let keyword ← name .enumKeyword
  let brace ← expect .braceOpen
  opened .enumBlock brace
  let values ← collect (declaration .enumValue "enum values" · (name .enumValue))
    (fun n => declaration_spends _ _ n (name_spends _)) 0
  close
  announce 0 .debug s!"parsed enum block with {values.length} values"
  return .enum values ⟨keyword.span.start, ← reachedByte⟩

def endOfInput : Parse Unit := fun s =>
  match s.rest with
  | [] => .ok () s
  | t :: _ =>
    match t.kind with
    | .endOfInput => .ok () s
    | .invalid message notes => .error (.ofInvalid message t.span notes) s
    | kind => .error (.trailingInput kind.text t.span) s

/-- A whole schema text; its first token tells the kind of block. -/
def block : Parse (Block ByteSpan) := do
  let block ←
    if ← nextIs .braceOpen then objectBlock
    else if (← nextName?) = some "enum" then enumBlock
    else refuse [.punctuator .braceOpen, .enumOpener]
  endOfInput
  return block

end ShapeSchema.Parse
