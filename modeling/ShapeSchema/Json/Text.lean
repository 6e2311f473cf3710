import ShapeSchema.Json
import ShapeSchema.Text.Escape
set_option autoImplicit false

namespace ShapeSchema.Json

def escapeInString (c : Char) : List Char :=
  if c = '"' then ['\\', '"']
  else if c = '\\' then ['\\', '\\']
  else if c = '\x08' then ['\\', 'b']
  else if c = '\x0c' then ['\\', 'f']
  else if c = '\n' then ['\\', 'n']
  else if c = '\r' then ['\\', 'r']
  else if c = '\t' then ['\\', 't']
  else if c.toNat < 0x20 then
    ['\\', 'u', '0', '0', Nat.digitChar (c.toNat / 16), Nat.digitChar (c.toNat % 16)]
  else [c]

/-- The content of a written string; half a surrogate pair stands for content that is no text. -/
def stringBody : Option String → List Char
  | some s => s.toList.flatMap escapeInString
  | none => "\\ud800".toList

def Lexeme.chars : Lexeme → List Char
  | .bracketOpen => ['[']
  | .bracketClose => [']']
  | .braceOpen => ['\x7b']
  | .braceClose => ['\x7d']
  | .comma => [',']
  | .colon => [':']
  | .scalar (.bool true) => "true".toList
  | .scalar (.bool false) => "false".toList
  | .scalar (.number literal) => literal.toList
  | .scalar (.string content) => '"' :: stringBody content ++ ['"']
  | .scalar _ => "null".toList

def compact (v : Json) : String := String.ofList (v.lexemes.flatMap Lexeme.chars)

def isHighSurrogate (unit : Nat) : Bool := 0xD800 ≤ unit && unit < 0xDC00

def isLowSurrogate (unit : Nat) : Bool := 0xDC00 ≤ unit && unit < 0xE000

/-- The text of a sequence of code points and UTF-16 units; none when a surrogate has no partner. -/
def joinUnits : List Nat → Option (List Char)
  | [] => some []
  | unit :: rest =>
    if isHighSurrogate unit then
      match rest with
      | [] => none
      | low :: rest =>
        if isLowSurrogate low then
          (joinUnits rest).map
            (Char.ofNat (0x10000 + (unit - 0xD800) * 0x400 + (low - 0xDC00)) :: ·)
        else none
    else if isLowSurrogate unit then none
    else (joinUnits rest).map (Char.ofNat unit :: ·)

/-- Nothing, or an exponent mark, a sign at will and digits. -/
def isExponent : List Char → Bool
  | [] => true
  | mark :: rest =>
    let digits := match rest with
      | '+' :: digits | '-' :: digits => digits
      | digits => digits
    (mark == 'e' || mark == 'E') && !digits.isEmpty && digits.all Char.isDigit

def isFraction : List Char → Bool
  | '.' :: d :: rest => d.isDigit && isExponent (rest.dropWhile Char.isDigit)
  | rest => isExponent rest

/-- Whether the characters are a number: no superfluous zero in front, digits on both sides of a
    point. -/
def isNumber (cs : List Char) : Bool :=
  let magnitude := match cs with
    | '-' :: rest => rest
    | rest => rest
  match magnitude with
  | '0' :: rest => isFraction rest
  | d :: rest => d.isDigit && isFraction (rest.dropWhile Char.isDigit)
  | [] => false

def word? (cs : List Char) : Option Json :=
  if cs = "null".toList then some .null
  else if cs = "true".toList then some (.bool true)
  else if cs = "false".toList then some (.bool false)
  else if isNumber cs then some (.number (String.ofList cs))
  else none

/-- Where in a text the scanner is. Runs and units are kept newest first. -/
inductive Scan
  | between
  | word (run : List Char)
  | string (units : List Nat)
  | escape (units : List Nat)
  | hex (units : List Nat) (missing code : Nat)

namespace Scan

def isSpace (c : Char) : Bool := c == ' ' || c == '\t' || c == '\n' || c == '\r'

def isWordChar (c : Char) : Bool := c.isAlphanum || c == '+' || c == '-' || c == '.'

def mark? (c : Char) : Option Lexeme :=
  match c with
  | '[' => some .bracketOpen
  | ']' => some .bracketClose
  | '\x7b' => some .braceOpen
  | '\x7d' => some .braceClose
  | ',' => some .comma
  | ':' => some .colon
  | _ => none

def escaped? (c : Char) : Option Char :=
  match c with
  | '"' => some '"'
  | '\\' => some '\\'
  | '/' => some '/'
  | 'b' => some '\x08'
  | 'f' => some '\x0c'
  | 'n' => some '\n'
  | 'r' => some '\r'
  | 't' => some '\t'
  | _ => none

def hexDigit? (c : Char) : Option Nat :=
  if c.isDigit then some (c.toNat - '0'.toNat)
  else if 'a' ≤ c ∧ c ≤ 'f' then some (c.toNat - 'a'.toNat + 10)
  else if 'A' ≤ c ∧ c ≤ 'F' then some (c.toNat - 'A'.toNat + 10)
  else none

def start (c : Char) : Option (List Lexeme × Scan) :=
  if isSpace c then some ([], .between)
  else if c = '"' then some ([], .string [])
  else if isWordChar c then some ([], .word [c])
  else (mark? c).map fun m => ([m], .between)

/-- The lexemes that end before or with the character `c`, and where the scanner is behind it. -/
def step : Scan → Char → Option (List Lexeme × Scan)
  | .between, c => start c
  | .word run, c =>
    if isWordChar c then some ([], .word (c :: run))
    else do
      let value ← word? run.reverse
      let (more, next) ← start c
      return (.scalar value :: more, next)
  | .string units, c =>
    if c = '"' then
      some ([.scalar (.string ((joinUnits units.reverse).map String.ofList))], .between)
    else if c = '\\' then some ([], .escape units)
    else if c.toNat < 0x20 then none
    else some ([], .string (c.toNat :: units))
  | .escape units, c =>
    if c = 'u' then some ([], .hex units 4 0)
    else (escaped? c).map fun e => ([], .string (e.toNat :: units))
  | .hex units missing code, c => do
    let digit ← hexDigit? c
    let code := 16 * code + digit
    return ([], if missing ≤ 1 then .string (code :: units) else .hex units (missing - 1) code)

def run : Scan → List Char → Option (List Lexeme)
  | .between, [] => some []
  | .word run, [] => (word? run.reverse).map fun value => [.scalar value]
  | _, [] => none
  | scan, c :: rest => do
    let (found, next) ← step scan c
    let more ← run next rest
    return found ++ more

end Scan

inductive Frame
  | items (before : List Json)
  | members (before : List (Option String × Json)) (key : Option String)

/-- What may come next, and what is being built around it, innermost first. -/
inductive Build
  | value (frames : List Frame)
  | firstItem (frames : List Frame)
  | firstMember (frames : List Frame)
  | member (before : List (Option String × Json)) (frames : List Frame)
  | colon (before : List (Option String × Json)) (key : Option String) (frames : List Frame)
  | finished (value : Json) (frames : List Frame)

namespace Build

def startValue (frames : List Frame) : Lexeme → Option Build
  | .scalar v => some (.finished v frames)
  | .bracketOpen => some (.firstItem frames)
  | .braceOpen => some (.firstMember frames)
  | _ => none

def step : Build → Lexeme → Option Build
  | .value frames, l => startValue frames l
  | .firstItem frames, .bracketClose => some (.finished (.array []) frames)
  | .firstItem frames, l => startValue (.items [] :: frames) l
  | .firstMember frames, .braceClose => some (.finished (.object []) frames)
  | .firstMember frames, .scalar (.string key) => some (.colon [] key frames)
  | .member before frames, .scalar (.string key) => some (.colon before key frames)
  | .colon before key frames, .colon => some (.value (.members before key :: frames))
  | .finished v (.items before :: frames), .comma => some (.value (.items (v :: before) :: frames))
  | .finished v (.items before :: frames), .bracketClose =>
    some (.finished (.array (v :: before).reverse) frames)
  | .finished v (.members before key :: frames), .comma => some (.member ((key, v) :: before) frames)
  | .finished v (.members before key :: frames), .braceClose =>
    some (.finished (.object ((key, v) :: before).reverse) frames)
  | _, _ => none

def run : Build → List Lexeme → Option Json
  | .finished v [], [] => some v
  | _, [] => none
  | b, l :: rest => (step b l).bind (run · rest)

end Build

def parse? (text : String) : Option Json := do
  Build.run (.value []) (← Scan.run .between text.toList)

end ShapeSchema.Json
