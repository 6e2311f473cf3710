import ShapeSchema.Journal
import ShapeSchema.Text.Position
import ShapeSchema.Token.CharClass
set_option autoImplicit false

/-!
# Canonical schema text

The canonical form of a text is one line without any separator that can be spared. A run of
separators stays, as one space, only where it keeps two declarations apart: behind a name, `!` or
`]` and before something that is no punctuator.
-/

namespace ShapeSchema

/-- Whether a separator between these two characters has to stay. -/
def keepsSeparator (before next : Char) : Bool :=
  (before == '!' || before == ']' || !isPunctuator before) && !isPunctuator next

/-- Drops or shrinks every run of separators. `before` is the last character kept so far, `gap` says
    whether separators have been skipped since. -/
def squeeze (before : Option Char) (gap : Bool) : List Char → List Char
  | [] => []
  | c :: rest =>
    if isSeparator c then squeeze before true rest
    else if gap && before.any (keepsSeparator · c) then
      ' ' :: c :: squeeze (some c) false rest
    else c :: squeeze (some c) false rest

def canonical (text : String) : String := String.ofList (squeeze none false text.toList)

/-- Whether every separator is a single space that has to stay, given the character before. -/
def isSqueezed (before : Option Char) : List Char → Bool
  | [] => true
  | c :: rest =>
    (!isSeparator c ||
      c == ' ' && rest.head?.any fun next =>
        !isSeparator next && before.any (keepsSeparator · next)) &&
      isSqueezed (some c) rest

def isCanonical (text : String) : Bool := isSqueezed none text.toList

def canonicalize (text : String) : Journal String := do
  let result := canonical text
  .trace s!"normalized {text.utf8ByteSize} bytes of schema text into {result.utf8ByteSize} bytes"
  return result

end ShapeSchema
