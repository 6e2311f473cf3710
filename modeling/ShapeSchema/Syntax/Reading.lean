import ShapeSchema.Syntax.Grammar
import ShapeSchema.Token.Lexer
set_option autoImplicit false

/-!
# Reading schema text

`Block.ofTokens?` reads a given token list, `Block.ofText?` the tokens of a text. Tokens are lexed
when reading gets to them, so the journal of a text has each of its names where it was first looked
at, between the notices of the grammar.
-/

namespace ShapeSchema

def Token.nameRecord? (t : Token) : Option Record :=
  t.kind.name?.map fun n => ⟨.trace, s!"lexed name `{n}` at byte {t.span.start.offset}"⟩

/-- The names and the notices in the order of their records; the last `unread` tokens were never
    looked at. -/
def weave (tokens : List Token) : List Notice → Nat → List Record
  | [], unread => (tokens.take (tokens.length - unread)).filterMap Token.nameRecord?
  | notice :: more, unread =>
    let seen := tokens.length - notice.unread
    (tokens.take seen).filterMap Token.nameRecord? ++
      notice.record :: weave (tokens.drop seen) more unread

namespace Syntax.Block

def readTokens (tokens : List Token) : Except ParseError (Block ByteSpan) × List Notice :=
  match Parse.block (.ofTokens tokens) with
  | .ok block s => (.ok block, s.notices.reverse)
  | .error e s => (.error e, s.notices.reverse)

def ofTokens? (tokens : List Token) : Journal (Except ParseError (Block ByteSpan)) :=
  let (outcome, notices) := readTokens tokens
  .ofRecords (notices.map (·.record)) outcome

/-- How many tokens a failed reading has not looked at: an error is found at the last token looked
    at, so these are the ones behind the span of the error. -/
def unreadAt (tokens : List Token) (e : ParseError) : Nat :=
  (tokens.dropWhile fun t => decide (t.span.start.offset < e.span.stop.offset)).length

def ofText? (text : String) : Journal (Except ParseError (Block ByteSpan)) :=
  let tokens := Token.ofText text
  let (outcome, notices) := readTokens tokens
  let unread := match outcome with
    | .ok _ => 0
    | .error e => unreadAt tokens e
  .ofRecords (weave tokens notices unread) outcome

theorem value_ofText? (text : String) :
    (ofText? text).value = (ofTokens? (Token.ofText text)).value := rfl

end Syntax.Block

end ShapeSchema
