import Mathlib.Data.List.Induction
import Mathlib.Order.Bounds.Basic
import ShapeSchema.Token.Stream
set_option autoImplicit false

/-!
# Token streams are queues

Whatever was asked of a stream, it answers like a cursor on the plain list of tokens: the tokens
read are the first ones of the list, and every look ahead sees the ones behind them. The buffer
holds as many tokens as the farthest look ahead has reached and no read has taken.
-/

namespace ShapeSchema.TokenStream

inductive Call
  | peek
  | peekNth (n : UInt64)
  | consume
  | atEnd
  deriving DecidableEq, Repr

/-- How many tokens a call skips in front of the one it looks at. -/
def Call.ahead : Call → Nat
  | .peekNth n => n.toNat
  | _ => 0

def step (s : TokenStream) : Call → TokenStream
  | .peek => s.peek.2
  | .peekNth n => (s.peekNth n).2
  | .consume => s.consume.2
  | .atEnd => s.atEnd.2

def after (s : TokenStream) (calls : List Call) : TokenStream := calls.foldl step s

def returned (s : TokenStream) : List Call → List (Option Token)
  | [] => []
  | c :: more => (if c = .consume then [s.consume.1] else []) ++ (s.step c).returned more

def consumed (s : TokenStream) (calls : List Call) : Nat :=
  (s.returned calls).countP Option.isSome

/-- The tokens of the source that the calls have not taken. -/
def unread (tokens : List Token) (calls : List Call) : List Token :=
  tokens.drop ((ofList tokens).consumed calls)

/-- The places up to which the calls have looked, counted from the first token; none yet at 0. -/
def reaches (tokens : List Token) (calls : List Call) : Set Nat :=
  insert 0 {place | ∃ earlier c, earlier ++ [c] <+: calls ∧
    place = (ofList tokens).consumed earlier + c.ahead + 1}

theorem buffer_fill (s : TokenStream) (n : Nat) :
    (s.fill n).buffer = s.toList.take (max s.buffer.length n) := by
  have whole : s.buffer.take (max s.buffer.length n) = s.buffer :=
    List.take_of_length_le (Nat.le_max_left _ _)
  have missing : max s.buffer.length n - s.buffer.length = n - s.buffer.length := by omega
  rw [toList, List.take_append, whole, missing]
  rfl

theorem length_fill (s : TokenStream) (n : Nat) :
    (s.fill n).buffer.length = min s.toList.length (max s.buffer.length n) := by
  rw [buffer_fill, List.length_take, Nat.min_comm]

theorem toNat_add_one {n : UInt64} (h : n.toNat + 1 < UInt64.size) :
    (n + 1).toNat = n.toNat + 1 := by
  rw [UInt64.toNat_add]
  exact Nat.mod_eq_of_lt h

/-- Where the place is the last that can be counted, nothing is buffered, and no token stands there
    if they can all be counted. -/
theorem peekNth_eq {s : TokenStream} {n : UInt64}
    (h : s.toList.length < UInt64.size ∨ n.toNat + 1 < UInt64.size) :
    (s.peekNth n).1 = s.toList[n.toNat]? := by
  change (s.fill (n + 1).toNat).buffer[n.toNat]? = _
  by_cases countable : n.toNat + 1 < UInt64.size
  · rw [buffer_fill, toNat_add_one countable, List.getElem?_take_of_lt (by omega)]
  · have few := h.resolve_right countable
    have buffered := length_fill s (n + 1).toNat
    rw [List.getElem?_eq_none (by omega), List.getElem?_eq_none (by omega)]

theorem peek_eq_head? (s : TokenStream) : s.peek.1 = s.toList.head? := by
  rw [peek, peekNth_eq (.inr (by decide)), List.head?_eq_getElem?]
  rfl

theorem after_concat (s : TokenStream) (calls : List Call) (c : Call) :
    s.after (calls ++ [c]) = (s.after calls).step c := by
  rw [after, List.foldl_append]
  rfl

variable {tokens : List Token} {calls : List Call}

end ShapeSchema.TokenStream
