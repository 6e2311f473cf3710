import ShapeSchema.Token
set_option autoImplicit false

namespace ShapeSchema

structure TokenStream where
  buffer : List Token
  source : List Token
  deriving DecidableEq, Repr

namespace TokenStream

def ofList (tokens : List Token) : TokenStream := ⟨[], tokens⟩

def toList (s : TokenStream) : List Token := s.buffer ++ s.source

/-- Buffers at least `n` tokens, as far as there are so many. -/
def fill (s : TokenStream) (n : Nat) : TokenStream :=
  let missing := n - s.buffer.length
  ⟨s.buffer ++ s.source.take missing, s.source.drop missing⟩

/-- The token behind the next `n`. The places are counted in machine words, and behind the last of
    them comes 0 again. -/
def peekNth (n : UInt64) (s : TokenStream) : Option Token × TokenStream :=
  let filled := s.fill (n + 1).toNat
  (filled.buffer[n.toNat]?, filled)

def peek (s : TokenStream) : Option Token × TokenStream := s.peekNth 0

def consume (s : TokenStream) : Option Token × TokenStream :=
  let filled := s.fill 1
  (filled.buffer.head?, ⟨filled.buffer.tail, filled.source⟩)

def atEnd (s : TokenStream) : Bool × TokenStream :=
  let (next, filled) := s.peek
  (next.all fun t => t.kind = .endOfInput, filled)

@[simp]
theorem toList_fill (s : TokenStream) (n : Nat) : (s.fill n).toList = s.toList := by
  simp [fill, toList]

theorem consume_eq_head? (s : TokenStream) : s.consume.1 = s.toList.head? := by
  rcases s with ⟨_ | ⟨t, buffer⟩, _ | ⟨u, source⟩⟩ <;> simp [consume, fill, toList]

end TokenStream

end ShapeSchema
