import ShapeSchema.Text.Position
set_option autoImplicit false

namespace ShapeSchema

structure Span where
  start : Position
  stop : Position
  deriving DecidableEq, Repr, Inhabited

structure ByteSpan where
  start : Nat
  stop : Nat
  deriving DecidableEq, Repr, Inhabited

/-- The characters behind the first `n` bytes; none when those end inside a character or behind the
    text. -/
def dropBytes? : Nat → List Char → Option (List Char)
  | 0, cs => some cs
  | _ + 1, [] => none
  | n + 1, c :: cs => if c.utf8Size ≤ n + 1 then dropBytes? (n + 1 - c.utf8Size) cs else none

def takeBytes? : Nat → List Char → Option (List Char)
  | 0, _ => some []
  | _ + 1, [] => none
  | n + 1, c :: cs =>
    if c.utf8Size ≤ n + 1 then (takeBytes? (n + 1 - c.utf8Size) cs).map (c :: ·) else none

namespace ByteSpan

/-- The largest offset that a syntax tree can hold, `2 ^ 32 - 1`. -/
def limit : Nat := 4294967295

def isEmpty (s : ByteSpan) : Bool := s.start == s.stop

/-- The number of bytes covered; none when the interval is reversed. -/
def length? (s : ByteSpan) : Option Nat :=
  if s.start ≤ s.stop then some (s.stop - s.start) else none

/-- The characters that the interval covers; none when it is reversed, leaves the text or cuts a
    character. -/
def cut? (s : ByteSpan) (cs : List Char) : Option (List Char) := do
  takeBytes? (← s.length?) (← dropBytes? s.start cs)

def slice? (s : ByteSpan) (text : String) : Option String :=
  (s.cut? text.toList).map String.ofList

end ByteSpan

namespace Span

def empty (p : Position) : Span := ⟨p, p⟩

def bytes? (s : Span) : Option ByteSpan :=
  if s.start.offset ≤ ByteSpan.limit ∧ s.stop.offset ≤ ByteSpan.limit then
    some ⟨s.start.offset, s.stop.offset⟩
  else none

/-- The byte offsets, each clamped to the limit. -/
def bytes (s : Span) : ByteSpan :=
  ⟨min s.start.offset ByteSpan.limit, min s.stop.offset ByteSpan.limit⟩

def Fits (s : Span) : Prop := s.start.offset ≤ ByteSpan.limit ∧ s.stop.offset ≤ ByteSpan.limit

instance (s : Span) : Decidable s.Fits := inferInstanceAs (Decidable (_ ∧ _))

def offsets (s : Span) : ByteSpan := ⟨s.start.offset, s.stop.offset⟩

theorem bytes?_eq_some {s : Span} {b : ByteSpan} : s.bytes? = some b ↔ s.Fits ∧ b = s.offsets := by
  unfold bytes? Fits offsets
  split
  · next fits => simp [fits, eq_comm]
  · next large => simp [large]

theorem bytes?_eq_none {s : Span} : s.bytes? = none ↔ ¬ s.Fits := by
  unfold bytes? Fits
  split
  · next fits => simp [fits]
  · next large => simp [large]

theorem bytes_eq_of_bytes? {s : Span} {b : ByteSpan} (h : s.bytes? = some b) : s.bytes = b := by
  simp only [bytes?] at h
  split at h
  · next fits =>
    cases h
    simp only [bytes, Nat.min_eq_left fits.1, Nat.min_eq_left fits.2]
  · cases h

end Span

theorem dropBytes?_byteCount (cs rest : List Char) :
    dropBytes? (byteCount cs) (cs ++ rest) = some rest := by
  induction cs with
  | nil => simp [byteCount, dropBytes?]
  | cons c cs ih =>
    have pos := c.utf8Size_pos
    obtain ⟨n, hn⟩ : ∃ n, byteCount (c :: cs) = n + 1 :=
      ⟨byteCount (c :: cs) - 1, by simp [byteCount]; omega⟩
    have sum : byteCount (c :: cs) = c.utf8Size + byteCount cs := by simp [byteCount]
    rw [hn, List.cons_append, dropBytes?, if_pos (by omega)]
    rw [show n + 1 - c.utf8Size = byteCount cs by omega, ih]

theorem takeBytes?_byteCount (cs rest : List Char) :
    takeBytes? (byteCount cs) (cs ++ rest) = some cs := by
  induction cs with
  | nil => simp [byteCount, takeBytes?]
  | cons c cs ih =>
    have pos := c.utf8Size_pos
    obtain ⟨n, hn⟩ : ∃ n, byteCount (c :: cs) = n + 1 :=
      ⟨byteCount (c :: cs) - 1, by simp [byteCount]; omega⟩
    have sum : byteCount (c :: cs) = c.utf8Size + byteCount cs := by simp [byteCount]
    rw [hn, List.cons_append, takeBytes?, if_pos (by omega)]
    rw [show n + 1 - c.utf8Size = byteCount cs by omega, ih, Option.map_some]

theorem cut?_byteCount (before cs rest : List Char) :
    ByteSpan.cut? ⟨byteCount before, byteCount before + byteCount cs⟩ (before ++ (cs ++ rest)) =
      some cs := by
  simp [ByteSpan.cut?, ByteSpan.length?, dropBytes?_byteCount, takeBytes?_byteCount]

end ShapeSchema
