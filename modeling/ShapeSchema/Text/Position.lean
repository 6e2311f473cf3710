set_option autoImplicit false

/-!
# Positions in a text

A position counts lines, characters of the line, UTF-16 units of the line and bytes of the whole
text, all from zero. A line feed, a carriage return, and a carriage return directly followed by a
line feed each end one line.
-/

namespace ShapeSchema

structure Position where
  line : Nat
  column : Nat
  column16 : Nat
  offset : Nat
  deriving DecidableEq, Repr, Inhabited

/-- The number of UTF-16 units that encode `c`: two outside the basic plane. -/
def units16 (c : Char) : Nat := if c.toNat < 0x10000 then 1 else 2

def byteCount : List Char → Nat
  | [] => 0
  | c :: cs => c.utf8Size + byteCount cs

namespace Position

def start : Position := ⟨0, 0, 0, 0⟩

def nextLine (p : Position) (bytes : Nat) : Position := ⟨p.line + 1, 0, 0, p.offset + bytes⟩

def after (p : Position) (c : Char) : Position :=
  if c = '\n' ∨ c = '\r' then p.nextLine c.utf8Size
  else ⟨p.line, p.column + 1, p.column16 + units16 c, p.offset + c.utf8Size⟩

/-- The position behind a run of characters that starts at `p`. -/
def through (p : Position) : List Char → Position
  | [] => p
  | '\r' :: '\n' :: rest => (p.nextLine 2).through rest
  | c :: rest => (p.after c).through rest

theorem offset_through (p : Position) (cs : List Char) :
    (p.through cs).offset = p.offset + byteCount cs := by
  fun_induction through p cs with
  | case1 => simp [byteCount]
  | case2 p rest ih =>
    have : Char.utf8Size '\r' = 1 ∧ Char.utf8Size '\n' = 1 := by decide
    rw [ih]
    simp [nextLine, byteCount, this]
    omega
  | case3 p c rest _ ih =>
    rw [ih]
    simp only [after, byteCount]
    split <;> simp [nextLine] <;> omega

end Position

end ShapeSchema
