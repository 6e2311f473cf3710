set_option autoImplicit false

/-!
# Journals

A computation that reports on itself returns its value together with the records it wrote and the
type names it looked up, in the order in which that happened. Sequencing two such
computations appends the entries of the second to those of the first.
-/

namespace ShapeSchema

inductive Level
  | trace
  | debug
  | warn
  deriving DecidableEq, Repr

structure Record where
  level : Level
  text : String
  deriving DecidableEq, Repr

inductive Entry
  | record (r : Record)
  | lookup (name : String)
  deriving DecidableEq, Repr

namespace Entry

def record? : Entry → Option Record
  | .record r => some r
  | .lookup _ => none

def lookup? : Entry → Option String
  | .lookup name => some name
  | .record _ => none

end Entry

/-- A value and what was reported on the way to it, oldest first. -/
structure Journal (α : Type) where
  value : α
  entries : List Entry

namespace Journal

variable {α β : Type}

instance : Monad Journal where
  pure a := ⟨a, []⟩
  bind m f := ⟨(f m.value).value, m.entries ++ (f m.value).entries⟩

@[simp]
theorem value_pure (a : α) : (pure a : Journal α).value = a := rfl

@[simp]
theorem entries_pure (a : α) : (pure a : Journal α).entries = [] := rfl

@[simp]
theorem value_bind (m : Journal α) (f : α → Journal β) : (m >>= f).value = (f m.value).value := rfl

@[simp]
theorem entries_bind (m : Journal α) (f : α → Journal β) :
    (m >>= f).entries = m.entries ++ (f m.value).entries := rfl

theorem ext {m n : Journal α} (value : m.value = n.value) (entries : m.entries = n.entries) :
    m = n := by
  cases m; cases n; simp_all

instance : LawfulMonad Journal := .mk' _
  (fun _ => ext rfl (by simp [Functor.map]))
  (fun _ _ => ext rfl (by simp))
  (fun _ _ _ => ext rfl (by simp))

def write (level : Level) (text : String) : Journal Unit := ⟨(), [.record ⟨level, text⟩]⟩

def trace (text : String) : Journal Unit := write .trace text

def debug (text : String) : Journal Unit := write .debug text

def warn (text : String) : Journal Unit := write .warn text

def ofRecords (records : List Record) (value : α) : Journal α := ⟨value, records.map .record⟩

def records (m : Journal α) : List Record := m.entries.filterMap Entry.record?

def lookups (m : Journal α) : List String := m.entries.filterMap Entry.lookup?

@[simp]
theorem records_bind (m : Journal α) (f : α → Journal β) :
    (m >>= f).records = m.records ++ (f m.value).records := by
  simp [records]

@[simp]
theorem lookups_bind (m : Journal α) (f : α → Journal β) :
    (m >>= f).lookups = m.lookups ++ (f m.value).lookups := by
  simp [lookups]

end Journal

end ShapeSchema
