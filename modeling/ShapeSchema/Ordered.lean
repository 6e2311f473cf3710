set_option autoImplicit false

/-!
# Insertion order

`OrderedMap` keeps one value for each of its names and lists the names in the order in which they
came in. A name that is inserted again keeps its place; one that was erased and comes back goes to
the end. Two maps are equal (`==`) when they hold the same names with equal values, in whatever
order. `distinct` does the same for plain lists of names.
-/

namespace ShapeSchema

/-- The members of a list in the order of their first occurrence. -/
def distinct (names : List String) : List String :=
  names.foldl (fun seen name => if name ∈ seen then seen else seen ++ [name]) []

theorem nodup_distinctFrom (names seen : List String) (h : seen.Nodup) :
    (names.foldl (fun seen name => if name ∈ seen then seen else seen ++ [name]) seen).Nodup := by
  induction names generalizing seen with
  | nil => exact h
  | cons name names ih =>
    apply ih
    dsimp only
    split
    · exact h
    · next hn => simpa [List.nodup_append, h] using fun a ha (e : a = name) => hn (e ▸ ha)

theorem nodup_distinct (names : List String) : (distinct names).Nodup :=
  nodup_distinctFrom names [] .nil

theorem distinctFrom_eq (names seen : List String) :
    names.foldl (fun seen name => if name ∈ seen then seen else seen ++ [name]) seen =
      seen ++ (names.filter (· ∉ seen)).eraseDups := by
  induction names generalizing seen with
  | nil => simp
  | cons name names ih =>
    rw [List.foldl_cons, ih]
    by_cases h : name ∈ seen
    · simp [h]
    · have later : names.filter (· ∉ seen ++ [name]) =
          (names.filter (· ∉ seen)).filter fun other => !other == name := by
        rw [List.filter_filter]
        refine List.filter_congr fun other _ => ?_
        by_cases ho : other = name <;> simp [ho]
      rw [if_neg h, later, List.filter_cons_of_pos (by simpa using h), List.eraseDups_cons,
        List.append_assoc]
      rfl

theorem distinct_eq_eraseDups (names : List String) : distinct names = names.eraseDups := by
  rw [distinct, distinctFrom_eq, List.nil_append, List.filter_eq_self.mpr (by simp)]

theorem distinct_of_nodup {names : List String} (nodup : names.Nodup) : distinct names = names := by
  rw [distinct_eq_eraseDups]
  induction names with
  | nil => rfl
  | cons name names ih =>
    obtain ⟨fresh, nodup⟩ := List.nodup_cons.mp nodup
    have untouched : names.filter (fun other => !other == name) = names :=
      List.filter_eq_self.mpr fun other hother => by
        simpa using fun h : other = name => fresh (h ▸ hother)
    rw [List.eraseDups_cons, untouched, ih nodup]

def lookupIn {α : Type} (name : String) : List (String × α) → Option α
  | [] => none
  | (key, value) :: rest => if key = name then some value else lookupIn name rest

/-- Of several entries with one name the last counts. -/
def lastNamed {α : Type} (name : String) (entries : List (String × α)) : Option α :=
  (entries.filter (·.1 = name)).getLast?.map Prod.snd

theorem lastNamed_map {α β : Type} (f : α → β) (name : String) (entries : List (String × α)) :
    lastNamed name (entries.map fun entry => (entry.1, f entry.2)) =
      (lastNamed name entries).map f := by
  rw [lastNamed, List.filter_map, List.getLast?_map, Option.map_map, lastNamed, Option.map_map]
  rfl

theorem lastNamed_cons {α : Type} (name : String) (entry : String × α)
    (rest : List (String × α)) : lastNamed name (entry :: rest) =
      (lastNamed name rest).or (if entry.1 = name then some entry.2 else none) := by
  unfold lastNamed
  by_cases h : entry.1 = name
  · rw [if_pos h, List.filter_cons_of_pos (by simpa using h), ← List.singleton_append,
      List.getLast?_append, Option.map_or]
    rfl
  · rw [if_neg h, List.filter_cons_of_neg (by simpa using h), Option.or_none]

/-- Replaces the value of a name, or adds the name at the end. -/
def insertIn {α : Type} (name : String) (value : α) : List (String × α) → List (String × α)
  | [] => [(name, value)]
  | (key, old) :: rest =>
    if key = name then (key, value) :: rest else (key, old) :: insertIn name value rest

theorem map_fst_insertIn {α : Type} (name : String) (value : α) (entries : List (String × α)) :
    (insertIn name value entries).map Prod.fst =
      if name ∈ entries.map Prod.fst then entries.map Prod.fst
      else entries.map Prod.fst ++ [name] := by
  induction entries with
  | nil => rfl
  | cons entry rest ih =>
    obtain ⟨key, old⟩ := entry
    by_cases h : key = name
    · simp [insertIn, h]
    · simp only [insertIn, h, if_false, List.map_cons, ih, List.mem_cons, Ne.symm h, false_or]
      split <;> rfl

theorem lookupIn_insertIn {α : Type} (name other : String) (value : α)
    (entries : List (String × α)) :
    lookupIn other (insertIn name value entries) =
      if other = name then some value else lookupIn other entries := by
  induction entries with
  | nil => simp [insertIn, lookupIn, eq_comm]
  | cons entry rest ih =>
    obtain ⟨key, old⟩ := entry
    by_cases h : key = name
    · subst h
      by_cases ho : other = key
      · subst ho; simp [insertIn, lookupIn]
      · simp [insertIn, lookupIn, ho, Ne.symm ho]
    · by_cases ho : key = other
      · subst ho; simp [insertIn, lookupIn, h]
      · simp [insertIn, lookupIn, h, ho, ih]

theorem insertIn_eq_append {α : Type} {name : String} (value : α) {entries : List (String × α)}
    (fresh : name ∉ entries.map Prod.fst) :
    insertIn name value entries = entries ++ [(name, value)] := by
  induction entries with
  | nil => rfl
  | cons entry rest ih =>
    obtain ⟨key, old⟩ := entry
    obtain ⟨apart, fresh⟩ := List.ne_and_not_mem_of_not_mem_cons fresh
    rw [insertIn, if_neg (Ne.symm apart), ih fresh, List.cons_append]

theorem insertIn_insertIn {α : Type} (name : String) (value old : α)
    (entries : List (String × α)) :
    insertIn name value (insertIn name old entries) = insertIn name value entries := by
  induction entries with
  | nil => simp [insertIn]
  | cons entry rest ih =>
    obtain ⟨key, first⟩ := entry
    by_cases h : key = name
    · simp [insertIn, h]
    · simp [insertIn, h, ih]

def writeIn {α : Type} (name : String) (value : α) : List (String × α) → List (String × α)
  | [] => []
  | (key, old) :: rest =>
    if key = name then (key, value) :: rest else (key, old) :: writeIn name value rest

theorem map_fst_writeIn {α : Type} (name : String) (value : α) (entries : List (String × α)) :
    (writeIn name value entries).map Prod.fst = entries.map Prod.fst := by
  induction entries with
  | nil => rfl
  | cons entry rest ih =>
    obtain ⟨key, old⟩ := entry
    by_cases h : key = name
    · simp [writeIn, h]
    · simp [writeIn, h, ih]

theorem writeIn_eq_insertIn {α : Type} {name : String} (value : α) {entries : List (String × α)}
    (placed : name ∈ entries.map Prod.fst) :
    writeIn name value entries = insertIn name value entries := by
  induction entries with
  | nil => cases placed
  | cons entry rest ih =>
    obtain ⟨key, old⟩ := entry
    by_cases h : key = name
    · simp [writeIn, insertIn, h]
    · have placed : name ∈ rest.map Prod.fst := by simpa [Ne.symm h] using placed
      simp [writeIn, insertIn, h, ih placed]

/-- Two names of which one has its place already can be inserted in either order. -/
theorem insertIn_comm {α : Type} {name other : String} (value more : α)
    {entries : List (String × α)} (apart : name ≠ other) (placed : name ∈ entries.map Prod.fst) :
    insertIn other more (insertIn name value entries) =
      insertIn name value (insertIn other more entries) := by
  induction entries with
  | nil => cases placed
  | cons entry rest ih =>
    obtain ⟨key, old⟩ := entry
    by_cases h : key = name
    · subst h
      simp [insertIn, apart]
    · have placed : name ∈ rest.map Prod.fst := by simpa [Ne.symm h] using placed
      by_cases ho : key = other
      · subst ho
        simp [insertIn, h]
      · simp [insertIn, h, ho, ih placed]

theorem lookupIn_eq_some_iff {α : Type} {name : String} {value : α} {entries : List (String × α)}
    (nodup : (entries.map Prod.fst).Nodup) :
    lookupIn name entries = some value ↔ (name, value) ∈ entries := by
  induction entries with
  | nil => simp [lookupIn]
  | cons entry rest ih =>
    obtain ⟨key, old⟩ := entry
    obtain ⟨fresh, nodup⟩ := List.nodup_cons.mp nodup
    by_cases h : key = name
    · subst h
      have absent : (key, value) ∉ rest := fun hr => fresh (List.mem_map.mpr ⟨_, hr, rfl⟩)
      simp [lookupIn, absent, eq_comm]
    · simp [lookupIn, h, ih nodup, Ne.symm h]

theorem lookupIn_filter {α : Type} (name other : String) (entries : List (String × α)) :
    lookupIn other (entries.filter fun entry => entry.1 ≠ name) =
      if other = name then none else lookupIn other entries := by
  induction entries with
  | nil => simp [lookupIn]
  | cons entry rest ih =>
    obtain ⟨key, old⟩ := entry
    by_cases h : key = name
    · subst h
      rw [List.filter_cons_of_neg (by simp), ih]
      by_cases ho : other = key
      · rw [if_pos ho, if_pos ho]
      · rw [if_neg ho, if_neg ho, lookupIn, if_neg (Ne.symm ho)]
    · rw [List.filter_cons_of_pos (by simpa using h), lookupIn, ih, lookupIn]
      by_cases ho : key = other
      · subst ho
        rw [if_pos rfl, if_pos rfl, if_neg h]
      · rw [if_neg ho, if_neg ho]

/-- A map from names to values that remembers the order of its names. -/
structure OrderedMap (α : Type) where
  entries : List (String × α)
  nodup : (entries.map Prod.fst).Nodup

namespace OrderedMap

variable {α : Type}

def empty : OrderedMap α := ⟨[], .nil⟩

def names (m : OrderedMap α) : List String := m.entries.map Prod.fst

def values (m : OrderedMap α) : List α := m.entries.map Prod.snd

def size (m : OrderedMap α) : Nat := m.entries.length

def isEmpty (m : OrderedMap α) : Bool := m.entries.isEmpty

def get? (m : OrderedMap α) (name : String) : Option α := lookupIn name m.entries

def contains (m : OrderedMap α) (name : String) : Bool := (m.get? name).isSome

/-- Binds the name to the value: in its place if it has one, else at the end. -/
def insert (m : OrderedMap α) (name : String) (value : α) : OrderedMap α where
  entries := insertIn name value m.entries
  nodup := by
    rw [map_fst_insertIn]
    split
    · exact m.nodup
    · next h =>
      simpa [List.nodup_append, m.nodup] using fun key value hkey (e : key = name) =>
        h (e ▸ List.mem_map.mpr ⟨(key, value), hkey, rfl⟩)

def exchange (m : OrderedMap α) (name : String) (value : α) : Option α × OrderedMap α :=
  (m.get? name, m.insert name value)

/-- The slot of a name: what it holds, and the map with it. A new name gets the default at the
    end. -/
def slot (m : OrderedMap α) (name : String) (default : α) : α × OrderedMap α :=
  match m.get? name with
  | some held => (held, m)
  | none => (default, m.insert name default)

/-- Puts a value into the slot of a name; a map without the name stays as it is. -/
def write (m : OrderedMap α) (name : String) (value : α) : OrderedMap α where
  entries := writeIn name value m.entries
  nodup := by
    rw [map_fst_writeIn]
    exact m.nodup

def erase (m : OrderedMap α) (name : String) : OrderedMap α where
  entries := m.entries.filter fun entry => entry.1 ≠ name
  nodup := m.nodup.sublist (List.filter_sublist.map _)

def ofList (entries : List (String × α)) : OrderedMap α :=
  entries.foldl (fun m entry => m.insert entry.1 entry.2) empty

/-- Equality up to the order of the names. -/
def beq [BEq α] (m n : OrderedMap α) : Bool :=
  m.size == n.size && m.entries.all fun (name, value) => n.get? name == some value

instance [BEq α] : BEq (OrderedMap α) := ⟨beq⟩

theorem names_insert (m : OrderedMap α) (name : String) (value : α) :
    (m.insert name value).names = if name ∈ m.names then m.names else m.names ++ [name] :=
  map_fst_insertIn name value m.entries

theorem get?_insert (m : OrderedMap α) (name other : String) (value : α) :
    (m.insert name value).get? other = if other = name then some value else m.get? other :=
  lookupIn_insertIn name other value m.entries

theorem get?_eq_some_iff (m : OrderedMap α) {name : String} {value : α} :
    m.get? name = some value ↔ (name, value) ∈ m.entries :=
  lookupIn_eq_some_iff m.nodup

theorem mem_names_iff (m : OrderedMap α) {name : String} :
    name ∈ m.names ↔ m.contains name = true := by
  simp only [contains, Option.isSome_iff_exists, get?_eq_some_iff, names, List.mem_map]
  exact ⟨fun ⟨(_, value), hm, h⟩ => ⟨value, h ▸ hm⟩, fun ⟨value, hm⟩ => ⟨_, hm, rfl⟩⟩

theorem ext {m n : OrderedMap α} (h : m.entries = n.entries) : m = n := by
  cases m
  cases n
  cases h
  rfl

theorem entries_insert_of_fresh (m : OrderedMap α) {name : String} (value : α)
    (fresh : m.contains name = false) :
    (m.insert name value).entries = m.entries ++ [(name, value)] :=
  insertIn_eq_append value fun hm => by simp [m.mem_names_iff.mp hm] at fresh

theorem entries_foldl_insert (entries : List (String × α)) (m : OrderedMap α)
    (nodup : ((m.entries ++ entries).map Prod.fst).Nodup) :
    (entries.foldl (fun m entry => m.insert entry.1 entry.2) m).entries = m.entries ++ entries := by
  induction entries generalizing m with
  | nil => simp
  | cons entry rest ih =>
    have fresh : entry.1 ∉ m.entries.map Prod.fst := by
      rw [List.map_append, List.map_cons] at nodup
      exact fun hm => (List.nodup_append.mp nodup).2.2 _ hm _ List.mem_cons_self rfl
    have added : (m.insert entry.1 entry.2).entries = m.entries ++ [entry] :=
      insertIn_eq_append entry.2 fresh
    have split : m.entries ++ entry :: rest = (m.insert entry.1 entry.2).entries ++ rest := by
      rw [added, List.append_assoc, List.singleton_append]
    rw [split] at nodup
    rw [List.foldl_cons, ih _ nodup, ← split]

theorem ofList_entries (m : OrderedMap α) : ofList m.entries = m :=
  ext (entries_foldl_insert m.entries empty m.nodup)

theorem names_ofList (entries : List (String × α)) :
    (ofList entries).names = (entries.map Prod.fst).eraseDups := by
  have folded (m : OrderedMap α) :
      (entries.foldl (fun m entry => m.insert entry.1 entry.2) m).names =
        (entries.map Prod.fst).foldl
          (fun seen name => if name ∈ seen then seen else seen ++ [name]) m.names := by
    induction entries generalizing m with
    | nil => rfl
    | cons entry rest ih => rw [List.foldl_cons, ih, names_insert, List.map_cons, List.foldl_cons]
  rw [ofList, folded, ← distinct_eq_eraseDups]
  rfl

theorem get?_ofList (entries : List (String × α)) (name : String) :
    (ofList entries).get? name = lastNamed name entries := by
  have folded (m : OrderedMap α) :
      (entries.foldl (fun m entry => m.insert entry.1 entry.2) m).get? name =
        (lastNamed name entries).or (m.get? name) := by
    induction entries generalizing m with
    | nil => rfl
    | cons entry rest ih =>
      rw [List.foldl_cons, ih, get?_insert, lastNamed_cons, Option.or_assoc]
      by_cases h : entry.1 = name
      · rw [if_pos h, if_pos h.symm, Option.some_or]
      · rw [if_neg h, if_neg (Ne.symm h), Option.none_or]
  rw [ofList, folded]
  exact Option.or_none

theorem insert_insert (m : OrderedMap α) (name : String) (value old : α) :
    (m.insert name old).insert name value = m.insert name value :=
  ext (insertIn_insertIn name value old m.entries)

theorem insert_comm (m : OrderedMap α) {name other : String} (value more : α)
    (apart : name ≠ other) (placed : m.contains name = true) :
    (m.insert name value).insert other more = (m.insert other more).insert name value :=
  ext (insertIn_comm value more apart (m.mem_names_iff.mpr placed))

theorem contains_insert (m : OrderedMap α) (name other : String) (value : α) :
    (m.insert name value).contains other = (decide (other = name) || m.contains other) := by
  unfold contains
  rw [get?_insert]
  by_cases h : other = name <;> simp [h]

theorem write_eq_insert (m : OrderedMap α) {name : String} (value : α)
    (placed : m.contains name = true) : m.write name value = m.insert name value :=
  ext (writeIn_eq_insertIn value (m.mem_names_iff.mpr placed))

theorem slot_fst (m : OrderedMap α) (name : String) (default : α) :
    (m.slot name default).1 = (m.get? name).getD default := by
  unfold slot
  cases m.get? name <;> rfl

/-- To write to the slot of a name is to bind the name, whether it has a slot yet or not. -/
theorem write_slot (m : OrderedMap α) (name : String) (default value : α) :
    (m.slot name default).2.write name value = m.insert name value := by
  unfold slot
  cases held : m.get? name with
  | some old => exact m.write_eq_insert value (by rw [contains, held, Option.isSome_some])
  | none =>
    have placed : (m.insert name default).contains name = true := by simp [contains_insert]
    rw [write_eq_insert _ value placed, insert_insert]

theorem get?_erase (m : OrderedMap α) (name other : String) :
    (m.erase name).get? other = if other = name then none else m.get? other :=
  lookupIn_filter name other m.entries

theorem names_erase (m : OrderedMap α) (name : String) :
    (m.erase name).names = m.names.filter (· ≠ name) := by
  simp only [erase, names, List.filter_map]
  rfl

end OrderedMap

end ShapeSchema
