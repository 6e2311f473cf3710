import Mathlib.Data.List.DropRight
import ShapeSchema.Bindings
import ShapeSchema.Proofs.CatalogHistories
import ShapeSchema.Proofs.EqualShapes
set_option autoImplicit false

namespace ShapeSchema

namespace Bindings

variable {H : Type}

inductive Call (H : Type)
  | insert (name : String) (handle : H)
  | extend (name : String) (handle : H)
  | remove (name : String)

namespace Call

def name : Call H → String
  | .insert name _ | .extend name _ | .remove name => name

def apply (b : Bindings H) : Call H → Bindings H
  | .insert name handle => (b.insert name handle).value.2
  | .extend name handle => (b.extend name handle).value.2
  | .remove name => (b.remove name).2

def removes (name : String) : Call H → Bool
  | .remove other => other = name
  | .insert _ _ | .extend _ _ => false

/-- The handle that the call gives the name, if it is about this name and the name is accepted. -/
def binds? (name : String) : Call H → Option H
  | .insert other handle | .extend other handle =>
    if other = name ∧ Usable name then some handle else none
  | .remove _ => none

end Call

def after (b : Bindings H) (calls : List (Call H)) : Bindings H := calls.foldl Call.apply b

def upToRemoval (name : String) (calls : List (Call H)) : List (Call H) :=
  calls.rdropWhile fun call => !call.removes name

/-- The calls behind the last removal of the name. -/
def sinceRemoval (name : String) (calls : List (Call H)) : List (Call H) :=
  calls.rtakeWhile fun call => !call.removes name

/-- The handles that the name was given after its last removal, the oldest first. -/
def given (name : String) (calls : List (Call H)) : List H :=
  (sinceRemoval name calls).filterMap (Call.binds? name)

/-- How many calls there are before the one that brought the name in, the first to bind it after its
    last removal. -/
def entry (name : String) (calls : List (Call H)) : Nat :=
  (upToRemoval name calls).length +
    (sinceRemoval name calls).findIdx fun call => (call.binds? name).isSome

inductive Call.Effect (b : Bindings H) (call : Call H) : Prop
  | bound {handle : H} (usable : Usable call.name)
      (binds : ∀ name, call.binds? name = if name = call.name then some handle else none)
      (removes : ∀ name, call.removes name = false)
      (behind : call.apply b = ⟨b.types.insert call.name handle⟩)
  | refused (unusable : ¬ Usable call.name) (binds : ∀ name, call.binds? name = none)
      (removes : ∀ name, call.removes name = false) (same : call.apply b = b)
  | removed (binds : ∀ name, call.binds? name = none)
      (removes : ∀ name, call.removes name = decide (name = call.name))
      (behind : call.apply b = (b.remove call.name).2)

variable {b : Bindings H} {calls : List (Call H)} {name : String}

theorem Call.effect_insert (b : Bindings H) (name : String) (handle : H) :
    (Call.insert name handle).Effect b := by
  cases checked : checkTypeName name with
  | error e =>
    have unusable := (refusesName_of_checkTypeName checked).1
    refine .refused unusable (fun other => if_neg ?_) (fun _ => rfl) ?_
    · rintro ⟨rfl, usable⟩
      exact unusable usable
    · rw [apply, value_insert, checked]
  | ok u =>
    have usable : Usable name := (checkTypeName_eq_ok_iff name).mp checked
    have binds (other : String) : (Call.insert name handle).binds? other =
        if other = name then some handle else none := by
      by_cases same : other = name
      · subst same
        exact (if_pos ⟨rfl, usable⟩).trans (if_pos rfl).symm
      · exact (if_neg fun both => same both.1.symm).trans (if_neg same).symm
    refine .bound usable binds (fun _ => rfl) ?_
    rw [apply, value_insert, checked]
    rfl

theorem Call.effect (b : Bindings H) (call : Call H) : call.Effect b := by
  cases call with
  | insert name handle => exact effect_insert b name handle
  | extend name handle =>
    cases effect_insert b name handle with
    | bound usable binds removes same => exact .bound usable binds removes same
    | refused unusable binds removes same => exact .refused unusable binds removes same
    | removed binds removes same => exact .removed binds removes same
  | remove name => exact .removed (fun _ => rfl) (fun _ => decide_eq_decide.mpr eq_comm) rfl

theorem Call.get?_apply (call : Call H) (b : Bindings H) (name : String) :
    (call.apply b).get? name =
      if call.removes name then none else (call.binds? name).or (b.get? name) := by
  cases call.effect b with
  | bound _ binds removes behind =>
    rw [behind, binds, removes, get?, OrderedMap.get?_insert]
    by_cases same : name = call.name
    · simp [same]
    · simp [same, get?]
  | refused _ binds removes same =>
    rw [same, binds, removes]
    rfl
  | removed binds removes behind =>
    rw [behind, binds, removes, Bindings.remove, get?, OrderedMap.get?_erase]
    by_cases same : name = call.name
    · simp [same]
    · simp [same, get?]

theorem Call.usable_of_binds? {call : Call H} {handle : H} (h : call.binds? name = some handle) :
    Usable name := by
  cases call with
  | insert other given | extend other given => exact (Option.ite_none_right_eq_some.mp h).1.2
  | remove other => cases h

theorem after_concat (b : Bindings H) (calls : List (Call H)) (call : Call H) :
    b.after (calls ++ [call]) = call.apply (b.after calls) := by
  rw [after, List.foldl_append]
  rfl

theorem given_concat (name : String) (calls : List (Call H)) (call : Call H) :
    given name (calls ++ [call]) =
      if call.removes name then [] else given name calls ++ (call.binds? name).toList := by
  rw [given, sinceRemoval, List.rtakeWhile_concat]
  cases call.removes name with
  | true => rfl
  | false =>
    rw [Bool.not_false, if_pos rfl, List.filterMap_append, if_neg Bool.false_ne_true]
    refine congrArg _ ?_
    cases h : call.binds? name <;> simp [h]

theorem get?_after (calls : List (Call H)) (name : String) :
    (empty.after calls).get? name = (given name calls).getLast? := by
  induction calls using List.reverseRecOn with
  | nil => rfl
  | append_singleton calls call ih =>
    rw [after_concat, Call.get?_apply, given_concat, ih]
    cases call.removes name with
    | true => rfl
    | false => cases call.binds? name <;> simp

theorem mem_names_after : name ∈ (empty.after calls).names ↔ given name calls ≠ [] := by
  have held : (empty.after calls).types.get? name = (given name calls).getLast? :=
    get?_after calls name
  rw [names, OrderedMap.mem_names_iff, OrderedMap.contains, held, List.getLast?_isSome]

theorem given_ne_nil_iff :
    given name calls ≠ [] ↔ ∃ call ∈ sinceRemoval name calls, (call.binds? name).isSome = true := by
  simp [given, List.filterMap_eq_nil_iff, Option.isSome_iff_ne_none]

theorem usable_of_given (h : given name calls ≠ []) : Usable name := by
  obtain ⟨call, -, bound⟩ := given_ne_nil_iff.mp h
  obtain ⟨handle, binds⟩ := Option.isSome_iff_exists.mp bound
  exact Call.usable_of_binds? binds

theorem length_sinceRemoval (name : String) (calls : List (Call H)) :
    (upToRemoval name calls).length + (sinceRemoval name calls).length = calls.length := by
  rw [upToRemoval, sinceRemoval, ← List.length_append, List.rdropWhile_append_rtakeWhile]

theorem findIdx_lt_iff : ((sinceRemoval name calls).findIdx fun call => (call.binds? name).isSome) <
    (sinceRemoval name calls).length ↔ given name calls ≠ [] := by
  rw [List.findIdx_lt_length, given_ne_nil_iff]

theorem entry_lt (h : given name calls ≠ []) : entry name calls < calls.length := by
  have inside := findIdx_lt_iff.mpr h
  have whole := length_sinceRemoval name calls
  rw [entry]
  omega

theorem entry_concat {call : Call H} (stays : call.removes name = false) :
    entry name (calls ++ [call]) = if given name calls ≠ [] then entry name calls
      else calls.length + [call].findIdx fun call => (call.binds? name).isSome := by
  have last : (!call.removes name) = true := by rw [stays, Bool.not_false]
  have whole := length_sinceRemoval name calls
  have front : upToRemoval name (calls ++ [call]) = upToRemoval name calls :=
    List.rdropWhile_concat_pos _ _ _ last
  have more : sinceRemoval name (calls ++ [call]) = sinceRemoval name calls ++ [call] :=
    List.rtakeWhile_concat_pos _ _ _ last
  rw [entry, front, more, List.findIdx_append]
  simp only [findIdx_lt_iff]
  split
  · rfl
  · omega

theorem entry_concat_of_given {call : Call H} (h : given name calls ≠ [])
    (stays : call.removes name = false) : entry name (calls ++ [call]) = entry name calls := by
  rw [entry_concat stays, if_pos h]

theorem entry_concat_of_fresh {call : Call H} {handle : H} (h : given name calls = [])
    (stays : call.removes name = false) (binds : call.binds? name = some handle) :
    entry name (calls ++ [call]) = calls.length := by
  rw [entry_concat stays, if_neg (not_not_intro h)]
  simp [binds]

theorem pairwise_entry_concat {call : Call H} {kept : List String}
    (ordered : (empty.after calls).names.Pairwise fun x y => entry x calls < entry y calls)
    (sub : kept.Sublist (empty.after calls).names)
    (stay : ∀ name ∈ kept, call.removes name = false) :
    kept.Pairwise fun x y => entry x (calls ++ [call]) < entry y (calls ++ [call]) := by
  refine (ordered.sublist sub).imp_of_mem fun {x y} hx hy h => ?_
  rwa [entry_concat_of_given (mem_names_after.mp (sub.subset hx)) (stay x hx),
    entry_concat_of_given (mem_names_after.mp (sub.subset hy)) (stay y hy)]

/-- The names stand in the order in which they came in. -/
theorem ordered_after (calls : List (Call H)) :
    (empty.after calls).names.Pairwise fun x y => entry x calls < entry y calls := by
  -- the last call is split off: it moves no name, and a new one comes behind all others
  induction calls using List.reverseRecOn with
  | nil => exact .nil
  | append_singleton calls call ih =>
    rw [after_concat]
    cases call.effect (empty.after calls) with
    | refused _ _ removes same =>
      rw [same]
      exact pairwise_entry_concat ih (.refl _) fun name _ => removes name
    | removed _ removes behind =>
      have rest : (call.apply (empty.after calls)).names =
          (empty.after calls).names.filter (· ≠ call.name) := by
        rw [behind]
        exact OrderedMap.names_erase _ _
      rw [rest]
      refine pairwise_entry_concat ih List.filter_sublist fun name hn => ?_
      rw [removes, decide_eq_false_iff_not]
      simpa using List.of_mem_filter hn
    | bound _ binds removes behind =>
      have old := pairwise_entry_concat ih (.refl _) fun name _ => removes name
      rw [behind, names, OrderedMap.names_insert]
      split
      · exact old
      · next absent =>
        have fresh : given call.name calls = [] := not_not.mp (mt mem_names_after.mpr absent)
        refine List.pairwise_append.mpr ⟨old, List.pairwise_singleton _ _, ?_⟩
        intro name hn last hl
        obtain rfl := List.mem_singleton.mp hl
        have before := mem_names_after.mp hn
        rw [entry_concat_of_given before (removes name),
          entry_concat_of_fresh fresh (removes _) (by rw [binds, if_pos rfl])]
        exact entry_lt before

/-- What bindings tell of the calls that led to them, and what the next calls do to them. -/
structure Remembers (calls : List (Call H)) (b : Bindings H) : Prop where
  nodup : b.names.Nodup
  usable : ∀ name ∈ b.names, Usable name
  mem_names_iff : ∀ name, name ∈ b.names ↔ given name calls ≠ []
  ordered : b.names.Pairwise fun x y => entry x calls < entry y calls
  get_eq : ∀ name, b.get? name = (given name calls).getLast?
  lookup_eq : ∀ name, b.environment.lookup name = (given name calls).getLast?
  /-- An accepted insertion answers the handle that it replaces. -/
  replaced : ∀ name handle, Usable name →
    (b.insert name handle).value.1 = .ok (given name calls).getLast?
  /-- A refused insertion leaves the bindings as they were. -/
  refused : ∀ name handle, ¬ Usable name →
    ∃ e, EnvironmentError.RefusesName e ∧ (b.insert name handle).value = (.error e, b)
  /-- The builder does what an insertion does. -/
  extended : ∀ name handle, (b.extend name handle).value =
    ((b.insert name handle).value.1.map fun _ => (), (b.insert name handle).value.2)
  removed : ∀ name, (b.remove name).1 = (given name calls).getLast?
  remaining : ∀ name, (b.remove name).2.names = b.names.filter (· ≠ name)
  resolved : ∀ name ∈ b.names, ∃ handle, (given name calls).getLast? = some handle ∧
    (b.environment.resolve name).value = .environment handle

theorem remembers_after (calls : List (Call H)) : Remembers calls (empty.after calls) := by
  refine ⟨(empty.after calls).types.nodup, fun name hn => usable_of_given (mem_names_after.mp hn),
    fun name => mem_names_after, ordered_after calls, get?_after calls, get?_after calls, ?_, ?_,
    fun _ _ => rfl, get?_after calls, fun name => OrderedMap.names_erase _ name, ?_⟩
  · intro name handle usable
    rw [value_insert, (checkTypeName_eq_ok_iff name).mpr usable, ← get?_after]
  · intro name handle unusable
    cases checked : checkTypeName name with
    | ok u => exact absurd ((checkTypeName_eq_ok_iff name).mp checked) unusable
    | error e =>
      exact ⟨e, (refusesName_of_checkTypeName checked).2, by rw [value_insert, checked]⟩
  · intro name hn
    have present := mem_names_after.mp hn
    have fresh : Scalar.ofName? name = none := by
      simpa [Scalar.isBuiltin] using (usable_of_given present).2
    obtain ⟨handle, last⟩ := Option.isSome_iff_exists.mp (List.getLast?_isSome.mpr present)
    have held : (empty.after calls).environment.lookup name = some handle :=
      (get?_after calls name).trans last
    have means := Environment.Means.entry (Scalar.name_ne_of_ofName? fresh) held
    exact ⟨handle, last, means.eq_resolve.symm⟩

example : (empty.after [.insert "A" 1, .extend "B" 2, .insert "A" 3, .remove "A", .insert "Int" 4,
    .insert "B" 5, .extend "A" 6, .insert "" 7]).types.entries = [("B", 5), ("A", 6)] := by
  decide +kernel

end Bindings

end ShapeSchema
