import ShapeSchema.Proofs.CatalogOperations
set_option autoImplicit false

/-!
# What runs of operations leave behind

A catalog that starts empty remembers of its operations the usable names, where each came first, and
for every name the shape that the last successful definition gave it. So the state behind a run can
be read off the run. A refused name leaves no trace, a refused text no more than its name.
-/

namespace ShapeSchema

def EnvironmentError.RefusesName : EnvironmentError → Prop
  | .builtinScalar _ | .invalidName _ => True
  | .schema _ => False

/-- A name that a text can write and that no built-in scalar has. -/
def Usable (name : String) : Prop := isValidName name = true ∧ Scalar.isBuiltin name = false

instance (name : String) : Decidable (Usable name) := inferInstanceAs (Decidable (_ ∧ _))

theorem refusesName_of_checkTypeName {name : String} {e : EnvironmentError}
    (h : checkTypeName name = .error e) : ¬ Usable name ∧ e.RefusesName := by
  refine ⟨fun usable => ?_, ?_⟩
  · rw [(checkTypeName_eq_ok_iff name).mpr usable] at h
    cases h
  · unfold checkTypeName at h
    split at h
    · cases h
      trivial
    · split at h
      · cases h
        trivial
      · cases h

namespace Catalog

namespace Operation

def name : Operation → String
  | .declare name | .define name _ | .parseAndDefine name _ => name

def error? (c : Catalog) (op : Operation) : Option EnvironmentError :=
  match op with
  | .declare name => failure? (c.declare name).value.1
  | .define name shape => failure? (c.define name shape).value.1
  | .parseAndDefine name text => failure? (c.parseAndDefine name text).value.1
where
  failure? {α : Type} : Except EnvironmentError α → Option EnvironmentError
    | .error e => some e
    | .ok _ => none

/-- The shape that the operation gives its name if the name is usable. A text gives what it is read
    as where the name is declared already, if it is read at all. -/
def offer? (c : Catalog) : Operation → Option (Shape Reference)
  | .declare _ => none
  | .define _ shape => some shape
  | .parseAndDefine name text => (Shape.ofText? (c.withName name).environment text).value.toOption

def given? (c : Catalog) (op : Operation) : Option (Shape Reference) :=
  if Usable op.name then op.offer? c else none

inductive Effect (c : Catalog) (op : Operation) : Prop
  | refused {e} (unusable : ¬ Usable op.name) (answer : op.error? c = some e)
      (about : e.RefusesName) (nothing : op.given? c = none) (same : op.apply c = c)
  | named (usable : Usable op.name) (answer : ∀ e ∈ op.error? c, ¬ e.RefusesName)
      (nothing : op.given? c = none) (behind : op.apply c = c.withName op.name)
  | defined {shape} (usable : Usable op.name) (answer : op.error? c = none)
      (gives : op.given? c = some shape) (behind : op.apply c = c.withShape op.name shape)

end Operation

variable {c : Catalog}

theorem withShape_withName (name : String) (shape : Shape Reference) :
    (c.withName name).withShape name shape = c.withShape name shape := by
  unfold withName
  split
  · rfl
  · rw [withShape, OrderedMap.insert_insert]
    rfl

theorem Operation.refused_of_checkTypeName {op : Operation} {e : EnvironmentError}
    (h : checkTypeName op.name = .error e) : op.error? c = some e ∧ op.apply c = c := by
  cases op with
  | declare name =>
    have answer : (c.declare name).value = (.error e, c) := by
      rw [value_declare, show checkTypeName name = .error e from h]
    exact ⟨by rw [error?, answer]; rfl, by rw [apply, answer]⟩
  | define name shape =>
    have answer : (c.define name shape).value = (.error e, c) := by
      rw [value_define, show checkTypeName name = .error e from h]
    exact ⟨by rw [error?, answer]; rfl, by rw [apply, answer]⟩
  | parseAndDefine name text =>
    have answer : (c.parseAndDefine name text).value = (.error e, c) := by
      rw [value_parseAndDefine, show checkTypeName name = .error e from h]
    exact ⟨by rw [error?, answer]; rfl, by rw [apply, answer]⟩

theorem Operation.effect (c : Catalog) (op : Operation) : op.Effect c := by
  cases hn : checkTypeName op.name with
  | error e =>
    obtain ⟨unusable, about⟩ := refusesName_of_checkTypeName hn
    obtain ⟨answer, same⟩ := refused_of_checkTypeName hn
    exact .refused unusable answer about (if_neg unusable) same
  | ok u =>
    have usable : Usable op.name := (checkTypeName_eq_ok_iff _).mp hn
    have gives : op.given? c = op.offer? c := if_pos usable
    cases op with
    | declare name =>
      have answer : (c.declare name).value = (.ok ⟨name⟩, c.withName name) := by
        rw [value_declare, show checkTypeName name = .ok u from hn]
      refine .named usable ?_ gives (by rw [apply, answer]; rfl)
      rw [error?, answer]
      simp [error?.failure?]
    | define name shape =>
      have answer : (c.define name shape).value = (.ok (c.get? name), c.withShape name shape) := by
        rw [value_define, show checkTypeName name = .ok u from hn]
      exact .defined usable (by rw [error?, answer]; rfl) gives (by rw [apply, answer]; rfl)
    | parseAndDefine name text =>
      have answer := value_parseAndDefine c name text
      rw [show checkTypeName name = .ok u from hn] at answer
      dsimp only at answer
      cases hs : (Shape.ofText? (c.withName name).environment text).value with
      | error e =>
        rw [hs] at answer
        refine .named usable ?_ (by rw [gives, offer?, hs]; rfl) (by rw [apply, answer]; rfl)
        rw [error?, answer]
        simp [error?.failure?, EnvironmentError.RefusesName]
      | ok shape =>
        rw [hs] at answer
        refine .defined usable (by rw [error?, answer]; rfl) (by rw [gives, offer?, hs]; rfl) ?_
        rw [apply, answer]
        exact withShape_withName name shape

theorem entries_withName (name : String) : (c.withName name).types.entries =
    c.types.entries ++ if c.isDeclared name then [] else [(name, none)] := by
  unfold withName
  cases declared : c.isDeclared name with
  | true => simp
  | false => simpa using c.types.entries_insert_of_fresh none declared

theorem names_withName (name : String) :
    (c.withName name).names = if name ∈ c.names then c.names else c.names ++ [name] := by
  have known : c.isDeclared name = decide (name ∈ c.names) := by
    rw [Bool.eq_iff_iff, decide_eq_true_iff]
    exact c.types.mem_names_iff.symm
  change (c.withName name).types.entries.map Prod.fst = _
  rw [entries_withName, List.map_append, known]
  by_cases h : name ∈ c.names
  · simp only [h, decide_true, if_true, List.map_nil, List.append_nil]
    rfl
  · simp only [h, decide_false, if_false, Bool.false_eq_true, List.map_cons, List.map_nil]
    rfl

theorem names_withShape (name : String) (shape : Shape Reference) :
    (c.withShape name shape).names = if name ∈ c.names then c.names else c.names ++ [name] :=
  c.types.names_insert name (some shape)

theorem names_apply (op : Operation) : (op.apply c).names =
    ([op.name].filter fun name => Usable name).foldl
      (fun seen name => if name ∈ seen then seen else seen ++ [name]) c.names := by
  cases op.effect c with
  | refused unusable _ _ _ same => simp [unusable, same]
  | named usable _ _ behind =>
    rw [behind, names_withName]
    simp [usable]
  | defined usable _ _ behind =>
    rw [behind, names_withShape]
    simp [usable]

theorem names_after (ops : List Operation) : (c.after ops).names =
    ((ops.map Operation.name).filter fun name => Usable name).foldl
      (fun seen name => if name ∈ seen then seen else seen ++ [name]) c.names := by
  induction ops generalizing c with
  | nil => rfl
  | cons op ops ih =>
    change ((op.apply c).after ops).names = _
    rw [ih, names_apply, ← List.foldl_append, ← List.filter_append]
    rfl

theorem names_prefix_after (later : List Operation) : c.names <+: (c.after later).names :=
  ⟨_, (distinctFrom_eq _ c.names).symm.trans (names_after later).symm⟩

/-- The shapes that the operations of a run give, each with its name. -/
def history (c : Catalog) : List Operation → List (String × Shape Reference)
  | [] => []
  | op :: ops => (op.given? c).toList.map (op.name, ·) ++ history (op.apply c) ops

def lastGiven (name : String) (gifts : List (String × Shape Reference)) :
    Option (Shape Reference) :=
  (gifts.filter (·.1 = name)).getLast?.map Prod.snd

theorem lastGiven_append (name : String) (gifts later : List (String × Shape Reference)) :
    lastGiven name (gifts ++ later) = (lastGiven name later).or (lastGiven name gifts) := by
  rw [lastGiven, List.filter_append, List.getLast?_append, Option.map_or]
  rfl

theorem get?_apply_given (op : Operation) (name : String) : (op.apply c).get? name =
    (lastGiven name ((op.given? c).toList.map (op.name, ·))).or (c.get? name) := by
  cases op.effect c with
  | refused _ _ _ nothing same =>
    rw [nothing, same]
    rfl
  | named _ _ nothing behind =>
    rw [nothing, behind, get?_withName]
    rfl
  | defined _ _ gives behind =>
    rw [gives, behind, get?_withShape]
    by_cases h : name = op.name
    · simp [h, lastGiven]
    · simp [h, Ne.symm h, lastGiven]

theorem get?_after_history (ops : List Operation) (name : String) :
    (c.after ops).get? name = (lastGiven name (history c ops)).or (c.get? name) := by
  induction ops generalizing c with
  | nil => rfl
  | cons op ops ih =>
    change ((op.apply c).after ops).get? name = _
    rw [ih, get?_apply_given, history, lastGiven_append, Option.or_assoc]

theorem undefinedNames_eq_filter :
    c.undefinedNames = c.names.filter fun name => (c.get? name).isNone := by
  rw [undefinedNames, names, OrderedMap.names, List.filter_map]
  refine congrArg _ (List.filter_congr ?_)
  rintro ⟨name, shape⟩ hm
  have held : c.get? name = shape := by
    rw [get?, c.types.get?_eq_some_iff.mpr hm, Option.join_some]
  simp [held]

/-- What a catalog tells of the operations that led to it, and what the next ones do to it. -/
structure Recorded (ops : List Operation) (c : Catalog) : Prop where
  nodup : c.names.Nodup
  usable : ∀ name ∈ c.names, Usable name
  /-- The usable names of the operations, in the order of their first occurrence. -/
  names_eq : c.names = ((ops.map Operation.name).filter fun name => Usable name).eraseDups
  names_stay : ∀ later, c.names <+: (c.after later).names
  /-- The last shape that the name was given. -/
  shape_eq : ∀ name, c.get? name = lastGiven name (history empty ops)
  defined_stay : ∀ later name, c.isDefined name = true → (c.after later).isDefined name = true
  undefined_eq : c.undefinedNames = c.names.filter fun name => (c.get? name).isNone
  refused_iff : ∀ op : Operation, (∃ e ∈ op.error? c, e.RefusesName) ↔ ¬ Usable op.name
  refused : ∀ op : Operation, ¬ Usable op.name → op.apply c = c
  declared : ∀ name, Usable name → (c.declare name).value = (.ok ⟨name⟩, c.withName name)
  /-- A text that is read gives the name its shape. -/
  read : ∀ name text shape, Usable name →
    (Shape.ofText? (c.withName name).environment text).value = .ok shape →
    (c.parseAndDefine name text).value.1 = .ok shape ∧
      (c.parseAndDefine name text).value.2.get? name = some shape
  /-- A text that is refused leaves a new name behind the others, without a shape. -/
  unread : ∀ name text e, Usable name → (Syntax.Block.ofText? text).value = .error e →
    (c.parseAndDefine name text).value.1 = .error (.schema e) ∧
      (c.parseAndDefine name text).value.2.types.entries =
        c.types.entries ++ if c.isDeclared name then [] else [(name, none)]
  /-- A definition answers the shape that it replaces. -/
  replaced : ∀ name shape, Usable name → (c.define name shape).value.1 = .ok (c.get? name) ∧
    (c.define name shape).value.2.get? name = some shape

theorem recorded_after (ops : List Operation) : Recorded ops (empty.after ops) := by
  have listed : (empty.after ops).names =
      ((ops.map Operation.name).filter fun name => Usable name).eraseDups := by
    rw [names_after, ← distinct_eq_eraseDups]
    rfl
  refine ⟨(empty.after ops).types.nodup, ?_, listed, names_prefix_after, ?_, ?_,
    undefinedNames_eq_filter, ?_, ?_, ?_, ?_, ?_, ?_⟩
  · intro name hn
    rw [listed, List.mem_eraseDups] at hn
    simpa using List.of_mem_filter hn
  · intro name
    rw [get?_after_history]
    exact Option.or_none
  · intro later name defined
    rw [isDefined] at defined ⊢
    rw [get?_after_history, Option.isSome_or, defined, Bool.or_true]
  · intro op
    cases op.effect (empty.after ops) with
    | refused unusable answer about _ _ => exact iff_of_true ⟨_, answer, about⟩ unusable
    | named usable answer _ _ =>
      exact iff_of_false (fun ⟨e, he, about⟩ => answer e he about) (not_not_intro usable)
    | defined usable answer _ _ =>
      exact iff_of_false (by simp [answer]) (not_not_intro usable)
  · intro op unusable
    cases op.effect (empty.after ops) with
    | refused _ _ _ _ same => exact same
    | named usable _ _ _ => exact absurd usable unusable
    | defined usable _ _ _ => exact absurd usable unusable
  · intro name usable
    rw [value_declare, (checkTypeName_eq_ok_iff name).mpr usable]
  · intro name text shape usable read
    rw [value_parseAndDefine, (checkTypeName_eq_ok_iff name).mpr usable]
    dsimp only
    rw [read]
    exact ⟨rfl, (get?_withShape name name shape).trans (if_pos rfl)⟩
  · intro name text e usable failed
    rw [value_parseAndDefine, (checkTypeName_eq_ok_iff name).mpr usable, Shape.value_ofText?,
      failed]
    exact ⟨rfl, entries_withName name⟩
  · intro name shape usable
    rw [value_define, (checkTypeName_eq_ok_iff name).mpr usable]
    exact ⟨rfl, (get?_withShape name name shape).trans (if_pos rfl)⟩

example : (empty.after [.declare "B", .declare "Int", .parseAndDefine "A" "\x7bb:",
    .parseAndDefine "B" "\x7ba:A\x7d"]).names = ["B", "A"] := by
  decide +kernel

end Catalog

end ShapeSchema
