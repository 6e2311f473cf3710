import ShapeSchema.Proofs.CatalogOperations
set_option autoImplicit false

namespace ShapeSchema.Catalog

def answers (c : Catalog) : List (String × String) →
    List ((String × String) × Except EnvironmentError (Shape Reference))
  | [] => []
  | (name, text) :: more =>
    ((name, text), (c.parseAndDefine name text).value.1) ::
      answers (c.parseAndDefine name text).value.2 more

def afterTexts (c : Catalog) (definitions : List (String × String)) : Catalog :=
  c.after (definitions.map fun (name, text) => .parseAndDefine name text)

/-- The answer to a definition by a text, which the declared names decide. -/
def verdict (c : Catalog) (name text : String) : Except EnvironmentError (Shape Reference) :=
  match checkTypeName name with
  | .error e => .error e
  | .ok () => (Shape.ofText? c.environment text).value.mapError .schema

def settle (c : Catalog) (name : String) :
    Except EnvironmentError (Shape Reference) → Catalog
  | .error _ => c
  | .ok shape => c.withShape name shape

variable {c : Catalog} {name other : String}

theorem value_parseAndDefine_of_declared (declared : c.isDeclared name = true) (text : String) :
    (c.parseAndDefine name text).value =
      (c.verdict name text, c.settle name (c.verdict name text)) := by
  have known : c.withName name = c := if_pos declared
  rw [value_parseAndDefine, known, verdict]
  cases checkTypeName name with
  | error e => rfl
  | ok u =>
    dsimp only
    cases (Shape.ofText? c.environment text).value <;> rfl

theorem isDeclared_settle (declared : c.isDeclared name = true) (other : String)
    (answer : Except EnvironmentError (Shape Reference)) :
    (c.settle name answer).isDeclared other = c.isDeclared other := by
  cases answer with
  | error e => rfl
  | ok shape =>
    rw [settle, isDeclared_withShape]
    by_cases h : other = name
    · rw [h, declared, Bool.or_true]
    · rw [decide_eq_false h, Bool.false_or]

theorem verdict_settle (declared : c.isDeclared name = true)
    (answer : Except EnvironmentError (Shape Reference)) (other text : String) :
    (c.settle name answer).verdict other text = c.verdict other text := by
  have same : (c.settle name answer).environment = c.environment := by
    refine congrArg Environment.mk (funext fun key => ?_)
    rw [lookup, isDeclared_settle declared]
    rfl
  rw [verdict, same]
  rfl

theorem settle_comm (apart : name ≠ other) (declared : c.isDeclared name = true)
    (answer more : Except EnvironmentError (Shape Reference)) :
    (c.settle name answer).settle other more = (c.settle other more).settle name answer := by
  cases answer with
  | error e => rfl
  | ok shape =>
    cases more with
    | error e => rfl
    | ok shape' => exact congrArg Catalog.mk (c.types.insert_comm _ _ apart declared)

theorem afterTexts_cons (declared : c.isDeclared name = true) (text : String)
    (more : List (String × String)) : c.afterTexts ((name, text) :: more) =
      (c.settle name (c.verdict name text)).afterTexts more := by
  change (c.parseAndDefine name text).value.2.afterTexts more = _
  rw [value_parseAndDefine_of_declared declared]

theorem answers_cons (declared : c.isDeclared name = true) (text : String)
    (more : List (String × String)) : c.answers ((name, text) :: more) =
      ((name, text), c.verdict name text) ::
        (c.settle name (c.verdict name text)).answers more := by
  rw [answers, value_parseAndDefine_of_declared declared]

/-- Definitions by texts of different names that are all declared lead to the same catalog, entry by
    entry, and get the same answers, in whatever order they are made. -/
theorem afterTexts_perm {definitions reordered : List (String × String)}
    (perm : definitions.Perm reordered) (distinct : (definitions.map Prod.fst).Nodup)
    (declared : ∀ d ∈ definitions, c.isDeclared d.1 = true) :
    c.afterTexts definitions = c.afterTexts reordered ∧
      (c.answers definitions).Perm (c.answers reordered) := by
  induction perm generalizing c with
  | nil => exact ⟨rfl, .nil⟩
  | cons d _ ih =>
    obtain ⟨here, later⟩ := List.forall_mem_cons.mp declared
    obtain ⟨same, perm⟩ := ih (c := c.settle d.1 (c.verdict d.1 d.2))
      (List.nodup_cons.mp distinct).2
      fun e he => (isDeclared_settle here e.1 _).trans (later e he)
    rw [afterTexts_cons here, afterTexts_cons here, answers_cons here, answers_cons here]
    exact ⟨same, perm.cons _⟩
  | swap d e more =>
    obtain ⟨he, hd, -⟩ := List.forall_mem_cons.mp declared |>.imp_right List.forall_mem_cons.mp
    have apart : e.1 ≠ d.1 := fun h => (List.nodup_cons.mp distinct).1 (by simp [h])
    have hd' := (isDeclared_settle he d.1 (c.verdict e.1 e.2)).trans hd
    have he' := (isDeclared_settle hd e.1 (c.verdict d.1 d.2)).trans he
    rw [afterTexts_cons he, afterTexts_cons hd', afterTexts_cons hd, afterTexts_cons he',
      answers_cons he, answers_cons hd', answers_cons hd, answers_cons he', verdict_settle he,
      verdict_settle hd, settle_comm apart he]
    exact ⟨rfl, .swap _ _ _⟩
  | trans first _ ih ih' =>
    obtain ⟨same, perm⟩ := ih distinct declared
    obtain ⟨same', perm'⟩ := ih' ((first.map _).nodup_iff.mp distinct)
      fun d hd => declared d (first.mem_iff.mpr hd)
    exact ⟨same.trans same', perm.trans perm'⟩

theorem afterTexts_perm_mutual :
    (∀ d ∈ [("A", "\x7bb:B\x7d"), ("B", "\x7ba:[A!]\x7d"), ("C", "\x7bc")],
      (empty.after [.declare "A", .declare "B", .declare "C"]).isDeclared d.1 = true) ∧
    (empty.after [.declare "A", .declare "B", .declare "C"]).afterTexts
        [("A", "\x7bb:B\x7d"), ("B", "\x7ba:[A!]\x7d"), ("C", "\x7bc")] =
      (empty.after [.declare "A", .declare "B", .declare "C"]).afterTexts
        [("C", "\x7bc"), ("B", "\x7ba:[A!]\x7d"), ("A", "\x7bb:B\x7d")] ∧
    ((empty.after [.declare "A", .declare "B", .declare "C"]).answers
        [("A", "\x7bb:B\x7d"), ("B", "\x7ba:[A!]\x7d"), ("C", "\x7bc")]).Perm
      ((empty.after [.declare "A", .declare "B", .declare "C"]).answers
        [("C", "\x7bc"), ("B", "\x7ba:[A!]\x7d"), ("A", "\x7bb:B\x7d")]) := by
  have declared : ∀ d ∈ [("A", "\x7bb:B\x7d"), ("B", "\x7ba:[A!]\x7d"), ("C", "\x7bc")],
      (empty.after [.declare "A", .declare "B", .declare "C"]).isDeclared d.1 = true := by
    decide +kernel
  exact ⟨declared, afterTexts_perm (by decide) (by decide) declared⟩

end ShapeSchema.Catalog
