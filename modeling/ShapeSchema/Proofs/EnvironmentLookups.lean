import ShapeSchema.Proofs.AcceptedTrees
import ShapeSchema.Proofs.EarliestError
import ShapeSchema.Proofs.EnvironmentIndependence
set_option autoImplicit false

namespace ShapeSchema

variable {H σ : Type}

def Token.Kind.announcesType : Token.Kind → Bool
  | .punctuator .colon | .punctuator .bracketOpen => true
  | _ => false

/-- The names at which a type starts; `announced` tells whether one starts at the first token. -/
def namesOfTypes (announced : Bool) : List Token.Kind → List String
  | [] => []
  | k :: ks => (if announced then k.name?.toList else []) ++ namesOfTypes k.announcesType ks

/-- The type names among tokens, as often as they occur. -/
def Token.typeNames (ts : List Token) : List String := namesOfTypes false (ts.map Token.kind)

/-- The names that the environment is asked for when all of them get their meaning. -/
def askedFor (names : List String) : List String := names.filter fun name => !Scalar.isBuiltin name

/-- Where a type is announced or not, the marks add these type names, and no type is announced
    behind them. -/
def Adds (announced : Bool) (ms : List Mark) (names : List String) : Prop :=
  ∀ ks, namesOfTypes announced (ms.map Mark.kind ++ ks) = names ++ namesOfTypes false ks

namespace Adds

variable {announced : Bool} {ms ms' : List Mark} {names names' : List String}

theorem nil : Adds false [] [] := fun _ => rfl

theorem append (h : Adds announced ms names) (h' : Adds false ms' names') :
    Adds announced (ms ++ ms') (names ++ names') := by
  intro ks
  rw [List.map_append, List.append_assoc, h, h', List.append_assoc]

theorem flatMap {α : Type} {as : List α} {f : α → List Mark} {g : α → List String}
    (h : ∀ a ∈ as, Adds false (f a) (g a)) : Adds false (as.flatMap f) (as.flatMap g) := by
  induction as with
  | nil => exact nil
  | cons a as ih =>
    obtain ⟨here, later⟩ := List.forall_mem_cons.mp h
    exact here.append (ih later)

theorem cons {m : Mark} (h : Adds m.kind.announcesType ms names) (none : m.kind.name? = none) :
    Adds announced (m :: ms) names := by
  intro ks
  cases announced <;> simp [namesOfTypes, none, h ks]

theorem word (n : String) (h : Adds false ms names) : Adds false (.word n :: ms) names :=
  fun ks => h ks

end Adds

namespace Syntax

theorem adds_bangMarks (bang : Option σ) : Adds false (bangMarks bang) [] := by
  cases bang with
  | none => exact .nil
  | some s => exact .cons .nil rfl

theorem TypeExpr.adds_marks (t : TypeExpr σ) : Adds true t.marks [t.leaf.text] := by
  induction t with
  | named name bang span =>
    intro ks
    exact congrArg (name.text :: ·) (adds_bangMarks bang ks)
  | list element bang span ih =>
    exact .cons (ih.append (.cons (adds_bangMarks bang) rfl)) rfl

theorem Parameter.adds_marks (p : Parameter σ) : Adds false p.marks [p.type.leaf.text] :=
  .word _ (.cons p.type.adds_marks rfl)

theorem adds_parameterMarks (ps : List (Parameter σ)) :
    Adds false (parameterMarks ps) (ps.map (·.type.leaf.text)) := by
  cases ps with
  | nil => exact .nil
  | cons first more =>
    have later : Adds false (more.flatMap fun p => .sign .comma :: p.marks)
        (more.flatMap fun p => [p.type.leaf.text]) :=
      .flatMap fun p _ => .cons p.adds_marks rfl
    have closing : Adds false [.sign .parenClose] [] := .cons .nil rfl
    have inner := (first.adds_marks.append later).append closing
    rw [List.append_nil, ← List.map_eq_flatMap] at inner
    exact .cons inner rfl

theorem Field.adds_marks (d : Field σ) : Adds false d.marks (d.types.map (·.leaf.text)) := by
  have own : Adds false (.sign .colon :: d.type.marks) [d.type.leaf.text] :=
    .cons d.type.adds_marks rfl
  have whole := (adds_parameterMarks d.parameters).append own
  rw [Field.types, List.map_append, List.map_map]
  exact .word _ whole

theorem adds_standApart {ms : List Mark} {names : List String} (h : Adds false ms names) :
    Adds false (Mark.standApart ms) names := by
  cases ms with
  | nil => exact h
  | cons m ms => exact fun ks => h ks

theorem adds_declarations {α : Type} (as : List α) {f : α → List Mark} {g : α → List String}
    (h : ∀ a, Adds false (f a) (g a)) :
    Adds false (Mark.declarations (as.map f)) (as.flatMap g) := by
  cases as with
  | nil => exact .nil
  | cons a as =>
    rw [List.map_cons, Mark.declarations, List.flatMap_map, List.flatMap_cons]
    exact (h a).append (.flatMap fun b _ => adds_standApart (h b))

theorem Block.adds_marks (b : Block σ) : Adds false b.marks b.typeNames := by
  have closing : Adds false [.sign .braceClose] [] := .cons .nil rfl
  cases b with
  | object fields span =>
    have inner := (adds_declarations fields Field.adds_marks).append closing
    rw [List.append_nil] at inner
    rw [typeNames, types, List.map_flatMap]
    exact .cons inner rfl
  | enum values span =>
    have listed (v : Name σ) : Adds false [.word v.text] [] := .word _ .nil
    have none : (values.flatMap fun _ => ([] : List String)) ++ [] = [] := by simp
    have inner := (adds_declarations values listed).append closing
    rw [none] at inner
    exact .word _ (.cons inner rfl)

end Syntax

namespace Journal

variable {α β : Type}

theorem lookups_pure (a : α) : (pure a : Journal α).lookups = [] := rfl

theorem lookups_map (f : α → β) (m : Journal α) : (f <$> m).lookups = m.lookups := by
  rw [← bind_pure_comp, lookups_bind, lookups_pure, List.append_nil]

theorem lookups_ofRecords (records : List Record) (a : α) : (ofRecords records a).lookups = [] := by
  rw [lookups, ofRecords, List.filterMap_map]
  exact List.filterMap_eq_nil_iff.mpr fun _ _ => rfl

theorem lookups_mapM (f : α → Journal β) (as : List α) :
    (as.mapM f).lookups = as.flatMap fun a => (f a).lookups := by
  induction as with
  | nil => rfl
  | cons a as ih =>
    rw [List.mapM_cons, lookups_bind, lookups_bind, ih, lookups_pure, List.append_nil]
    rfl

theorem lookups_foldlM {f : β → α → Journal β} {names : α → List String}
    (h : ∀ b a, (f b a).lookups = names a) (as : List α) (b : β) :
    (as.foldlM f b).lookups = as.flatMap names := by
  induction as generalizing b with
  | nil => rfl
  | cons a as ih => rw [List.foldlM_cons, lookups_bind, h, ih, List.flatMap_cons]

end Journal

def Asking.lookups (ask : Asking H) (names : List String) : List String :=
  (askedFor names).flatMap fun name => (ask name).lookups

variable (ask : Asking H)

theorem Asking.lookups_append (names names' : List String) :
    ask.lookups (names ++ names') = ask.lookups names ++ ask.lookups names' := by
  rw [lookups, askedFor, List.filter_append, List.flatMap_append]
  rfl

theorem Asking.lookups_flatMap {α : Type} (as : List α) (f : α → List String) :
    ask.lookups (as.flatMap f) = as.flatMap fun a => ask.lookups (f a) := by
  rw [lookups, askedFor, List.filter_flatMap, List.flatMap_assoc]
  rfl

theorem Environment.lookups_ask (env : Environment H) (names : List String) :
    Asking.lookups env.ask names = askedFor names := by
  simp only [Asking.lookups, ask_eq]
  exact List.flatMap_singleton' _

theorem Asking.lookups_resolve (name : String) : (ask.resolve name).lookups = ask.lookups [name] := by
  unfold resolve
  cases hs : Scalar.ofName? name with
  | some s => simp [lookups, askedFor, Scalar.isBuiltin, hs, Journal.lookups_pure]
  | none =>
    have asked : ask.lookups [name] = (ask name).lookups := by
      simp [lookups, askedFor, Scalar.isBuiltin, hs]
    rw [asked]
    dsimp only
    rw [Journal.lookups_bind]
    refine Eq.trans (congrArg _ ?_) (List.append_nil _)
    cases (ask name).value <;> rfl

namespace Syntax

theorem TypeExpr.lookups_resolve (t : TypeExpr σ) :
    (t.resolve ask).lookups = ask.lookups [t.leaf.text] := by
  induction t with
  | named name bang span =>
    rw [resolve, Journal.lookups_bind, ask.lookups_resolve, Journal.lookups_pure, List.append_nil]
    rfl
  | list element bang span ih =>
    rw [resolve, Journal.lookups_bind, ih, Journal.lookups_pure, List.append_nil]
    rfl

theorem Parameter.lookups_resolve (p : Parameter σ) :
    (p.resolve ask).lookups = ask.lookups [p.type.leaf.text] := by
  rw [resolve, Journal.lookups_bind, TypeExpr.lookups_resolve, Journal.lookups_pure,
    List.append_nil]

theorem Field.lookups_resolve (d : Field σ) :
    (d.resolve ask).lookups = ask.lookups (d.types.map (·.leaf.text)) := by
  have parameters : (d.parameters.mapM (Parameter.resolve ask)).lookups =
      ask.lookups (d.parameters.map (·.type.leaf.text)) := by
    rw [Journal.lookups_mapM, List.map_eq_flatMap, Asking.lookups_flatMap]
    exact congrArg (d.parameters.flatMap ·) (funext fun p => p.lookups_resolve ask)
  have own := d.type.lookups_resolve ask
  rw [types, List.map_append, List.map_map, Asking.lookups_append, resolve, Journal.lookups_bind,
    parameters, Journal.lookups_bind, own]
  exact congrArg _ (List.append_nil _)

/-- A declaration asks for its type names also where it replaces another, or will be replaced. -/
theorem Field.lookups_declare (o : Shape.Object H) (d : Field σ) :
    (d.declare ask o).lookups = ask.lookups (d.types.map (·.leaf.text)) := by
  rw [declare, Journal.lookups_bind, Field.lookups_resolve]
  refine Eq.trans (congrArg _ ?_) (List.append_nil _)
  cases o.field? (d.resolve ask).value.name <;> rfl

theorem lookups_resolveFields (fields : List (Field σ)) :
    (resolveFields ask fields).lookups =
      fields.flatMap fun d => ask.lookups (d.types.map (·.leaf.text)) := by
  rw [resolveFields, Journal.lookups_bind, Journal.lookups_foldlM (Field.lookups_declare ask)]
  refine Eq.trans (congrArg _ ?_) (List.append_nil _)
  dsimp only
  split <;> rfl

theorem lookups_resolveValues (values : List (Name σ)) : (resolveValues values).lookups = [] := by
  simp only [resolveValues]
  split <;> rfl

theorem Block.lookups_resolve (b : Block σ) :
    (b.resolve ask).lookups = ask.lookups b.typeNames := by
  cases b with
  | object fields span =>
    rw [resolve, Journal.lookups_map, lookups_resolveFields, typeNames, types, List.map_flatMap,
      Asking.lookups_flatMap]
  | enum values span =>
    rw [resolve, Journal.lookups_map, lookups_resolveValues]
    rfl

end Syntax

namespace Shape

theorem lookups_ofTextAsking? (text : String) :
    (ofTextAsking? ask text).lookups =
      match (Syntax.Block.ofText? text).value with
      | .ok b => ask.lookups b.typeNames
      | .error _ => [] := by
  have read : (Syntax.Block.ofText? text).lookups = [] := Journal.lookups_ofRecords _ _
  rw [ofTextAsking?, Journal.lookups_bind, Journal.lookups_bind, read]
  cases (Syntax.Block.ofText? text).value with
  | ok b => exact (Journal.lookups_map _ (b.resolve ask)).trans (b.lookups_resolve ask)
  | error e => rfl

theorem lookups_ofText? (env : Environment H) (text : String) :
    (ofText? env text).lookups =
      match (Syntax.Block.ofText? text).value with
      | .ok b => askedFor b.typeNames
      | .error _ => [] := by
  simp only [ofText?, lookups_ofTextAsking?, Environment.lookups_ask]

end Shape

end ShapeSchema
