import Mathlib.Data.List.Forall2
import ShapeSchema.Syntax.Grammar
set_option autoImplicit false

namespace ShapeSchema

/-- A token as a tree demands it. `apart` asks for separators in front of it. -/
structure Mark where
  kind : Token.Kind
  apart : Bool
  deriving DecidableEq, Repr

namespace Mark

def sign (p : Punctuator) : Mark := ⟨.punctuator p, false⟩

def word (text : String) : Mark := ⟨.name text, false⟩

def standApart : List Mark → List Mark
  | [] => []
  | m :: ms => { m with apart := true } :: ms

def declarations : List (List Mark) → List Mark
  | [] => []
  | first :: more => first ++ more.flatMap standApart

def Meets (m : Mark) (t : Token) : Prop :=
  t.kind = m.kind ∧ (m.apart = true → t.isSeparated = true)

instance (m : Mark) (t : Token) : Decidable (m.Meets t) := inferInstanceAs (Decidable (_ ∧ _))

def chars (m : Mark) : List Char := (if m.apart then [' '] else []) ++ m.kind.text.toList

end Mark

/-- The tokens meet the demands one by one. -/
def Spells (ms : List Mark) (ts : List Token) : Prop := List.Forall₂ Mark.Meets ms ts

instance (ms : List Mark) (ts : List Token) : Decidable (Spells ms ts) :=
  inferInstanceAs (Decidable (List.Forall₂ _ _ _))

namespace Syntax

variable {σ τ : Type}

def bangMarks : Option σ → List Mark
  | none => []
  | some _ => [.sign .bang]

def TypeExpr.marks : TypeExpr σ → List Mark
  | .named name bang _ => .word name.text :: bangMarks bang
  | .list element bang _ =>
    .sign .bracketOpen :: (element.marks ++ .sign .bracketClose :: bangMarks bang)

def Parameter.marks (p : Parameter σ) : List Mark :=
  .word p.name.text :: .sign .colon :: p.type.marks

def parameterMarks : List (Parameter σ) → List Mark
  | [] => []
  | first :: more =>
    .sign .parenOpen :: (first.marks ++ more.flatMap (fun p => .sign .comma :: p.marks) ++
      [.sign .parenClose])

def Field.marks (d : Field σ) : List Mark :=
  .word d.name.text :: (parameterMarks d.parameters ++ .sign .colon :: d.type.marks)

def Field.types (d : Field σ) : List (TypeExpr σ) := d.parameters.map (·.type) ++ [d.type]

namespace Block

def marks : Block σ → List Mark
  | .object fields _ =>
    .sign .braceOpen :: (Mark.declarations (fields.map Field.marks) ++ [.sign .braceClose])
  | .enum values _ =>
    .word "enum" :: .sign .braceOpen ::
      (Mark.declarations (values.map fun v => [.word v.text]) ++ [.sign .braceClose])

/-- The text of a tree on one line with no separators that can be spared. -/
def print (b : Block σ) : String := String.ofList (b.marks.flatMap Mark.chars)

def types : Block σ → List (TypeExpr σ)
  | .object fields _ => fields.flatMap Field.types
  | .enum _ _ => []

def names : Block σ → List String
  | .object fields _ => fields.flatMap fun d =>
    d.name.text :: (d.parameters.flatMap fun p => [p.name.text, p.type.leaf.text]) ++
      [d.type.leaf.text]
  | .enum values _ => values.map (·.text)

/-- Every type expression stays below the limit on list levels. -/
def Shallow (b : Block σ) : Prop := ∀ t ∈ b.types, t.depth < Parse.maxDepth

instance (b : Block σ) : Decidable b.Shallow :=
  inferInstanceAs (Decidable (∀ t ∈ b.types, t.depth < Parse.maxDepth))

/-- The tree without its spans. -/
def bare (b : Block σ) : Block Unit := b.map fun _ => ()

end Block

@[simp]
theorem bangMarks_map (f : σ → τ) (bang : Option σ) : bangMarks (bang.map f) = bangMarks bang := by
  cases bang <;> rfl

@[simp]
theorem TypeExpr.marks_map (f : σ → τ) (t : TypeExpr σ) : (t.map f).marks = t.marks := by
  induction t with
  | named name bang span => simp [map, marks, Name.map]
  | list element bang span ih => simp [map, marks, ih]

@[simp]
theorem Parameter.marks_map (f : σ → τ) (p : Parameter σ) : (p.map f).marks = p.marks := by
  simp [map, marks, Name.map]

@[simp]
theorem parameterMarks_map (f : σ → τ) (ps : List (Parameter σ)) :
    parameterMarks (ps.map (·.map f)) = parameterMarks ps := by
  cases ps with
  | nil => rfl
  | cons first more => simp [parameterMarks, List.flatMap_map]

@[simp]
theorem Field.marks_map (f : σ → τ) (d : Field σ) : (d.map f).marks = d.marks := by
  simp [map, marks, Name.map]

namespace Block

@[simp]
theorem marks_map (f : σ → τ) (b : Block σ) : (b.map f).marks = b.marks := by
  cases b with
  | object fields span => simp [map, marks, Function.comp_def]
  | enum values span => simp [map, marks, Function.comp_def, Name.map]

@[simp]
theorem marks_bare (b : Block σ) : b.bare.marks = b.marks := marks_map _ b

theorem bare_unit (b : Block Unit) : b.bare = b := by
  have parameter (p : Parameter Unit) : p.map (fun _ => ()) = p := by
    rw [Parameter.map, show (fun _ : Unit => ()) = id from rfl, TypeExpr.map_id]
    rfl
  have field (d : Field Unit) : d.map (fun _ => ()) = d := by
    rw [Field.map, funext parameter, List.map_id', show (fun _ : Unit => ()) = id from rfl,
      TypeExpr.map_id]
    rfl
  cases b with
  | object fields span => rw [bare, map, funext field, List.map_id']
  | enum values span => rw [bare, map, show (fun n : Name Unit => n.map _) = id from rfl, List.map_id]

theorem shallow_map (f : σ → τ) (b : Block σ) : (b.map f).Shallow ↔ b.Shallow := by
  have same : (b.map f).types = b.types.map (·.map f) := by
    cases b with
    | object fields span =>
      simp [map, types, Field.types, Field.map, Parameter.map, List.flatMap_map,
        List.map_flatMap, Function.comp_def]
    | enum values span => rfl
  simp [Shallow, same]

end Block

def KindFrom (names : List String) (m : Mark) : Prop :=
  (∃ p, m.kind = .punctuator p) ∨ ∃ n ∈ names, m.kind = .name n

theorem KindFrom.mono {names names' : List String} {m : Mark} (h : KindFrom names m)
    (sub : names ⊆ names') : KindFrom names' m :=
  h.imp_right fun ⟨n, hn, hk⟩ => ⟨n, sub hn, hk⟩

theorem KindFrom.plain {names : List String} {m : Mark} (h : KindFrom names m) :
    m.kind ≠ .endOfInput ∧ ∀ message notes, m.kind ≠ .invalid message notes := by
  rcases h with ⟨p, hp⟩ | ⟨n, -, hn⟩
  · simp [hp]
  · simp [hn]

theorem kindFrom_sign (names : List String) (p : Punctuator) : KindFrom names (.sign p) :=
  .inl ⟨p, rfl⟩

theorem kindFrom_word {names : List String} {n : String} (hn : n ∈ names) :
    KindFrom names (.word n) := .inr ⟨n, hn, rfl⟩

theorem kindFrom_bang (names : List String) (bang : Option σ) :
    ∀ m ∈ bangMarks bang, KindFrom names m := by
  cases bang with
  | none => simp [bangMarks]
  | some x => simpa [bangMarks] using kindFrom_sign names .bang

theorem TypeExpr.kindFrom_marks (t : TypeExpr σ) : ∀ m ∈ t.marks, KindFrom [t.leaf.text] m := by
  induction t with
  | named name bang span =>
    simp only [marks, leaf, List.forall_mem_cons]
    exact ⟨kindFrom_word List.mem_cons_self, kindFrom_bang _ bang⟩
  | list element bang span ih =>
    simp only [marks, leaf, List.forall_mem_cons, List.forall_mem_append]
    exact ⟨kindFrom_sign _ _, ih, kindFrom_sign _ _, kindFrom_bang _ bang⟩

theorem Parameter.kindFrom_marks (p : Parameter σ) :
    ∀ m ∈ p.marks, KindFrom [p.name.text, p.type.leaf.text] m := by
  simp only [marks, List.forall_mem_cons]
  refine ⟨kindFrom_word List.mem_cons_self, kindFrom_sign _ _, fun m hm => ?_⟩
  exact (p.type.kindFrom_marks m hm).mono (List.subset_cons_self _ _)

theorem kindFrom_parameterMarks (ps : List (Parameter σ)) :
    ∀ m ∈ parameterMarks ps,
      KindFrom (ps.flatMap fun p => [p.name.text, p.type.leaf.text]) m := by
  have inner {qs : List (Parameter σ)} {p : Parameter σ} (hp : p ∈ qs) : ∀ m ∈ p.marks,
      KindFrom (qs.flatMap fun p => [p.name.text, p.type.leaf.text]) m := fun m hm =>
    (p.kindFrom_marks m hm).mono fun n hn => List.mem_flatMap.mpr ⟨p, hp, hn⟩
  cases ps with
  | nil => simp [parameterMarks]
  | cons first more =>
    simp only [parameterMarks, List.forall_mem_cons, List.forall_mem_append, List.mem_flatMap]
    refine ⟨kindFrom_sign _ _, ⟨inner List.mem_cons_self, ?_⟩, kindFrom_sign _ _, by simp⟩
    rintro m ⟨p, hp, hm⟩
    obtain rfl | hm := List.mem_cons.mp hm
    · exact kindFrom_sign _ _
    · exact inner (List.mem_cons_of_mem _ hp) m hm

theorem kindFrom_declarations {α : Type} {f : α → List Mark} {names : List String}
    {as : List α} (h : ∀ a ∈ as, ∀ m ∈ f a, KindFrom names m) :
    ∀ m ∈ Mark.declarations (as.map f), KindFrom names m := by
  cases as with
  | nil => simp [Mark.declarations]
  | cons a as =>
    simp only [List.map_cons, Mark.declarations, List.forall_mem_append, List.flatMap_map,
      List.mem_flatMap]
    refine ⟨h a List.mem_cons_self, ?_⟩
    rintro m ⟨b, hb, hm⟩
    have hb := h b (List.mem_cons_of_mem _ hb)
    cases hf : f b with
    | nil => simp [hf, Mark.standApart] at hm
    | cons first more =>
      rw [hf] at hb
      rw [hf, Mark.standApart] at hm
      obtain rfl | hm := List.mem_cons.mp hm
      · exact hb first List.mem_cons_self
      · exact hb m (List.mem_cons_of_mem _ hm)

theorem Field.kindFrom_marks (d : Field σ) : ∀ m ∈ d.marks,
    KindFrom (d.name.text :: (d.parameters.flatMap fun p => [p.name.text, p.type.leaf.text]) ++
      [d.type.leaf.text]) m := by
  simp only [marks, List.forall_mem_cons, List.forall_mem_append]
  refine ⟨kindFrom_word List.mem_cons_self, fun m hm => ?_, kindFrom_sign _ _, fun m hm => ?_⟩
  · refine (kindFrom_parameterMarks _ m hm).mono fun n hn => ?_
    exact List.mem_append_left _ (List.mem_cons_of_mem _ hn)
  · exact (d.type.kindFrom_marks m hm).mono fun n hn => List.mem_append_right _ hn

theorem Block.kindFrom_marks (b : Block σ) : ∀ m ∈ b.marks, KindFrom ("enum" :: b.names) m := by
  cases b with
  | object fields span =>
    simp only [marks, names, List.forall_mem_cons, List.forall_mem_append]
    refine ⟨kindFrom_sign _ _, kindFrom_declarations fun d hd m hm => ?_,
      kindFrom_sign _ _, by simp⟩
    refine (d.kindFrom_marks m hm).mono fun n hn => List.mem_cons_of_mem _ ?_
    exact List.mem_flatMap.mpr ⟨d, hd, hn⟩
  | enum values span =>
    simp only [marks, names, List.forall_mem_cons, List.forall_mem_append]
    refine ⟨kindFrom_word List.mem_cons_self, kindFrom_sign _ _,
      kindFrom_declarations fun v hv m hm => ?_, kindFrom_sign _ _, by simp⟩
    rw [List.mem_singleton.mp hm]
    exact kindFrom_word (List.mem_cons_of_mem _ (List.mem_map.mpr ⟨v, hv, rfl⟩))

end Syntax

end ShapeSchema
