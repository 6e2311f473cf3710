import ShapeSchema.Text.Span
set_option autoImplicit false

namespace ShapeSchema.Syntax

structure Name (σ : Type) where
  text : String
  span : σ
  deriving DecidableEq, Repr

/-- A type expression. `bang` annotates the `!` behind it; without one the type is nullable. -/
inductive TypeExpr (σ : Type)
  | named (name : Name σ) (bang : Option σ) (span : σ)
  | list (element : TypeExpr σ) (bang : Option σ) (span : σ)
  deriving DecidableEq, Repr

structure Parameter (σ : Type) where
  name : Name σ
  type : TypeExpr σ
  span : σ
  deriving DecidableEq, Repr

structure Field (σ : Type) where
  name : Name σ
  parameters : List (Parameter σ)
  type : TypeExpr σ
  span : σ
  deriving DecidableEq, Repr

/-- A schema text holds one block, of fields or of enum values. -/
inductive Block (σ : Type)
  | object (fields : List (Field σ)) (span : σ)
  | enum (values : List (Name σ)) (span : σ)
  deriving DecidableEq, Repr

variable {σ τ : Type}

def Name.map (f : σ → τ) (n : Name σ) : Name τ := ⟨n.text, f n.span⟩

namespace TypeExpr

def map (f : σ → τ) : TypeExpr σ → TypeExpr τ
  | .named name bang span => .named (name.map f) (bang.map f) (f span)
  | .list element bang span => .list (element.map f) (bang.map f) (f span)

def span : TypeExpr σ → σ
  | .named _ _ s | .list _ _ s => s

def bang : TypeExpr σ → Option σ
  | .named _ b _ | .list _ b _ => b

def isNullable (t : TypeExpr σ) : Bool := t.bang.isNone

def depth : TypeExpr σ → Nat
  | .named _ _ _ => 0
  | .list element _ _ => element.depth + 1

def leaf : TypeExpr σ → Name σ
  | .named name _ _ => name
  | .list element _ _ => element.leaf

def leafNullable : TypeExpr σ → Bool
  | .named _ bang _ => bang.isNone
  | .list element _ _ => element.leafNullable

end TypeExpr

def Parameter.map (f : σ → τ) (p : Parameter σ) : Parameter τ :=
  ⟨p.name.map f, p.type.map f, f p.span⟩

def Field.map (f : σ → τ) (d : Field σ) : Field τ :=
  ⟨d.name.map f, d.parameters.map (·.map f), d.type.map f, f d.span⟩

namespace Block

def map (f : σ → τ) : Block σ → Block τ
  | .object fields span => .object (fields.map (·.map f)) (f span)
  | .enum values span => .enum (values.map (·.map f)) (f span)

def span : Block σ → σ
  | .object _ s | .enum _ s => s

end Block

@[simp]
theorem Name.map_id (n : Name σ) : n.map id = n := rfl

@[simp]
theorem TypeExpr.map_id (t : TypeExpr σ) : t.map id = t := by
  induction t with
  | named => simp [map]
  | list _ _ _ ih => simp [map, ih]

@[simp]
theorem TypeExpr.depth_map (f : σ → τ) (t : TypeExpr σ) : (t.map f).depth = t.depth := by
  induction t with
  | named => rfl
  | list _ _ _ ih => simp [map, depth, ih]

@[simp]
theorem TypeExpr.leaf_map (f : σ → τ) (t : TypeExpr σ) : (t.map f).leaf = t.leaf.map f := by
  induction t with
  | named => rfl
  | list _ _ _ ih => simp [map, leaf, ih]

end ShapeSchema.Syntax
