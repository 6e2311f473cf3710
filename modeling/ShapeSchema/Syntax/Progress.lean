import ShapeSchema.Syntax.Parse
set_option autoImplicit false

/-!
# Progress and repetition

`Spends` bounds from below how many tokens a computation reads, and sequences of computations add
their bounds up. A step that reads a token whenever it yields something can be repeated with
`collect`, which then terminates.
-/

namespace ShapeSchema.Parse

variable {α β : Type}

/-- Every result `a` costs at least `cost a` tokens. -/
def Spends (cost : α → Nat) (p : Parse α) : Prop :=
  ∀ s a s', p s = .ok a s' → s'.rest.length + cost a ≤ s.rest.length

abbrev Shrinks (p : Parse α) : Prop := Spends (fun _ => 0) p

/-- What one round of a repetition costs: a token, unless it is the last. -/
def roundCost : Option α → Nat
  | none => 0
  | some _ => 1

/-- Repeats `step` until it yields nothing; `step n` is tried after `n` items. -/
def collect (step : Nat → Parse (Option α)) (h : ∀ n, Spends roundCost (step n)) (n : Nat)
    (s : Cursor) : EStateM.Result ParseError Cursor (List α) :=
  match hs : step n s with
  | .ok none s' => .ok [] s'
  | .ok (some a) s' =>
    have _shorter : s'.rest.length < s.rest.length := h n s (some a) s' hs
    match collect step h (n + 1) s' with
    | .ok as s'' => .ok (a :: as) s''
    | .error e s'' => .error e s''
  | .error e s' => .error e s'
termination_by s.rest.length

theorem collect_eq (step : Nat → Parse (Option α)) (h : ∀ n, Spends roundCost (step n)) (n : Nat) :
    collect step h n = (show Parse (List α) from do
      match ← step n with
      | none => return []
      | some a => return a :: (← collect step h (n + 1))) := by
  funext s
  rw [collect]
  simp only [bind, EStateM.bind]
  cases step n s with
  | error e s' => rfl
  | ok o s' =>
    cases o with
    | none => rfl
    | some a =>
      simp only [EStateM.bind]
      cases collect step h (n + 1) s' <;> rfl

namespace Spends

variable {p : Parse α} {f : α → Parse β}

theorem weaken {c d : α → Nat} (hp : Spends c p) (h : ∀ a, d a ≤ c a) : Spends d p := by
  intro s a s' hs
  have := hp s a s' hs
  have := h a
  omega

theorem bind {k : Nat} {d : β → Nat} (hp : Spends (fun _ => k) p)
    (hf : ∀ a, Spends (fun b => d b - k) (f a)) : Spends d (p >>= f) := by
  intro s b s'' hs
  simp only [Bind.bind, EStateM.bind] at hs
  split at hs
  · next a s' hps =>
    have h1 := hp s a s' hps
    have h2 := hf a s' b s'' hs
    simp only at h1 h2
    omega
  · cases hs

theorem bindRound {q : Parse (Option α)} {g : Option α → Parse β} {d : β → Nat}
    (hq : Spends roundCost q) (hsome : ∀ a, Spends (fun b => d b - 1) (g (some a)))
    (hnone : Spends d (g none)) : Spends d (q >>= g) := by
  intro s b s'' hs
  simp only [Bind.bind, EStateM.bind] at hs
  split at hs
  · next o s' hq' =>
    have h1 := hq s o s' hq'
    cases o with
    | none =>
      have h2 := hnone s' b s'' hs
      simp only [roundCost] at h1
      omega
    | some a =>
      have h2 := hsome a s' b s'' hs
      simp only [roundCost] at h1 h2
      omega
  · cases hs

theorem pure {c : α → Nat} {a : α} (h : c a = 0) : Spends c (Pure.pure a : Parse α) := by
  intro s b s' hs
  cases hs
  omega

theorem fail {c : α → Nat} (error : Cursor → ParseError) : Spends c (Parse.fail error) := by
  intro s a s' hs
  cases hs

theorem throw {c : α → Nat} (e : ParseError) : Spends c (throw e : Parse α) := by
  intro s a s' hs
  cases hs

theorem refuse {c : α → Nat} (expected : List Expected) :
    Spends c (Parse.refuse expected : Parse α) := fail _

end Spends

theorem Spends.get {k : Cursor → Parse α} {c : α → Nat} (hk : ∀ s, Spends c (k s)) :
    Spends c (get >>= k) := fun s a s' hs => hk s s a s' hs

theorem nextIs_shrinks (p : Punctuator) : Shrinks (nextIs p) := by
  intro s a s' hs
  cases hs
  exact Nat.le_refl _

theorem nextName?_shrinks : Shrinks nextName? := by
  intro s a s' hs
  cases hs
  exact Nat.le_refl _

theorem accept_spends (p : Punctuator) : Spends roundCost (accept p) := by
  intro s a s' hs
  simp only [accept] at hs
  split at hs
  · cases hs; simp [roundCost]
  · next t rest hr =>
    split at hs
    · cases hs; simp [roundCost, Cursor.advance, hr]
    · cases hs; simp [roundCost]

theorem acceptName_spends : Spends roundCost acceptName := by
  intro s a s' hs
  simp only [acceptName] at hs
  split at hs
  · cases hs; simp [roundCost]
  · next t rest hr =>
    split at hs
    · cases hs; simp [roundCost, Cursor.advance, hr]
    · cases hs; simp [roundCost]

theorem accept_shrinks (p : Punctuator) : Shrinks (accept p) :=
  (accept_spends p).weaken fun _ => Nat.zero_le _

theorem expect_shrinks (p : Punctuator) : Shrinks (expect p) :=
  (accept_shrinks p).bind fun
    | some _ => .pure rfl
    | none => .refuse _

theorem byteSpan_shrinks (span : Span) : Shrinks (byteSpan span) := by
  unfold byteSpan
  split
  · exact .pure rfl
  · exact .throw _

theorem reachedByte_shrinks : Shrinks reachedByte :=
  .get fun s => by
    split
    · exact .pure rfl
    · exact (byteSpan_shrinks _).bind fun _ => .pure rfl

theorem name_spends (role : Expected) : Spends (fun _ => 1) (name role) :=
  acceptName_spends.bindRound
    (fun _ => (byteSpan_shrinks _).bind fun _ => .pure rfl) (.refuse _)

theorem opened_shrinks (c : Construct) (t : Token) : Shrinks (opened c t) := by
  intro s a s' hs
  cases hs
  exact Nat.le_refl _

theorem close_shrinks : Shrinks close :=
  .get fun s => by
    split
    · exact .fail _
    · refine (expect_shrinks _).bind fun _ => ?_
      intro s a s' hs
      cases hs
      exact Nat.le_refl _

theorem separated_shrinks (declarations : String) : Shrinks (separated declarations) := by
  intro s a s' hs
  simp only [separated] at hs
  split at hs
  · cases hs; exact Nat.le_refl _
  · split at hs
    · cases hs; exact Nat.le_refl _
    · cases hs

theorem announce_shrinks (ahead : Nat) (level : Level) (text : String) :
    Shrinks (announce ahead level text) := by
  intro s a s' hs
  cases hs
  exact Nat.le_refl _

theorem deeper_shrinks {p : Parse α} (hp : Shrinks p) : Shrinks (deeper p) := by
  intro s a s' hs
  simp only [deeper] at hs
  split at hs
  · next a s1 h =>
    cases hs
    exact hp { s with depth := s.depth + 1 } a s1 h
  · cases hs

theorem collect_shrinks (step : Nat → Parse (Option α)) (h : ∀ n, Spends roundCost (step n))
    (n : Nat) : Shrinks (collect step h n) := by
  intro s
  induction hl : s.rest.length using Nat.strongRecOn generalizing n s with
  | ind k ih =>
    intro as s'' hs
    subst hl
    rw [collect] at hs
    split at hs
    · next s' hstep => cases hs; exact h n s _ _ hstep
    · next a s' hstep =>
      have h1 := h n s _ _ hstep
      simp only [roundCost] at h1
      split at hs
      · next as' s2 hrec =>
        have h2 := ih _ (by omega) (n + 1) s' rfl as' s2 hrec
        cases hs
        simp only at h2 ⊢
        omega
      · cases hs
    · cases hs

end ShapeSchema.Parse
