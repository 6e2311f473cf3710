import ShapeSchema.Proofs.DeclaredShapes
set_option autoImplicit false

namespace ShapeSchema

variable {H K σ : Type}

namespace Shape

structure Parameter.Equivalent (p : Parameter H) (q : Parameter K) : Prop where
  name : p.name = q.name
  type : p.type.isEquivalent q.type = true

structure Field.Equivalent (f : Field H) (g : Field K) : Prop where
  name : f.name = g.name
  parameters : List.Forall₂ Parameter.Equivalent f.parameters g.parameters
  type : f.type.isEquivalent g.type = true

inductive Equivalent : Shape H → Shape K → Prop
  | object {o : Object H} {p : Object K} : o.fieldNames = p.fieldNames →
      (∀ name, Option.Rel Field.Equivalent (o.field? name) (p.field? name)) →
      Equivalent (.object o) (.object p)
  | enum (e : Enum) : Equivalent (.enum e) (.enum e)

inductive OutcomesAgree : Except ParseError (Shape H) → Except ParseError (Shape K) → Prop
  | error (e : ParseError) : OutcomesAgree (.error e) (.error e)
  | ok {shape : Shape H} {other : Shape K} : shape.Equivalent other →
      OutcomesAgree (.ok shape) (.ok other)

end Shape

def Environment.update (env : Environment H) (name : String) (entry : Option H) : Environment H :=
  ⟨fun other => if other = name then entry else env.lookup other⟩

/-- The environments have the same entry for the name, unless a built-in scalar has it. -/
def Environment.AgreeAt (env known : Environment H) (name : String) : Prop :=
  Scalar.isBuiltin name = false → env.lookup name = known.lookup name

instance [DecidableEq H] (env known : Environment H) (name : String) :
    Decidable (env.AgreeAt known name) := inferInstanceAs (Decidable (_ → _))

namespace Syntax

/-- The type names that occur, as often as they do and in the order of the text. -/
def Block.typeNames (b : Block σ) : List String := b.types.map (·.leaf.text)

theorem Block.typeNames_map {τ : Type} (f : σ → τ) (b : Block σ) :
    (b.map f).typeNames = b.typeNames := by
  cases b with
  | enum values span => rfl
  | object fields span =>
    simp only [typeNames, map, types, List.flatMap_map, List.map_flatMap]
    refine congrArg (fields.flatMap ·) (funext fun d => ?_)
    simp [Field.types, Field.map, Parameter.map, Name.map]

section Equivalence

variable {env : Environment H} {other : Environment K}

theorem forall₂_of_common {α β γ : Type} {R : α → β → Prop} {S : α → γ → Prop} {T : β → γ → Prop}
    (common : ∀ a b c, R a b → S a c → T b c) {as : List α} {bs : List β} {cs : List γ}
    (hR : List.Forall₂ R as bs) (hS : List.Forall₂ S as cs) : List.Forall₂ T bs cs := by
  induction hR generalizing cs with
  | nil =>
    cases hS
    exact .nil
  | cons hb _ ih =>
    cases hS with
    | cons hc hS => exact .cons (common _ _ _ hb hc) (ih hS)

theorem rel_of_common {α β γ : Type} {R : α → β → Prop} {S : α → γ → Prop} {T : β → γ → Prop}
    (common : ∀ a b c, R a b → S a c → T b c) {a : Option α} {b : Option β} {c : Option γ}
    (hR : Option.Rel R a b) (hS : Option.Rel S a c) : Option.Rel T b c := by
  cases hR with
  | none =>
    cases hS
    exact .none
  | some hb =>
    cases hS with
    | some hc => exact .some (common _ _ _ hb hc)

theorem TypeExpr.Denotes.isEquivalent {t : TypeExpr σ} {type : ResolvedType H}
    {type' : ResolvedType K} (h : t.Denotes env type) (h' : t.Denotes other type') :
    type.isEquivalent type' = true := by
  induction h generalizing type' with
  | named =>
    cases h'
    simp [ResolvedType.isEquivalent]
  | list _ ih =>
    cases h' with
    | list h' => simp [ResolvedType.isEquivalent, ih h']

theorem Parameter.Denotes.equivalent {p : Parameter σ} {q : Shape.Parameter H}
    {q' : Shape.Parameter K} (h : p.Denotes env q) (h' : p.Denotes other q') : q.Equivalent q' :=
  ⟨h.name.trans h'.name.symm, h.type.isEquivalent h'.type⟩

theorem Field.Denotes.equivalent {d : Field σ} {f : Shape.Field H} {f' : Shape.Field K}
    (h : d.Denotes env f) (h' : d.Denotes other f') : f.Equivalent f' :=
  ⟨h.name.trans h'.name.symm,
    forall₂_of_common (T := Shape.Parameter.Equivalent) (fun _ _ _ hq hq' => hq.equivalent hq')
      h.parameters h'.parameters,
    h.type.isEquivalent h'.type⟩

theorem Block.Declares.equivalent {b : Block σ} {shape : Shape H} {shape' : Shape K}
    (h : b.Declares env shape) (h' : b.Declares other shape') : shape.Equivalent shape' := by
  cases b with
  | object fields span =>
    cases shape with
    | enum e => exact h.elim
    | object o =>
      cases shape' with
      | enum e => exact h'.elim
      | object p =>
        exact .object (h.1.trans h'.1.symm) fun name =>
          rel_of_common (T := Shape.Field.Equivalent) (fun _ _ _ hf hf' => hf.equivalent hf')
            (h.2 name) (h'.2 name)
  | enum values span =>
    cases shape with
    | object o => exact h.elim
    | enum e =>
      cases shape' with
      | object p => exact h'.elim
      | enum e' =>
        obtain ⟨listed, nodup⟩ := e
        obtain ⟨listed', nodup'⟩ := e'
        obtain rfl : listed = listed' := h.1.trans h'.1.symm
        exact .enum _

end Equivalence

end Syntax

theorem Shape.outcomesAgree (env : Environment H) (other : Environment K) (text : String) :
    OutcomesAgree (ofText? env text).value (ofText? other text).value := by
  rw [value_ofText?, value_ofText?]
  cases (Syntax.Block.ofText? text).value with
  | error e => exact .error e
  | ok b => exact .ok ((b.declares_resolve env).equivalent (b.declares_resolve other))

section Congruence

theorem Journal.bind_congr {α β : Type} (m : Journal α) {f g : α → Journal β}
    (same : f m.value = g m.value) : m >>= f = m >>= g := by
  refine ext ?_ ?_
  · rw [value_bind, value_bind, same]
  · rw [entries_bind, entries_bind, same]

theorem Journal.mapM_congr {α β : Type} {f g : α → Journal β} {as : List α}
    (same : ∀ a ∈ as, f a = g a) : as.mapM f = as.mapM g := by
  induction as with
  | nil => rfl
  | cons a as ih =>
    obtain ⟨here, later⟩ := List.forall_mem_cons.mp same
    rw [List.mapM_cons, List.mapM_cons, here, ih later]

theorem Journal.foldlM_congr {α β : Type} {f g : β → α → Journal β} {as : List α}
    (same : ∀ a ∈ as, ∀ b, f b a = g b a) (b : β) : as.foldlM f b = as.foldlM g b := by
  induction as generalizing b with
  | nil => rfl
  | cons a as ih =>
    obtain ⟨here, later⟩ := List.forall_mem_cons.mp same
    rw [List.foldlM_cons, List.foldlM_cons, here]
    exact congrArg _ (funext fun b => ih later b)

variable {env known : Environment H}

theorem Environment.AgreeAt.resolve {name : String} (h : env.AgreeAt known name) :
    env.resolve name = known.resolve name := by
  unfold Environment.resolve Asking.resolve
  cases hs : Scalar.ofName? name with
  | some s => rfl
  | none =>
    have answer : env.lookup name = known.lookup name := h (by rw [Scalar.isBuiltin, hs]; rfl)
    have asked : env.ask name = known.ask name := Journal.ext answer rfl
    rw [asked]

namespace Syntax

theorem TypeExpr.resolve_congr {t : TypeExpr σ} (h : env.AgreeAt known t.leaf.text) :
    t.resolve env.ask = t.resolve known.ask := by
  induction t with
  | named name bang span =>
    have same : env.ask.resolve name.text = known.ask.resolve name.text := h.resolve
    rw [resolve, resolve, same]
  | list element bang span ih => rw [resolve, resolve, ih h]

theorem Field.resolve_congr {d : Field σ} (h : ∀ t ∈ d.types, env.AgreeAt known t.leaf.text) :
    d.resolve env.ask = d.resolve known.ask := by
  rw [Field.types, List.forall_mem_append, List.forall_mem_map, List.forall_mem_singleton] at h
  have parameters : d.parameters.mapM (Parameter.resolve env.ask) =
      d.parameters.mapM (Parameter.resolve known.ask) :=
    Journal.mapM_congr fun p hp => by
      rw [Parameter.resolve, Parameter.resolve, TypeExpr.resolve_congr (h.1 p hp)]
  rw [resolve, resolve, parameters, TypeExpr.resolve_congr h.2]

theorem Block.resolve_congr {b : Block σ} (h : ∀ name ∈ b.typeNames, env.AgreeAt known name) :
    b.resolve env.ask = b.resolve known.ask := by
  cases b with
  | enum values span => rfl
  | object fields span =>
    have agree : ∀ d ∈ fields, ∀ t ∈ d.types, env.AgreeAt known t.leaf.text := fun d hd t ht =>
      h _ (List.mem_map.mpr ⟨t, List.mem_flatMap.mpr ⟨d, hd, ht⟩, rfl⟩)
    have declared : ∀ d ∈ fields, ∀ o, d.declare env.ask o = d.declare known.ask o := fun d hd o => by
      rw [Field.declare, Field.declare, Field.resolve_congr (agree d hd)]
    rw [resolve, resolve, resolveFields, resolveFields, Journal.foldlM_congr declared]

end Syntax

theorem Shape.ofText?_congr {text : String}
    (h : ∀ b, (Syntax.Block.ofText? text).value = .ok b →
      ∀ name ∈ b.typeNames, env.AgreeAt known name) :
    ofText? env text = ofText? known text := by
  unfold ofText? ofTextAsking?
  refine Journal.bind_congr _ (Journal.bind_congr _ ?_)
  cases hb : (Syntax.Block.ofText? text).value with
  | error e => rfl
  | ok b =>
    dsimp only
    rw [Syntax.Block.resolve_congr (h b hb)]

end Congruence

namespace Shape

/-- Environments cannot make a text fail or succeed, or change anything in its shape but the meaning
    of type names. With the same entries for the names that occur and are no built-in scalars, they
    give the same shape and the same journal; so a new entry for another name changes nothing. -/
theorem ofText?_environment (text : String) :
    (∀ (env : Environment H) (other : Environment K),
      OutcomesAgree (ofText? env text).value (ofText? other text).value) ∧
    (∀ env known : Environment H,
      (∀ b, (Syntax.Block.ofText? text).value = .ok b →
        ∀ name ∈ b.typeNames, env.AgreeAt known name) → ofText? env text = ofText? known text) ∧
    ∀ (env : Environment H) (name : String) (entry : Option H),
      (Scalar.isBuiltin name = true ∨ ∀ b, (Syntax.Block.ofText? text).value = .ok b →
        name ∉ b.typeNames) → ofText? (env.update name entry) text = ofText? env text := by
  refine ⟨fun env other => outcomesAgree env other text, fun env known => ofText?_congr, ?_⟩
  intro env name entry unused
  refine ofText?_congr fun b hb occurring hoccurring plain => ?_
  have apart : occurring ≠ name := by
    rintro rfl
    rcases unused with builtin | absent
    · rw [builtin] at plain
      cases plain
    · exact absent b hb hoccurring
  exact if_neg apart

theorem ofText?_environment_other_entries :
    ∃ b, (Syntax.Block.ofText? "\x7ba:[T!] b(x:U):Int\x7d").value = .ok b ∧
      b.typeNames = ["T", "U", "Int"] ∧
      ofText? ⟨fun n => if n = "T" then some n.length else none⟩ "\x7ba:[T!] b(x:U):Int\x7d" =
        ofText? ⟨fun n => if n = "T" ∨ n = "Int" ∨ n = "V" then some n.length else none⟩
          "\x7ba:[T!] b(x:U):Int\x7d" ∧
      ofText? (Environment.empty.update "V" (some 0)) "\x7ba:[T!] b(x:U):Int\x7d" =
        ofText? Environment.empty "\x7ba:[T!] b(x:U):Int\x7d" := by
  have size : "\x7ba:[T!] b(x:U):Int\x7d".utf8ByteSize ≤ ByteSpan.limit := by decide
  obtain ⟨b, hb, bare⟩ := (Syntax.Block.exists_read_iff (Token.fits_of_mem_ofText size)
    (b := .object
      [⟨⟨"a", ()⟩, [], .list (.named ⟨"T", ()⟩ (some ()) ()) none (), ()⟩,
        ⟨⟨"b", ()⟩, [⟨⟨"x", ()⟩, .named ⟨"U", ()⟩ none (), ()⟩], .named ⟨"Int", ()⟩ none (), ()⟩]
      ())).mpr (by decide +kernel)
  have names : b.typeNames = ["T", "U", "Int"] := by
    rw [← b.typeNames_map fun _ => ()]
    change b.bare.typeNames = _
    rw [bare]
    rfl
  refine ⟨b, hb, names, (ofText?_environment (K := Nat) _).2.1 _ _ ?_,
    (ofText?_environment (K := Nat) _).2.2 _ _ _ (.inr ?_)⟩
  · intro c hc
    obtain rfl : b = c := Except.ok.inj (hb.symm.trans hc)
    rw [names]
    decide +kernel
  · intro c hc
    obtain rfl : b = c := Except.ok.inj (hb.symm.trans hc)
    rw [names]
    decide

end Shape

end ShapeSchema
