import ShapeSchema.Proofs.CanonicalTokens
import ShapeSchema.Proofs.MachineLockstep
import ShapeSchema.Proofs.MachineVerdicts
import ShapeSchema.Proofs.PrintedTrees
import ShapeSchema.Shape.Resolve
set_option autoImplicit false

namespace ShapeSchema

namespace Syntax

variable {H σ τ : Type} (ask : Asking H) (f : σ → τ)

theorem TypeExpr.resolve_map (t : TypeExpr σ) : (t.map f).resolve ask = t.resolve ask := by
  induction t with
  | named name bang span => rw [map, resolve, resolve, Option.isNone_map, Name.map]
  | list element bang span ih => rw [map, resolve, resolve, Option.isNone_map, ih]

theorem Parameter.resolve_map (p : Parameter σ) : (p.map f).resolve ask = p.resolve ask := by
  rw [map, resolve, TypeExpr.resolve_map]
  rfl

theorem Field.resolve_map (d : Field σ) : (d.map f).resolve ask = d.resolve ask := by
  rw [map, resolve, List.mapM_map, TypeExpr.resolve_map]
  simp only [Function.comp_def, Parameter.resolve_map]
  rfl

theorem Block.resolve_map (b : Block σ) : (b.map f).resolve ask = b.resolve ask := by
  cases b with
  | object fields span =>
    have declare (o : Shape.Object H) (d : Field σ) : (d.map f).declare ask o = d.declare ask o := by
      rw [Field.declare, Field.resolve_map]
      rfl
    rw [map, resolve, resolve, resolveFields, List.foldlM_map]
    simp only [declare]
    rfl
  | enum values span =>
    rw [map, resolve, resolve, resolveValues, List.map_map, List.length_map]
    rfl

end Syntax

/-- Tokens and the same tokens without separators that can be spared are alike. -/
theorem tokensAlike_of_spare {closed : Bool} {ts us : List Token}
    (same : us.map Token.mark = Mark.spare closed (ts.map Token.mark))
    (fit : ∀ t ∈ ts, t.span.Fits) (fit' : ∀ u ∈ us, u.span.Fits) : TokensAlike closed ts us := by
  induction ts generalizing closed us with
  | nil =>
    obtain rfl := List.map_eq_nil_iff.mp same
    trivial
  | cons t ts ih =>
    obtain ⟨u, us, rfl, hu, hus⟩ := List.map_eq_cons_iff.mp same
    have kind : u.kind = t.kind := congrArg Mark.kind hu
    have apart : u.isSeparated = (t.isSeparated && closed && t.kind.startsDeclaration) :=
      congrArg Mark.apart hu
    refine ⟨⟨kind.symm, fit t (by simp), fit' u (by simp), ?_⟩, ?_⟩
    · intro gap starts
      rw [apart, gap, starts, Bool.and_true, Bool.and_true]
    · exact ih hus (fun t h => fit t (List.mem_cons_of_mem _ h))
        fun u h => fit' u (List.mem_cons_of_mem _ h)

theorem tokensAlike_canonical {text : String} (size : text.utf8ByteSize ≤ ByteSpan.limit) :
    TokensAlike false (Token.ofText text) (Token.ofText (canonical text)) := by
  have shorter := (utf8ByteSize_canonical_le text).trans size
  exact tokensAlike_of_spare (Token.map_mark_ofText_canonical text) (Token.fits_of_mem_ofText size)
    (Token.fits_of_mem_ofText shorter)

namespace Syntax.Block

theorem verdict_canonical {text : String} (size : text.utf8ByteSize ≤ ByteSpan.limit) :
    outcomeWords ((ofText? text).value.map fun _ => ()) =
      outcomeWords ((ofText? (canonical text)).value.map fun _ => ()) := by
  rw [value_ofText?, value_ofText?, map_value_ofTokens?, map_value_ofTokens?]
  have start : Place.Alike ⟨[], none⟩ ⟨[], none⟩ := ⟨rfl, nofun, nofun⟩
  exact run_alike (tokensAlike_canonical size) start rfl nofun

theorem bare_canonical {text : String} (size : text.utf8ByteSize ≤ ByteSpan.limit)
    {b c : Block ByteSpan} (hb : (ofText? text).value = .ok b)
    (hc : (ofText? (canonical text)).value = .ok c) : b.bare = c.bare := by
  have shorter := (utf8ByteSize_canonical_le text).trans size
  exact eq_of_writtenBy (Token.fits_of_mem_ofText shorter) (bare_writtenBy size hb).canonical
    (bare_writtenBy shorter hc)

end Syntax.Block

namespace Shape

variable {H : Type}

theorem value_ofTextAsking? (ask : Asking H) (text : String) :
    (ofTextAsking? ask text).value =
      (Syntax.Block.ofText? text).value.map fun block => (block.resolve ask).value := by
  simp only [ofTextAsking?, Journal.value_bind]
  cases (Syntax.Block.ofText? text).value <;> rfl

theorem value_ofText? (env : Environment H) (text : String) :
    (ofText? env text).value =
      (Syntax.Block.ofText? text).value.map fun block => (block.resolve env.ask).value :=
  value_ofTextAsking? env.ask text

theorem value_ofText?_of_bare (env : Environment H) {text : String} {b : Syntax.Block ByteSpan}
    {tree : Syntax.Block Unit} (h : (Syntax.Block.ofText? text).value = .ok b)
    (bare : b.bare = tree) : (ofText? env text).value = .ok (tree.resolve env.ask).value := by
  rw [value_ofText?, h, ← bare, Syntax.Block.bare, Syntax.Block.resolve_map]
  rfl

theorem words_ofText?_of_run {env : Environment H} {text : String}
    {words : String × Cause × List (Note.Kind × String)}
    (h : outcomeWords (run .start ⟨[], none⟩ (Token.ofText text)) = .error words) :
    outcomeWords (ofText? env text).value = .error words := by
  rw [← Syntax.Block.map_value_ofTokens?, ← Syntax.Block.value_ofText?] at h
  rw [value_ofText?]
  cases hb : (Syntax.Block.ofText? text).value with
  | error e =>
    rw [hb] at h
    have same : e.words = words := Except.error.inj h
    exact congrArg Except.error same
  | ok b =>
    rw [hb] at h
    cases h

/-- A text and its canonical form declare the same shape, or are refused with the same message, for
    the same cause, and with the same notes. -/
theorem ofText?_canonical (env : Environment H) (text : String)
    (size : text.utf8ByteSize ≤ ByteSpan.limit) :
    outcomeWords (ofText? env text).value = outcomeWords (ofText? env (canonical text)).value := by
  have verdict := Syntax.Block.verdict_canonical size
  rw [value_ofText?, value_ofText?]
  cases hb : (Syntax.Block.ofText? text).value with
  | error e =>
    cases hc : (Syntax.Block.ofText? (canonical text)).value with
    | error f =>
      rw [hb, hc] at verdict
      have words : e.words = f.words := Except.error.inj verdict
      exact congrArg Except.error words
    | ok c =>
      rw [hb, hc] at verdict
      cases verdict
  | ok b =>
    cases hc : (Syntax.Block.ofText? (canonical text)).value with
    | error f =>
      rw [hb, hc] at verdict
      cases verdict
    | ok c =>
      have bare := Syntax.Block.bare_canonical size hb hc
      have resolved : b.resolve env.ask = c.resolve env.ask := by
        rw [← b.resolve_map env.ask fun _ => (), ← c.resolve_map env.ask fun _ => ()]
        exact congrArg (Syntax.Block.resolve env.ask) bare
      exact congrArg (fun shape => Except.ok shape.value) resolved

theorem ofText?_canonical_missing_colon :
    canonical "\x7b a ;\n b : T \x7d" = "\x7ba b:T\x7d" ∧
      outcomeWords (ofText? (.empty : Environment Nat) "\x7b a ;\n b : T \x7d").value =
        .error ("expected `:`, found `b`", .unexpectedToken ["`:`"] "b",
          [(.help, "declarations need a `:` between the name and its type, e.g. `a: Type`")]) ∧
      outcomeWords (ofText? (.empty : Environment Nat) "\x7b a ;\n b : T \x7d").value =
        outcomeWords (ofText? (.empty : Environment Nat) "\x7ba b:T\x7d").value := by
  have size : "\x7b a ;\n b : T \x7d".utf8ByteSize ≤ ByteSpan.limit := by decide
  have spaced : canonical "\x7b a ;\n b : T \x7d" = "\x7ba b:T\x7d" := by decide +kernel
  have same := ofText?_canonical (.empty : Environment Nat) _ size
  rw [spaced] at same
  exact ⟨spaced, words_ofText?_of_run (by decide +kernel), same⟩

end Shape

end ShapeSchema
