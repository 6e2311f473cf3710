import ShapeSchema.Proofs.ReadingComplete
import ShapeSchema.Syntax.Reading
set_option autoImplicit false

namespace ShapeSchema

/-- The tokens in front of the first end of input. -/
def significant (ts : List Token) : List Token := ts.takeWhile fun t => t.kind ≠ .endOfInput

theorem significant_append_dropWhile (ts : List Token) :
    ts = significant ts ++ ts.dropWhile fun t => t.kind ≠ .endOfInput :=
  List.takeWhile_append_dropWhile.symm

theorem atEnd_dropWhile (ts : List Token) :
    Parse.AtEnd (ts.dropWhile fun t => t.kind ≠ .endOfInput) := by
  intro t ht
  have h := List.head?_dropWhile_not (fun t : Token => decide (t.kind ≠ .endOfInput)) ts
  rw [ht] at h
  simpa using h

theorem significant_append {us rest : List Token} (h : ∀ t ∈ us, t.kind ≠ .endOfInput)
    (hend : Parse.AtEnd rest) : significant (us ++ rest) = us := by
  have none : rest.takeWhile (fun t => decide (t.kind ≠ .endOfInput)) = [] := by
    cases rest with
    | nil => rfl
    | cons t rest => simp [hend t rfl]
  rw [significant, List.takeWhile_append_of_pos (by simpa using h), none, List.append_nil]

namespace Syntax.Block

/-- A token list writes down a tree: its tokens spell the tree, which the nesting limit admits. -/
def WrittenBy {σ : Type} (b : Block σ) (ts : List Token) : Prop :=
  b.Shallow ∧ Spells b.marks (significant ts)

instance {σ : Type} (b : Block σ) (ts : List Token) : Decidable (b.WrittenBy ts) :=
  inferInstanceAs (Decidable (_ ∧ _))

theorem value_ofTokens?_eq_ok {ts : List Token} {b : Block ByteSpan} :
    (ofTokens? ts).value = .ok b ↔ ∃ s, Parse.block (.ofTokens ts) = .ok b s := by
  have unfolded : (ofTokens? ts).value = (readTokens ts).1 := rfl
  rw [unfolded, readTokens]
  cases Parse.block (.ofTokens ts) with
  | ok c s => simp
  | error e s => simp

theorem kind_of_spells {σ : Type} {b : Block σ} {ts : List Token} (h : Spells b.marks ts) :
    ∀ t ∈ ts, t.kind ≠ .endOfInput ∧ ∀ message notes, t.kind ≠ .invalid message notes := by
  intro t ht
  obtain ⟨m, hm, meets⟩ := h.exists_mark ht
  rw [meets.1]
  exact (b.kindFrom_marks m hm).plain

/-- What is read lies over the tokens in front of the end of input. -/
theorem over_of_value_ofTokens? {ts : List Token} {b : Block ByteSpan}
    (h : (ofTokens? ts).value = .ok b) : b.Over (significant ts) ∧ b.Shallow := by
  obtain ⟨s, h⟩ := value_ofTokens?_eq_ok.mp h
  obtain ⟨us, hm, hover, hflat, hend⟩ := Parse.block_yields rfl h
  have hts : ts = us ++ s.rest := hm.rest
  have same : significant ts = us := by
    rw [hts]
    exact significant_append (fun t ht => (kind_of_spells hover.spells t ht).1) hend
  exact ⟨same ▸ hover, hflat⟩

theorem ofTokens?_eq_ok_iff_over {ts : List Token} (fit : Fit ts) {b : Block ByteSpan} :
    (ofTokens? ts).value = .ok b ↔ b.Over (significant ts) ∧ b.Shallow := by
  constructor
  · exact over_of_value_ofTokens?
  · rintro ⟨hover, hflat⟩
    have split := significant_append_dropWhile ts
    have fitLeft : Fit (significant ts) := Fit.left (split ▸ fit)
    obtain ⟨s, h, -⟩ := Parse.block_consumes (s := .ofTokens ts) hover hflat split
      (atEnd_dropWhile ts) fitLeft rfl
    exact value_ofTokens?_eq_ok.mpr ⟨s, h⟩

theorem exists_read_iff {ts : List Token} (fit : Fit ts) {b : Block Unit} :
    (∃ block, (ofTokens? ts).value = .ok block ∧ block.bare = b) ↔ b.WrittenBy ts := by
  simp only [ofTokens?_eq_ok_iff_over fit, WrittenBy]
  constructor
  · rintro ⟨block, ⟨hover, hflat⟩, rfl⟩
    refine ⟨(shallow_map _ _).mpr hflat, ?_⟩
    rw [marks_bare]
    exact hover.spells
  · rintro ⟨hflat, hspells⟩
    obtain ⟨block, hover, same⟩ := Block.Over.of_spells hspells
    have bare : block.bare = b := same.trans b.bare_unit
    have flat : block.Shallow := by
      rw [← bare] at hflat
      exact (shallow_map _ _).mp hflat
    exact ⟨block, ⟨hover, flat⟩, bare⟩

theorem eq_of_writtenBy {ts : List Token} (fit : Fit ts) {b c : Block Unit} (hb : b.WrittenBy ts)
    (hc : c.WrittenBy ts) : b = c := by
  obtain ⟨block, hblock, rfl⟩ := (exists_read_iff fit).mpr hb
  obtain ⟨block', hblock', rfl⟩ := (exists_read_iff fit).mpr hc
  rw [hblock] at hblock'
  cases hblock'
  rfl

/-- Reading accepts exactly the grammar, and the tree is determined up to spans. In particular an
    invalid token in front of the first end of input is never accepted. -/
theorem ofTokens?_accepts_grammar (ts : List Token) (fit : ∀ t ∈ ts, t.span.Fits) :
    (∀ b : Block Unit,
      (∃ block, (ofTokens? ts).value = .ok block ∧ block.bare = b) ↔ b.WrittenBy ts) ∧
    (∀ b c : Block Unit, b.WrittenBy ts → c.WrittenBy ts → b = c) ∧
    ∀ t ∈ significant ts, ∀ message notes, t.kind = .invalid message notes →
      ∀ block, (ofTokens? ts).value ≠ .ok block := by
  refine ⟨fun b => exists_read_iff fit, fun b c => eq_of_writtenBy fit, ?_⟩
  intro t ht message notes hk block hread
  obtain ⟨hover, -⟩ := (ofTokens?_eq_ok_iff_over fit).mp hread
  exact (kind_of_spells hover.spells t ht).2 message notes hk

theorem ofTokens?_accepts_two_fields :
    (∀ t ∈ Token.ofText "\x7ba:[Int!]! b(x:T,y:[U]):V\x7d ;", t.span.Fits) ∧
      ∃ block, (ofTokens? (Token.ofText "\x7ba:[Int!]! b(x:T,y:[U]):V\x7d ;")).value = .ok block ∧
        block.bare = .object
          [⟨⟨"a", ()⟩, [], .list (.named ⟨"Int", ()⟩ (some ()) ()) (some ()) (), ()⟩,
            ⟨⟨"b", ()⟩,
              [⟨⟨"x", ()⟩, .named ⟨"T", ()⟩ none (), ()⟩,
                ⟨⟨"y", ()⟩, .list (.named ⟨"U", ()⟩ none ()) none (), ()⟩],
              .named ⟨"V", ()⟩ none (), ()⟩] () := by
  have fit : ∀ t ∈ Token.ofText "\x7ba:[Int!]! b(x:T,y:[U]):V\x7d ;", t.span.Fits := by
    decide +kernel
  exact ⟨fit, ((ofTokens?_accepts_grammar _ fit).1 _).mpr (by decide +kernel)⟩

end Syntax.Block

end ShapeSchema
