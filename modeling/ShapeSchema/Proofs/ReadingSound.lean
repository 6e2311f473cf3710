import ShapeSchema.Proofs.TreeOver
set_option autoImplicit false

namespace ShapeSchema.Parse

open Syntax

variable {α : Type} {s s' : Cursor}

/-- Every result of `p` lies over the tokens read for it. -/
def Yields (p : Parse α) (R : α → List Token → Prop) : Prop :=
  ∀ {s a s'}, s.depth = 0 → p s = .ok a s' → ∃ us, s.Moves us s' ∧ R a us

theorem extent_of_reached {t : Token} {us : List Token} {stop : Nat} {s'' : Cursor}
    (h : s.Moves (t :: us) s') (hr : reachedByte s' = .ok stop s'') :
    s'' = s' ∧ extent (t :: us) = ⟨t.span.start.offset, stop⟩ := by
  obtain ⟨rfl, -, rfl⟩ := reachedByte_eq_ok.mp hr
  exact ⟨rfl, h.extent_eq⟩

theorem bang_yields {mark : Option ByteSpan} (h : bang s = .ok mark s') :
    ∃ us, s.Moves us s' ∧ BangOver mark us := by
  simp only [bang, bind_eq_ok] at h
  obtain ⟨o, s1, h1, h⟩ := h
  cases o with
  | none =>
    obtain ⟨rfl, -⟩ := accept_eq_none.mp h1
    obtain ⟨rfl, rfl⟩ := pure_eq_ok.mp h
    exact ⟨[], .refl _, .none⟩
  | some t =>
    obtain ⟨ht, hr⟩ := accept_eq_some.mp h1
    simp only [bind_eq_ok, byteSpan_eq_ok, pure_eq_ok] at h
    obtain ⟨_, _, ⟨-, rfl, rfl⟩, rfl, rfl⟩ := h
    exact ⟨[t], hr.moves, .some ht⟩

theorem name_yields {role : Expected} {n : Name ByteSpan} (h : name role s = .ok n s') :
    ∃ t, s.Moves [t] s' ∧ n.Over t := by
  obtain ⟨t, ht, hn, -, hr⟩ := name_eq_ok.mp h
  exact ⟨t, hr.moves, ht, hn⟩

theorem moves_enclosed {c : Construct} {t : Token} {inner : List Token} {s1 s2 s3 s4 : Cursor}
    (hopen : opened c t s1 = .ok () s2) (hinner : s2.Moves inner s3)
    (hclose : close s3 = .ok () s4) :
    ∃ u, u.kind = .punctuator c.closer ∧ s1.Moves (inner ++ [u]) s4 := by
  have hs2 := opened_eq_ok.mp hopen
  obtain ⟨opener, outer, u, s5, ho, hu, hr, rfl⟩ := close_eq_ok.mp hclose
  have same : s3.openers = ⟨c, t.span⟩ :: s1.openers := by rw [hinner.openers, hs2]
  rw [ho] at same
  cases same
  refine ⟨u, hu, ?_, rfl, ?_, ?_⟩
  · rw [List.append_assoc, ← hr.moves.rest, ← hinner.rest, hs2]
  · change s5.depth = s1.depth
    rw [hr.moves.depth, hinner.depth, hs2]
  · change s5.lastEnd = _
    rw [(hinner.trans hr.moves).lastEnd, hs2]

theorem typeRule_yields {element : Parse (TypeExpr ByteSpan)} {levels : Nat}
    (he : ∀ {s a s'}, element s = .ok a s' → ∃ us, s.Moves us s' ∧ a.Over us ∧ a.depth < levels)
    {type : TypeExpr ByteSpan} (h : typeRule element s = .ok type s') :
    ∃ us, s.Moves us s' ∧ type.Over us ∧ type.depth < levels + 1 := by
  simp only [typeRule, bind_eq_ok] at h
  obtain ⟨o, s1, h1, h⟩ := h
  cases o with
  | none =>
    obtain ⟨rfl, -⟩ := accept_eq_none.mp h1
    simp only [bind_eq_ok, pure_eq_ok] at h
    obtain ⟨n, s2, hn, mark, s3, hb, stop, s4, hr, rfl, rfl⟩ := h
    obtain ⟨t, hm, hover⟩ := name_yields hn
    obtain ⟨us, hm', hbang⟩ := bang_yields hb
    obtain ⟨rfl, he⟩ := extent_of_reached (hm.trans hm') hr
    refine ⟨t :: us, hm.trans hm', ?_, Nat.succ_pos _⟩
    rw [hover.2]
    exact he ▸ .named hover hbang
  | some bracket =>
    obtain ⟨ht, hread⟩ := accept_eq_some.mp h1
    simp only [bind_eq_ok, pure_eq_ok, byteSpan_eq_ok] at h
    obtain ⟨_, _, ⟨-, rfl, rfl⟩, u, s2, ho, inner, s3, hi, u', s4, hc, mark, s5, hb, stop, s6, hr,
      rfl, rfl⟩ := h
    obtain ⟨us, hmi, hover, hdepth⟩ := he hi
    obtain ⟨closing, hk, hmc⟩ := moves_enclosed ho hmi hc
    obtain ⟨vs, hmb, hbang⟩ := bang_yields hb
    have moves := (hread.moves.trans hmc).trans hmb
    have shape : [bracket] ++ (us ++ [closing]) ++ vs = bracket :: (us ++ closing :: vs) := by simp
    rw [shape] at moves
    obtain ⟨rfl, hext⟩ := extent_of_reached moves hr
    refine ⟨_, moves, ?_, Nat.succ_lt_succ hdepth⟩
    exact hext ▸ .list ht hover hk hbang

theorem typeWithin_yields (levels : Nat) {type : TypeExpr ByteSpan}
    (h : typeWithin levels s = .ok type s') :
    ∃ us, s.Moves us s' ∧ type.Over us ∧ type.depth < levels := by
  induction levels generalizing s s' type with
  | zero => exact absurd h fail_ne_ok
  | succ levels ih =>
    obtain ⟨s1, h1, rfl⟩ := deeper_eq_ok.mp h
    obtain ⟨us, hm, hover, hdepth⟩ := typeRule_yields ih h1
    refine ⟨us, ⟨hm.rest, hm.openers, ?_, hm.lastEnd⟩, hover, hdepth⟩
    change s1.depth - 1 = s.depth
    rw [hm.depth]
    rfl

theorem typeExpr_yields :
    Yields typeExpr fun t us => t.Over us ∧ t.depth < maxDepth := by
  intro s t s' hd h
  rw [typeExpr, hd] at h
  exact typeWithin_yields _ h

theorem colonAfter_yields {n : String} {u : Unit} (h : colonAfter n s = .ok u s') :
    ∃ t, s.Moves [t] s' ∧ t.kind = .punctuator .colon := by
  simp only [colonAfter, bind_eq_ok] at h
  obtain ⟨o, s1, h1, h⟩ := h
  cases o with
  | none => exact absurd h fail_ne_ok
  | some t =>
    obtain ⟨ht, hr⟩ := accept_eq_some.mp h1
    obtain ⟨-, rfl⟩ := pure_eq_ok.mp h
    exact ⟨t, hr.moves, ht⟩

theorem parameter_yields :
    Yields parameter fun p us => p.Over us ∧ p.type.depth < maxDepth := by
  intro s p s' hd h
  simp only [parameter, bind_eq_ok, pure_eq_ok] at h
  obtain ⟨n, s1, hn, u, s2, hc, type, s3, ht, stop, s4, hr, rfl, rfl⟩ := h
  obtain ⟨t, hm, hover⟩ := name_yields hn
  obtain ⟨colon, hmc, hcolon⟩ := colonAfter_yields hc
  have depth : s2.depth = 0 := by rw [hmc.depth, hm.depth, hd]
  obtain ⟨us, hmt, hot, hdepth⟩ := typeExpr_yields depth ht
  have moves := (hm.trans hmc).trans hmt
  obtain ⟨rfl, hext⟩ := extent_of_reached moves hr
  refine ⟨_, moves, ?_, hdepth⟩
  rw [hover.2]
  exact hext ▸ .mk hover hcolon hot

/-- A repetition yields a sequence when its steps from `k` on yield the items. -/
theorem collect_yields {step : Nat → Parse (Option α)} {h : ∀ n, Spends roundCost (step n)}
    {R : α → List Token → Prop} {k : Nat}
    (hlast : ∀ {n s s'}, step n s = .ok none s' → s' = s)
    (hstep : ∀ {n s a s'}, k ≤ n → s.depth = 0 → step n s = .ok (some a) s' →
      ∃ us, s.Moves us s' ∧ R a us)
    {n : Nat} {as : List α} (hn : k ≤ n) (hd : s.depth = 0) (hc : collect step h n s = .ok as s') :
    ∃ us, s.Moves us s' ∧ Sequence R as us := by
  induction as generalizing n s with
  | nil =>
    rw [hlast (collect_eq_nil.mp hc)]
    exact ⟨[], .refl s, .nil⟩
  | cons a as ih =>
    obtain ⟨s1, h1, hc⟩ := collect_eq_cons.mp hc
    obtain ⟨us, hm, ha⟩ := hstep hn hd h1
    obtain ⟨vs, hm', has⟩ := ih (Nat.le_succ_of_le hn) (hm.depth.trans hd) hc
    exact ⟨us ++ vs, hm.trans hm', .cons ha has⟩

theorem parameterAfterComma_none (h : parameterAfterComma s = .ok none s') : s' = s := by
  simp only [parameterAfterComma, bind_eq_ok] at h
  obtain ⟨o, s1, h1, h⟩ := h
  cases o with
  | none =>
    obtain ⟨rfl, -⟩ := accept_eq_none.mp h1
    exact (pure_eq_ok.mp h).2
  | some t =>
    obtain ⟨p, s2, -, h⟩ := bind_eq_ok.mp h
    cases (pure_eq_ok.mp h).1

theorem parameterAfterComma_some {p : Parameter ByteSpan} (hd : s.depth = 0)
    (h : parameterAfterComma s = .ok (some p) s') :
    ∃ us, s.Moves us s' ∧ p.OverComma us ∧ p.type.depth < maxDepth := by
  simp only [parameterAfterComma, bind_eq_ok] at h
  obtain ⟨o, s1, h1, h⟩ := h
  cases o with
  | none => cases (pure_eq_ok.mp h).1
  | some t =>
    obtain ⟨ht, hr⟩ := accept_eq_some.mp h1
    simp only [bind_eq_ok, pure_eq_ok] at h
    obtain ⟨p, s2, hp, ⟨⟩, rfl⟩ := h
    obtain ⟨us, hm, hover, hdepth⟩ := parameter_yields (hr.moves.depth.trans hd) hp
    exact ⟨t :: us, hr.moves.trans hm, .mk ht hover, hdepth⟩

theorem endOfParameters_yields {u : Unit} (h : endOfParameters s = .ok u s') : s' = s := by
  simp only [endOfParameters, bind_eq_ok, nextIs_eq_ok] at h
  obtain ⟨b, s1, ⟨-, rfl⟩, h⟩ := h
  cases b with
  | true => exact (pure_eq_ok.mp h).2
  | false => exact absurd h (by simp [fail])

theorem parameters_yields :
    Yields parameters fun ps us => ParametersOver ps us ∧ ∀ p ∈ ps, p.type.depth < maxDepth := by
  intro s ps s' hd h
  simp only [parameters, bind_eq_ok, expect_eq_ok] at h
  obtain ⟨paren, s1, ⟨hp, hread⟩, u, s2, ho, o, s3, h3, h⟩ := h
  cases o with
  | some closing => exact absurd h throw_ne_ok
  | none =>
    obtain ⟨rfl, -⟩ := accept_eq_none.mp h3
    simp only [parameterItems, bind_eq_ok, collect_bind_eq_ok, pure_eq_ok] at h
    obtain ⟨_, s4, ⟨first, s5, hf, more, s6, hm, _, s7, he, rfl, rfl⟩, _, s8, hc, rfl, rfl⟩ := h
    obtain rfl := endOfParameters_yields he
    have depth : s3.depth = 0 := by rw [opened_eq_ok.mp ho, ← hd, ← hread.moves.depth]
    obtain ⟨us, hmoves, hover, hdepth⟩ := parameter_yields depth hf
    obtain ⟨vs, hmoves', hseq⟩ := collect_yields (R := fun p us => p.OverComma us ∧
        p.type.depth < maxDepth) parameterAfterComma_none (fun _ => parameterAfterComma_some)
      (Nat.zero_le 0) (hmoves.depth.trans depth) hm
    obtain ⟨closing, hk, enclosed⟩ := moves_enclosed ho (hmoves.trans hmoves') hc
    obtain ⟨hseq, hall⟩ := hseq.forall_of_and
    exact ⟨_, hread.moves.trans enclosed, .some hp hover hseq hk, by simpa using ⟨hdepth, hall⟩⟩

theorem parametersIfAny_yields : Yields parametersIfAny fun ps us =>
    ParametersOver ps us ∧ ∀ p ∈ ps, p.type.depth < maxDepth := by
  intro s ps s' hd h
  simp only [parametersIfAny, bind_eq_ok, nextIs_eq_ok] at h
  obtain ⟨b, s1, ⟨-, rfl⟩, h⟩ := h
  cases b with
  | true => exact parameters_yields hd h
  | false =>
    obtain ⟨rfl, rfl⟩ := pure_eq_ok.mp h
    exact ⟨[], .refl _, .none, by simp⟩

theorem field_yields :
    Yields field fun d us => d.Over us ∧ ∀ t ∈ d.types, t.depth < maxDepth := by
  intro s d s' hd h
  simp only [field, bind_eq_ok, pure_eq_ok] at h
  obtain ⟨n, s1, hn, ps, s2, hp, _, s3, hc, type, s4, ht, stop, s5, hr, rfl, rfl⟩ := h
  obtain ⟨t, hm, hover⟩ := name_yields hn
  obtain ⟨us, hmp, hps, hall⟩ := parametersIfAny_yields (hm.depth.trans hd) hp
  obtain ⟨colon, hmc, hcolon⟩ := colonAfter_yields hc
  have depth : s3.depth = 0 := by rw [hmc.depth, hmp.depth, hm.depth, hd]
  obtain ⟨vs, hmt, hot, hdepth⟩ := typeExpr_yields depth ht
  have moves := ((hm.trans hmp).trans hmc).trans hmt
  have shape : [t] ++ us ++ [colon] ++ vs = t :: (us ++ colon :: vs) := by simp
  rw [shape] at moves
  obtain ⟨rfl, hext⟩ := extent_of_reached moves hr
  refine ⟨_, moves, ?_, ?_⟩
  · rw [hover.2]
    exact hext ▸ .mk hover hps hcolon hot
  · simpa [Field.types, or_imp, forall_and] using ⟨hall, hdepth⟩

theorem declaration_none {role : Expected} {plural : String} {n : Nat} {item : Parse α}
    (h : declaration role plural n item s = .ok none s') : s' = s := by
  simp only [declaration, bind_eq_ok, nextIs_eq_ok] at h
  obtain ⟨b, s1, ⟨-, rfl⟩, h⟩ := h
  cases b with
  | true => exact (pure_eq_ok.mp h).2
  | false =>
    simp only [Bool.false_eq_true, if_false, bind_eq_ok, nextName?_eq_ok] at h
    obtain ⟨o, s2, ⟨-, rfl⟩, h⟩ := h
    cases o with
    | none => exact absurd h (by simp [refuse, fail])
    | some name =>
      by_cases hn : n ≠ 0
      · simp only [Option.isNone_some, Bool.false_eq_true, if_false, if_pos hn, bind_eq_ok,
          pure_eq_ok] at h
        obtain ⟨_, _, -, _, _, -, h, -⟩ := h
        cases h
      · simp only [Option.isNone_some, Bool.false_eq_true, if_false, if_neg hn, bind_eq_ok,
          pure_eq_ok] at h
        obtain ⟨_, _, -, h, -⟩ := h
        cases h

theorem declaration_some {role : Expected} {plural : String} {n : Nat} {item : Parse α} {a : α}
    (h : declaration role plural n item s = .ok (some a) s') :
    item s = .ok a s' ∧ (n ≠ 0 → ∀ t ∈ s.rest.head?, t.isSeparated = true) := by
  simp only [declaration, bind_eq_ok, nextIs_eq_ok] at h
  obtain ⟨b, s1, ⟨-, rfl⟩, h⟩ := h
  cases b with
  | true => cases (pure_eq_ok.mp h).1
  | false =>
    simp only [Bool.false_eq_true, if_false, bind_eq_ok, nextName?_eq_ok] at h
    obtain ⟨o, s2, ⟨-, rfl⟩, h⟩ := h
    cases o with
    | none => exact absurd h (by simp [refuse, fail])
    | some name =>
      by_cases hn : n ≠ 0
      · simp only [Option.isNone_some, Bool.false_eq_true, if_false, if_pos hn, bind_eq_ok,
          pure_eq_ok, separated_eq_ok] at h
        obtain ⟨_, _, ⟨rfl, hsep⟩, _, _, hi, ⟨⟩, rfl⟩ := h
        exact ⟨hi, fun _ => hsep⟩
      · simp only [Option.isNone_some, Bool.false_eq_true, if_false, if_neg hn, bind_eq_ok,
          pure_eq_ok] at h
        obtain ⟨_, _, hi, ⟨⟩, rfl⟩ := h
        exact ⟨hi, fun h => absurd h hn⟩

theorem declarations_yield {role : Expected} {plural : String} {item : Parse α}
    {h : ∀ n, Spends roundCost (declaration role plural n item)} {R : α → List Token → Prop}
    (hitem : Yields item R) {as : List α} (hd : s.depth = 0)
    (hc : collect (declaration role plural · item) h 0 s = .ok as s') :
    ∃ us, s.Moves us s' ∧ Declared R as us := by
  cases as with
  | nil =>
    rw [declaration_none (collect_eq_nil.mp hc)]
    exact ⟨[], .refl s, .nil⟩
  | cons a as =>
    obtain ⟨s1, h1, hc⟩ := collect_eq_cons.mp hc
    obtain ⟨us, hm, ha⟩ := hitem hd (declaration_some h1).1
    have later {n : Nat} {s s' : Cursor} {a : α} (hn : 1 ≤ n) (hd : s.depth = 0)
        (h : declaration role plural n item s = .ok (some a) s') :
        ∃ us, s.Moves us s' ∧ R a us ∧ ∀ t ∈ us.head?, t.isSeparated = true := by
      obtain ⟨hi, hsep⟩ := declaration_some h
      obtain ⟨us, hm, ha⟩ := hitem hd hi
      refine ⟨us, hm, ha, fun t ht => hsep (by omega) t ?_⟩
      rw [hm.rest, List.head?_append, ht]
      rfl
    obtain ⟨vs, hm', has⟩ := collect_yields declaration_none later (Nat.le_refl 1)
      (hm.depth.trans hd) hc
    exact ⟨us ++ vs, hm.trans hm', .cons ha has⟩

theorem announcedField_yields :
    Yields announcedField fun d us => d.Over us ∧ ∀ t ∈ d.types, t.depth < maxDepth := by
  intro s d s' hd h
  simp only [announcedField, bind_eq_ok, announce_eq_ok, pure_eq_ok] at h
  obtain ⟨d, s1, hf, _, _, rfl, rfl, rfl⟩ := h
  obtain ⟨us, hm, hover⟩ := field_yields hd hf
  exact ⟨us, hm.announced _, hover⟩

theorem objectBlock_yields : Yields objectBlock fun b us => b.Over us ∧ b.Shallow := by
  intro s b s' hd h
  simp only [objectBlock, bind_eq_ok, collect_bind_eq_ok, expect_eq_ok, byteSpan_eq_ok,
    announce_eq_ok, pure_eq_ok] at h
  obtain ⟨brace, s1, ⟨hb, hread⟩, _, _, ⟨-, rfl, rfl⟩, _, s2, ho, fields, s3, hf, _, s4, hc, _, _,
    rfl, stop, s5, hr, rfl, rfl⟩ := h
  have depth : s2.depth = 0 := by rw [opened_eq_ok.mp ho, ← hd, ← hread.moves.depth]
  obtain ⟨us, hm, hfields⟩ := declarations_yield announcedField_yields depth hf
  obtain ⟨closing, hk, enclosed⟩ := moves_enclosed ho hm hc
  have moves := (hread.moves.trans enclosed).announced
    (⟨s4.rest.length - 0, ⟨.debug, s!"parsed object block with {fields.length} field declarations"⟩⟩
      :: s4.notices)
  obtain ⟨rfl, hext⟩ := extent_of_reached moves hr
  obtain ⟨hfields, hall⟩ := hfields.forall_of_and
  refine ⟨_, moves, hext ▸ .object hb hfields hk, ?_⟩
  simpa [Block.Shallow, Block.types] using fun t d hd ht => hall d hd t ht

theorem enumBlock_yields (hs : s.rest.head?.bind (·.kind.name?) = some "enum")
    (hd : s.depth = 0) {b : Block ByteSpan} (h : enumBlock s = .ok b s') :
    ∃ us, s.Moves us s' ∧ b.Over us ∧ b.Shallow := by
  simp only [enumBlock, bind_eq_ok, collect_bind_eq_ok, expect_eq_ok, announce_eq_ok,
    pure_eq_ok] at h
  obtain ⟨keyword, s1, hw, brace, s2, ⟨hb, hread⟩, _, s3, ho, values, s4, hv, _, s5, hc, _, _,
    rfl, stop, s6, hr, rfl, rfl⟩ := h
  obtain ⟨t, hm, hover⟩ := name_yields hw
  have depth : s3.depth = 0 := by rw [opened_eq_ok.mp ho, ← hd, ← hm.depth, ← hread.moves.depth]
  have values_yield : Yields (name .enumValue) Name.OverOnly := fun _ h => by
    obtain ⟨t, hm, hover⟩ := name_yields h
    exact ⟨[t], hm, t, rfl, hover⟩
  obtain ⟨us, hmv, hvalues⟩ := declarations_yield values_yield depth hv
  obtain ⟨closing, hk, enclosed⟩ := moves_enclosed ho hmv hc
  have moves := ((hm.trans hread.moves).trans enclosed).announced
    (⟨s5.rest.length - 0, ⟨.debug, s!"parsed enum block with {values.length} values"⟩⟩
      :: s5.notices)
  obtain ⟨rfl, hext⟩ := extent_of_reached moves hr
  have ht : t.kind = .name "enum" := by
    rw [hm.rest] at hs
    simp only [List.singleton_append, List.head?_cons, Option.bind_some, hover.1] at hs
    rw [hover.1]
    exact congrArg Token.Kind.name (Option.some.inj hs)
  refine ⟨_, moves, ?_, by simp [Block.Shallow, Block.types]⟩
  rw [hover.2]
  exact hext ▸ .enum ht hb hvalues hk

def AtEnd (ts : List Token) : Prop := ∀ t ∈ ts.head?, t.kind = .endOfInput

theorem endOfInput_eq_ok {u : Unit} : endOfInput s = .ok u s' ↔ s' = s ∧ AtEnd s.rest := by
  unfold endOfInput AtEnd
  cases s.rest with
  | nil =>
    constructor
    · rintro ⟨⟩
      exact ⟨rfl, by simp⟩
    · rintro ⟨rfl, -⟩
      rfl
  | cons t rest =>
    dsimp only
    cases hk : t.kind with
    | endOfInput =>
      constructor
      · rintro ⟨⟩
        exact ⟨rfl, by simpa using hk⟩
      · rintro ⟨rfl, -⟩
        rfl
    | _ => simp [hk]

def eitherBlock : Parse (Block ByteSpan) := do
  if ← nextIs .braceOpen then objectBlock
  else if (← nextName?) = some "enum" then enumBlock
  else refuse [.punctuator .braceOpen, .enumOpener]

theorem block_eq : block = (do
    let b ← eitherBlock
    endOfInput
    return b) := by
  simp only [block, eitherBlock, bind_assoc]
  congr 1
  funext brace
  cases brace with
  | true => rfl
  | false =>
    simp only [Bool.false_eq_true, if_false, bind_assoc]
    congr 1
    funext n
    split <;> rfl

theorem eitherBlock_yields : Yields eitherBlock fun b us => b.Over us ∧ b.Shallow := by
  intro s b s' hd h
  simp only [eitherBlock, bind_eq_ok, nextIs_eq_ok] at h
  obtain ⟨brace, _, ⟨-, rfl⟩, h⟩ := h
  cases brace with
  | true => exact objectBlock_yields hd h
  | false =>
    simp only [Bool.false_eq_true, if_false, bind_eq_ok, nextName?_eq_ok] at h
    obtain ⟨n, _, ⟨hn, rfl⟩, h⟩ := h
    by_cases he : n = some "enum"
    · rw [if_pos he] at h
      exact enumBlock_yields (hn.symm.trans he) hd h
    · rw [if_neg he] at h
      exact absurd h refuse_ne_ok

theorem block_yields {b : Block ByteSpan} (hd : s.depth = 0) (h : block s = .ok b s') :
    ∃ us, s.Moves us s' ∧ b.Over us ∧ b.Shallow ∧ AtEnd s'.rest := by
  simp only [block_eq, bind_eq_ok, endOfInput_eq_ok, pure_eq_ok] at h
  obtain ⟨b, s1, h, _, _, ⟨rfl, hend⟩, rfl, rfl⟩ := h
  obtain ⟨us, hm, hover, hflat⟩ := eitherBlock_yields hd h
  exact ⟨us, hm, hover, hflat, hend⟩

end ShapeSchema.Parse
