import ShapeSchema.Proofs.ReadingSound
set_option autoImplicit false

namespace ShapeSchema

def Fit (ts : List Token) : Prop := ∀ t ∈ ts, t.span.Fits

theorem Fit.left {us vs : List Token} (h : Fit (us ++ vs)) : Fit us :=
  fun t ht => h t (List.mem_append_left vs ht)

theorem Fit.right {us vs : List Token} (h : Fit (us ++ vs)) : Fit vs :=
  fun t ht => h t (List.mem_append_right us ht)

theorem Fit.head {t : Token} {ts : List Token} (h : Fit (t :: ts)) : t.span.Fits :=
  h t List.mem_cons_self

theorem Fit.tail {t : Token} {ts : List Token} (h : Fit (t :: ts)) : Fit ts :=
  fun u hu => h u (List.mem_cons_of_mem t hu)

namespace Parse

open Syntax

variable {α : Type} {s s' : Cursor}

def NoBang (ts : List Token) : Prop := ∀ t ∈ ts.head?, t.kind ≠ .punctuator .bang

theorem noBang_cons {t : Token} {ts : List Token} {p : Punctuator}
    (h : t.kind = .punctuator p) (hp : p ≠ .bang) : NoBang (t :: ts) := by
  intro u hu
  cases hu
  rw [h]
  exact fun e => hp (Token.Kind.punctuator.inj e)

/-- `p` reads just the tokens `used` and yields `a`. -/
def Consumes (p : Parse α) (s : Cursor) (used : List Token) (a : α) : Prop :=
  ∃ s', p s = .ok a s' ∧ s.Moves used s'

theorem reads_cons {t : Token} {rest : List Token} (h : s.rest = t :: rest) :
    s.Reads t (s.advance t rest) := ⟨rest, h, rfl⟩

theorem reachedByte_of_moves {t : Token} {us : List Token} (h : s.Moves (t :: us) s')
    (fit : Fit (t :: us)) : reachedByte s' = .ok (extent (t :: us)).stop s' := by
  have last := h.lastEnd_eq (List.getLast?_eq_some_getLast (List.cons_ne_nil t us))
  rw [h.extent_eq]
  refine reachedByte_eq_ok.mpr ⟨rfl, fun p hp => ?_, rfl⟩
  rw [last] at hp
  cases hp
  exact (fit _ (List.getLast_mem _)).2

theorem name_consumes (role : Expected) {n : Name ByteSpan} {t : Token} {rest : List Token}
    (h : n.Over t) (hs : s.rest = t :: rest) (fits : t.span.Fits) :
    Consumes (name role) s [t] n :=
  have read := reads_cons hs
  ⟨_, name_eq_ok.mpr ⟨t, h.1, h.2, fits, read⟩, read.moves⟩

theorem bang_consumes {mark : Option ByteSpan} {us rest : List Token} (h : BangOver mark us)
    (hs : s.rest = us ++ rest) (fit : Fit us) (hrest : NoBang rest) : Consumes bang s us mark := by
  cases h with
  | none =>
    refine ⟨s, ?_, .refl s⟩
    rw [List.nil_append] at hs
    exact bind_ok (accept_eq_none.mpr ⟨rfl, hs ▸ hrest⟩) rfl
  | some ht =>
    have read := reads_cons hs
    refine ⟨_, ?_, read.moves⟩
    apply bind_ok (accept_eq_some.mpr ⟨ht, read⟩)
    exact bind_ok (byteSpan_eq_ok.mpr ⟨fit.head, rfl, rfl⟩) rfl

theorem close_of_moves {c : Construct} {t u : Token} {inner rest : List Token} {s1 : Cursor}
    (hs : s.rest = inner ++ u :: rest) (hu : u.kind = .punctuator c.closer)
    (hm : Cursor.Moves { s with openers := ⟨c, t.span⟩ :: s.openers } inner s1) :
    ∃ s2, close s1 = .ok () s2 ∧ s.Moves (inner ++ [u]) s2 := by
  have hrest : s1.rest = u :: rest := hm.rest_eq hs
  have read := reads_cons hrest
  refine ⟨{ s1.advance u rest with openers := s.openers }, ?_, ?_⟩
  · exact close_eq_ok.mpr ⟨_, _, u, _, hm.openers, hu, read, rfl⟩
  · have all := hm.trans read.moves
    exact ⟨all.rest, rfl, all.depth, all.lastEnd⟩

theorem typeRule_named {element : Parse (TypeExpr ByteSpan)} {n : Name ByteSpan}
    {mark : Option ByteSpan} {t : Token} {us rest : List Token} (hn : n.Over t)
    (hb : BangOver mark us) (hs : s.rest = t :: us ++ rest) (fit : Fit (t :: us))
    (hrest : NoBang rest) :
    Consumes (typeRule element) s (t :: us) (.named n mark (extent (t :: us))) := by
  have noBracket : ∀ u ∈ s.rest.head?, u.kind ≠ .punctuator .bracketOpen := by
    rw [hs]
    rintro _ ⟨⟩
    rw [hn.1]
    exact Token.Kind.noConfusion
  obtain ⟨s1, h1, hm1⟩ := name_consumes .typeName hn hs fit.head
  obtain ⟨s2, h2, hm2⟩ := bang_consumes hb (hm1.rest_eq hs) fit.tail hrest
  have moves := hm1.trans hm2
  refine ⟨s2, ?_, moves⟩
  apply bind_ok (accept_eq_none.mpr ⟨rfl, noBracket⟩)
  apply bind_ok h1
  apply bind_ok h2
  apply bind_ok (reachedByte_of_moves moves fit)
  rw [hn.2]
  rfl

theorem typeRule_list {element : Parse (TypeExpr ByteSpan)} {inner : TypeExpr ByteSpan}
    {mark : Option ByteSpan} {t u : Token} {us vs rest : List Token}
    (ht : t.kind = .punctuator .bracketOpen) (hu : u.kind = .punctuator .bracketClose)
    (hb : BangOver mark vs) (hs : s.rest = t :: (us ++ u :: vs) ++ rest)
    (fit : Fit (t :: (us ++ u :: vs))) (hrest : NoBang rest)
    (he : ∀ s' : Cursor, s'.rest = us ++ u :: (vs ++ rest) → s'.depth = s.depth →
      Consumes element s' us inner) :
    Consumes (typeRule element) s (t :: (us ++ u :: vs))
      (.list inner mark (extent (t :: (us ++ u :: vs)))) := by
  have hs' : s.rest = t :: (us ++ u :: (vs ++ rest)) := by rw [hs]; simp
  have read := reads_cons hs'
  obtain ⟨s1, h1, hm1⟩ := he { s.advance t (us ++ u :: (vs ++ rest)) with
    openers := ⟨.listType, t.span⟩ :: s.openers } rfl rfl
  obtain ⟨s2, h2, hm2⟩ := close_of_moves (s := s.advance t (us ++ u :: (vs ++ rest)))
    (c := .listType) rfl hu hm1
  have fitBang : Fit vs := fit.tail.right.tail
  obtain ⟨s3, h3, hm3⟩ := bang_consumes hb
    ((hm2.rest_eq (show _ = us ++ [u] ++ (vs ++ rest) by simp [Cursor.advance]))) fitBang hrest
  have moves := (read.moves.trans hm2).trans hm3
  have shape : [t] ++ (us ++ [u]) ++ vs = t :: (us ++ u :: vs) := by simp
  rw [shape] at moves
  refine ⟨s3, ?_, moves⟩
  apply bind_ok (accept_eq_some.mpr ⟨ht, read⟩)
  apply bind_ok (byteSpan_eq_ok.mpr ⟨fit.head, rfl, rfl⟩)
  apply bind_ok (a := ()) (opened_eq_ok.mpr rfl)
  apply bind_ok h1
  apply bind_ok h2
  apply bind_ok h3
  exact bind_ok (reachedByte_of_moves moves fit) rfl

theorem deeper_consumes {p : Parse α} {a : α} {us : List Token}
    (h : Consumes p { s with depth := s.depth + 1 } us a) : Consumes (deeper p) s us a := by
  obtain ⟨s1, h1, hm⟩ := h
  refine ⟨_, deeper_eq_ok.mpr ⟨s1, h1, rfl⟩, hm.rest, hm.openers, ?_, hm.lastEnd⟩
  change s1.depth - 1 = s.depth
  rw [hm.depth]
  rfl

theorem typeWithin_consumes {type : TypeExpr ByteSpan} {us rest : List Token} {levels : Nat}
    (h : type.Over us) (hd : type.depth < levels) (hs : s.rest = us ++ rest) (fit : Fit us)
    (hrest : NoBang rest) : Consumes (typeWithin levels) s us type := by
  induction h generalizing s levels rest with
  | named hn hb =>
    cases levels with
    | zero => exact absurd hd (Nat.not_lt_zero _)
    | succ levels => exact deeper_consumes (typeRule_named hn hb hs fit hrest)
  | list ht _ hu hb ih =>
    cases levels with
    | zero => exact absurd hd (Nat.not_lt_zero _)
    | succ levels =>
      refine deeper_consumes (typeRule_list ht hu hb hs fit hrest fun _ hs' _ => ?_)
      exact ih (Nat.lt_of_succ_lt_succ hd) hs' fit.tail.left (noBang_cons hu (by decide))

theorem typeExpr_consumes {type : TypeExpr ByteSpan} {us rest : List Token} (h : type.Over us)
    (hd : type.depth < maxDepth) (hs : s.rest = us ++ rest) (fit : Fit us) (hrest : NoBang rest)
    (flat : s.depth = 0) : Consumes typeExpr s us type := by
  have within := typeWithin_consumes h hd hs fit hrest
  unfold Consumes at within ⊢
  rwa [typeExpr, flat]

theorem colonAfter_consumes (n : String) {t : Token} {rest : List Token}
    (ht : t.kind = .punctuator .colon) (hs : s.rest = t :: rest) :
    Consumes (colonAfter n) s [t] () :=
  have read := reads_cons hs
  ⟨_, bind_eq_ok.mpr ⟨some t, _, accept_eq_some.mpr ⟨ht, read⟩, rfl⟩, read.moves⟩

theorem parameter_consumes {p : Parameter ByteSpan} {us rest : List Token} (h : p.Over us)
    (hd : p.type.depth < maxDepth) (hs : s.rest = us ++ rest) (fit : Fit us) (hrest : NoBang rest)
    (flat : s.depth = 0) : Consumes parameter s us p := by
  cases h with
  | @mk n type t colon us hn hc ht =>
    obtain ⟨s1, h1, hm1⟩ := name_consumes .parameterName hn hs fit.head
    have hs1 : s1.rest = colon :: (us ++ rest) := hm1.rest_eq hs
    obtain ⟨s2, h2, hm2⟩ := colonAfter_consumes n.text hc hs1
    have flat2 : s2.depth = 0 := by rw [hm2.depth, hm1.depth, flat]
    obtain ⟨s3, h3, hm3⟩ := typeExpr_consumes ht hd (hm2.rest_eq hs1) fit.tail.tail hrest flat2
    have moves : s.Moves (t :: colon :: us) s3 := (hm1.trans hm2).trans hm3
    refine ⟨s3, ?_, moves⟩
    apply bind_ok h1
    apply bind_ok h2
    apply bind_ok h3
    apply bind_ok (reachedByte_of_moves moves fit)
    rw [hn.2]
    rfl

/-- A repetition reads a sequence that it can go through step by step and that ends where the next
    step yields nothing. Every item may be followed by what items begin with or by the rest. -/
theorem collect_consumes {step : Nat → Parse (Option α)} {h : ∀ n, Spends roundCost (step n)}
    {R : α → List Token → Prop} {Next : List Token → Prop} {as : List α} {us rest : List Token}
    {k n : Nat} (hseq : Sequence R as us) (hn : k ≤ n) (hs : s.rest = us ++ rest) (fit : Fit us)
    (flat : s.depth = 0) (hrest : Next rest) (hnext : ∀ {a us}, R a us → ∀ ts, Next (us ++ ts))
    (hlast : ∀ {n s'}, s'.rest = rest → step n s' = .ok none s')
    (hstep : ∀ {n s' a us ts}, k ≤ n → R a us → s'.rest = us ++ ts → Fit us → s'.depth = 0 →
      Next ts → Consumes (step n) s' us (some a)) :
    Consumes (collect step h n) s us as := by
  induction hseq generalizing s n with
  | nil => exact ⟨s, collect_eq_nil.mpr (hlast hs), .refl s⟩
  | @cons a as us vs ha has ih =>
    have next : Next (vs ++ rest) := by
      cases has with
      | nil => exact hrest
      | cons hb _ => rw [List.append_assoc]; exact hnext hb _
    rw [List.append_assoc] at hs
    obtain ⟨s1, h1, hm1⟩ := hstep hn ha hs fit.left flat next
    obtain ⟨s2, h2, hm2⟩ := ih (Nat.le_succ_of_le hn) (hm1.rest_eq hs) fit.right
      (hm1.depth.trans flat)
    exact ⟨s2, collect_eq_cons.mpr ⟨s1, h1, h2⟩, hm1.trans hm2⟩

theorem parameterAfterComma_last {rest : List Token} {closing : Token}
    (hc : closing.kind = .punctuator .parenClose) (hs : s.rest = closing :: rest) :
    parameterAfterComma s = .ok none s := by
  refine bind_eq_ok.mpr ⟨none, s, accept_eq_none.mpr ⟨rfl, ?_⟩, rfl⟩
  rw [hs]
  rintro _ ⟨⟩
  rw [hc]
  decide

theorem parameterAfterComma_consumes {p : Parameter ByteSpan} {us rest : List Token}
    (h : p.OverComma us) (hd : p.type.depth < maxDepth) (hs : s.rest = us ++ rest) (fit : Fit us)
    (flat : s.depth = 0) (hrest : NoBang rest) : Consumes parameterAfterComma s us (some p) := by
  cases h with
  | mk hc hp =>
    have read := reads_cons hs
    obtain ⟨s1, h1, hm1⟩ := parameter_consumes (s := s.advance _ _) hp hd rfl fit.tail hrest flat
    refine ⟨s1, ?_, read.moves.trans hm1⟩
    apply bind_ok (accept_eq_some.mpr ⟨hc, read⟩)
    exact bind_ok h1 rfl

theorem endOfParameters_of_closing {closing : Token} {rest : List Token}
    (hc : closing.kind = .punctuator .parenClose) (hs : s.rest = closing :: rest) :
    endOfParameters s = .ok () s := by
  have closes : s.rest.head?.any (·.kind == .punctuator .parenClose) = true := by simp [hs, hc]
  exact bind_ok (nextIs_eq_ok.mpr ⟨closes.symm, rfl⟩) rfl

theorem parameterItems_consumes {first : Parameter ByteSpan} {more : List (Parameter ByteSpan)}
    {us vs rest : List Token} {closing : Token} (hf : first.Over us)
    (hm : Sequence Parameter.OverComma more vs) (hc : closing.kind = .punctuator .parenClose)
    (hd : ∀ p ∈ first :: more, p.type.depth < maxDepth)
    (hs : s.rest = us ++ vs ++ closing :: rest) (fit : Fit (us ++ vs)) (flat : s.depth = 0) :
    Consumes parameterItems s (us ++ vs) (first :: more) := by
  have comma : ∀ {p : Parameter ByteSpan} {us : List Token}, p.OverComma us →
      ∀ ts, NoBang (us ++ ts) := by
    rintro _ _ ⟨hcomma, -⟩ ts
    exact noBang_cons hcomma (by decide)
  have next : NoBang (vs ++ closing :: rest) := by
    cases hm with
    | nil => exact noBang_cons hc (by decide)
    | cons hb _ => rw [List.append_assoc]; exact comma hb _
  rw [List.append_assoc] at hs
  obtain ⟨s1, h1, hm1⟩ := parameter_consumes hf (hd first List.mem_cons_self) hs fit.left next flat
  have hm := hm.and_of_forall fun p hp => hd p (List.mem_cons_of_mem _ hp)
  obtain ⟨s2, h2, hm2⟩ := collect_consumes (k := 0) (n := 0)
    (h := fun _ => parameterAfterComma_spends) hm (Nat.le_refl 0) (hm1.rest_eq hs) fit.right
    (hm1.depth.trans flat) (noBang_cons hc (by decide)) (fun hb => comma hb.1)
    (parameterAfterComma_last hc)
    (fun _ hb hs fit flat next => parameterAfterComma_consumes hb.1 hb.2 hs fit flat next)
  refine ⟨s2, ?_, hm1.trans hm2⟩
  apply bind_ok h1
  apply collect_bind_ok h2
  have ending := endOfParameters_of_closing hc (hm2.rest_eq (hm1.rest_eq hs))
  exact bind_ok ending rfl

theorem parametersIfAny_none {t : Token} {rest : List Token}
    (ht : t.kind = .punctuator .colon) (hs : s.rest = t :: rest) :
    parametersIfAny s = .ok [] s := by
  have opens : s.rest.head?.any (·.kind == .punctuator .parenOpen) = false := by
    rw [hs, List.head?_cons, Option.any_some, ht]
    decide
  exact bind_ok (nextIs_eq_ok.mpr ⟨opens.symm, rfl⟩) rfl

theorem parametersIfAny_consumes {ps : List (Parameter ByteSpan)} {us rest : List Token}
    {colon : Token} (h : ParametersOver ps us) (hd : ∀ p ∈ ps, p.type.depth < maxDepth)
    (hcolon : colon.kind = .punctuator .colon) (hs : s.rest = us ++ colon :: rest) (fit : Fit us)
    (flat : s.depth = 0) : Consumes parametersIfAny s us ps := by
  cases h with
  | none => exact ⟨s, parametersIfAny_none hcolon hs, .refl s⟩
  | @some first more paren us vs closing hp hf hm hc =>
    have shape : paren :: (us ++ vs ++ [closing]) ++ colon :: rest =
        paren :: (us ++ vs ++ closing :: (colon :: rest)) := by simp
    rw [shape] at hs
    have read := reads_cons hs
    have opens : s.rest.head?.any (·.kind == .punctuator .parenOpen) = true := by simp [hs, hp]
    obtain ⟨s1, h1, hm1⟩ := parameterItems_consumes (s := { s.advance paren _ with
      openers := ⟨.parameterList, paren.span⟩ :: s.openers }) hf hm hc hd rfl fit.tail.left flat
    obtain ⟨s2, h2, hm2⟩ := close_of_moves (s := s.advance paren _) (c := .parameterList) rfl hc hm1
    have noClosing : ∀ t ∈ (us ++ vs ++ closing :: (colon :: rest)).head?,
        t.kind ≠ .punctuator .parenClose := by
      cases hf with
      | mk hn _ _ =>
        rintro _ ⟨⟩
        rw [hn.1]
        exact Token.Kind.noConfusion
    refine ⟨s2, ?_, read.moves.trans hm2⟩
    apply bind_ok (nextIs_eq_ok.mpr ⟨opens.symm, rfl⟩)
    apply bind_ok (expect_eq_ok.mpr ⟨hp, read⟩)
    apply bind_ok (a := ()) (opened_eq_ok.mpr rfl)
    apply bind_ok (accept_eq_none.mpr ⟨rfl, noClosing⟩)
    apply bind_ok h1
    exact bind_ok h2 rfl

theorem field_consumes {d : Syntax.Field ByteSpan} {us rest : List Token} (h : d.Over us)
    (hd : ∀ t ∈ d.types, t.depth < maxDepth) (hs : s.rest = us ++ rest) (fit : Fit us)
    (flat : s.depth = 0) (hrest : NoBang rest) : Consumes field s us d := by
  cases h with
  | @mk n ps type t us colon vs hn hp hc ht =>
    have hs' : s.rest = t :: (us ++ colon :: (vs ++ rest)) := by rw [hs]; simp
    have shape : [t] ++ (us ++ ([colon] ++ vs)) = t :: (us ++ colon :: vs) := by simp
    have hdp : ∀ p ∈ ps, p.type.depth < maxDepth := fun p hp => hd p.type (by
      simp only [Syntax.Field.types, List.mem_append, List.mem_map]
      exact .inl ⟨p, hp, rfl⟩)
    obtain ⟨s1, h1, hm1⟩ := name_consumes .fieldName hn hs' fit.head
    have hs1 := hm1.rest_eq hs'
    obtain ⟨s2, h2, hm2⟩ := parametersIfAny_consumes hp hdp hc hs1 fit.tail.left
      (hm1.depth.trans flat)
    have hs2 := hm2.rest_eq hs1
    obtain ⟨s3, h3, hm3⟩ := colonAfter_consumes n.text hc hs2
    have flat3 : s3.depth = 0 := by rw [hm3.depth, hm2.depth, hm1.depth, flat]
    obtain ⟨s4, h4, hm4⟩ := typeExpr_consumes ht (hd type (by simp [Syntax.Field.types]))
      (hm3.rest_eq hs2) fit.tail.right.tail hrest flat3
    have moves := hm1.trans (hm2.trans (hm3.trans hm4))
    rw [shape] at moves
    refine ⟨s4, ?_, moves⟩
    apply bind_ok h1
    apply bind_ok h2
    apply bind_ok h3
    apply bind_ok h4
    apply bind_ok (reachedByte_of_moves moves fit)
    rw [hn.2]
    rfl

def NameFirst (us : List Token) : Prop := ∃ t vs n, us = t :: vs ∧ t.kind = .name n

theorem NameFirst.noBang {us : List Token} (h : NameFirst us) (ts : List Token) :
    NoBang (us ++ ts) := by
  obtain ⟨t, vs, n, rfl, ht⟩ := h
  rintro _ ⟨⟩
  rw [ht]
  exact Token.Kind.noConfusion

theorem declaration_last {role : Expected} {plural : String} {n : Nat} {item : Parse α}
    {closing : Token} {rest : List Token} (hc : closing.kind = .punctuator .braceClose)
    (hs : s.rest = closing :: rest) : declaration role plural n item s = .ok none s := by
  have closes : s.rest.head?.any (·.kind == .punctuator .braceClose) = true := by simp [hs, hc]
  exact bind_ok (nextIs_eq_ok.mpr ⟨closes.symm, rfl⟩) rfl

theorem declaration_of_item {role : Expected} {plural : String} {n : Nat} {item : Parse α} {a : α}
    {us ts : List Token} (hus : NameFirst us) (hs : s.rest = us ++ ts)
    (hsep : n ≠ 0 → ∀ t ∈ us.head?, t.isSeparated = true) (hi : item s = .ok a s') :
    declaration role plural n item s = .ok (some a) s' := by
  obtain ⟨t, vs, x, rfl, ht⟩ := hus
  have closes : s.rest.head?.any (·.kind == .punctuator .braceClose) = false := by
    rw [hs, List.cons_append, List.head?_cons, Option.any_some, ht]
    rfl
  have named : s.rest.head?.bind (·.kind.name?) = some x := by
    rw [hs, List.cons_append, List.head?_cons, Option.bind_some, ht]
    rfl
  apply bind_ok (nextIs_eq_ok.mpr ⟨closes.symm, rfl⟩)
  refine bind_eq_ok.mpr ⟨some x, s, nextName?_eq_ok.mpr ⟨named.symm, rfl⟩, ?_⟩
  have item_ok : (do return some (← item) : Parse (Option α)) s = .ok (some a) s' :=
    bind_eq_ok.mpr ⟨a, s', hi, rfl⟩
  by_cases hn : n ≠ 0
  · simp only [Option.isNone_some, Bool.false_eq_true, if_false, if_pos hn]
    refine bind_eq_ok.mpr ⟨(), s, separated_eq_ok.mpr ⟨rfl, ?_⟩, item_ok⟩
    rw [hs]
    exact hsep hn
  · simp only [Option.isNone_some, Bool.false_eq_true, if_false, if_neg hn]
    exact item_ok

theorem declarations_consume {role : Expected} {plural : String} {item : Parse α}
    {h : ∀ n, Spends roundCost (declaration role plural n item)} {R : α → List Token → Prop}
    {as : List α} {us rest : List Token} {closing : Token} (hdecl : Declared R as us)
    (hc : closing.kind = .punctuator .braceClose) (hs : s.rest = us ++ closing :: rest)
    (fit : Fit us) (flat : s.depth = 0) (hname : ∀ {a us}, R a us → NameFirst us)
    (hitem : ∀ {s : Cursor} {a us ts}, R a us → s.rest = us ++ ts → Fit us → s.depth = 0 →
      NoBang ts → Consumes item s us a) :
    Consumes (collect (declaration role plural · item) h 0) s us as := by
  have closingNext : NoBang (closing :: rest) := noBang_cons hc (by decide)
  cases hdecl with
  | nil => exact ⟨s, collect_eq_nil.mpr (declaration_last hc hs), .refl s⟩
  | @cons a as us vs ha has =>
    have next : NoBang (vs ++ closing :: rest) := by
      cases has with
      | nil => exact closingNext
      | cons hb _ => rw [List.append_assoc]; exact (hname hb.1).noBang _
    rw [List.append_assoc] at hs
    obtain ⟨s1, h1, hm1⟩ := hitem ha hs fit.left flat next
    obtain ⟨s2, h2, hm2⟩ := collect_consumes (k := 1) (n := 1) (h := h) has (Nat.le_refl 1)
      (hm1.rest_eq hs) fit.right (hm1.depth.trans flat) closingNext
      (fun hb => (hname hb.1).noBang) (declaration_last hc)
      (fun hn hb hs fit flat next => by
        obtain ⟨s3, h3, hm3⟩ := hitem hb.1 hs fit flat next
        exact ⟨s3, declaration_of_item (hname hb.1) hs (fun _ => hb.2) h3, hm3⟩)
    refine ⟨s2, collect_eq_cons.mpr ⟨s1, ?_, h2⟩, hm1.trans hm2⟩
    exact declaration_of_item (hname ha) hs (fun h => absurd rfl h) h1

theorem announcedField_consumes {d : Syntax.Field ByteSpan} {us rest : List Token} (h : d.Over us)
    (hd : ∀ t ∈ d.types, t.depth < maxDepth) (hs : s.rest = us ++ rest) (fit : Fit us)
    (flat : s.depth = 0) (hrest : NoBang rest) : Consumes announcedField s us d := by
  obtain ⟨s1, h1, hm1⟩ := field_consumes h hd hs fit flat hrest
  have announced : ∃ notices, announcedField s = .ok d { s1 with notices } :=
    ⟨_, bind_eq_ok.mpr ⟨d, s1, h1, bind_eq_ok.mpr ⟨(), _, announce_eq_ok.mpr rfl, rfl⟩⟩⟩
  obtain ⟨notices, h⟩ := announced
  exact ⟨_, h, hm1.announced notices⟩

theorem objectBlock_consumes {fields : List (Syntax.Field ByteSpan)} {brace closing : Token}
    {us rest : List Token} (hb : brace.kind = .punctuator .braceOpen)
    (hf : Declared Syntax.Field.Over fields us) (hc : closing.kind = .punctuator .braceClose)
    (hd : ∀ d ∈ fields, ∀ t ∈ d.types, t.depth < maxDepth)
    (hs : s.rest = brace :: (us ++ [closing]) ++ rest) (fit : Fit (brace :: (us ++ [closing])))
    (flat : s.depth = 0) :
    Consumes objectBlock s (brace :: (us ++ [closing]))
      (.object fields (extent (brace :: (us ++ [closing])))) := by
  have hs' : s.rest = brace :: (us ++ closing :: rest) := by rw [hs]; simp
  have read := reads_cons hs'
  have hname : ∀ {d : Syntax.Field ByteSpan} {us : List Token}, d.Over us → NameFirst us := by
    rintro _ _ ⟨hn, -, -, -⟩
    exact ⟨_, _, _, rfl, hn.1⟩
  obtain ⟨s1, h1, hm1⟩ := declarations_consume (s := { s.advance brace _ with
    openers := ⟨.objectBlock, brace.span⟩ :: s.openers }) (hf.and_of_forall hd) hc rfl
    fit.tail.left flat (h := fun n => declaration_spends .fieldName "fields" n announcedField_spends)
    (fun h => hname h.1) (fun h hs fit flat next => announcedField_consumes h.1 h.2 hs fit flat next)
  obtain ⟨s2, h2, hm2⟩ := close_of_moves (s := s.advance brace _) (c := .objectBlock) rfl hc hm1
  have moves := (read.moves.trans hm2).announced
    (⟨s2.rest.length - 0, ⟨.debug, s!"parsed object block with {fields.length} field declarations"⟩⟩
      :: s2.notices)
  refine ⟨_, ?_, moves⟩
  apply bind_ok (expect_eq_ok.mpr ⟨hb, read⟩)
  apply bind_ok (byteSpan_eq_ok.mpr ⟨fit.head, rfl, rfl⟩)
  apply bind_ok (a := ()) (opened_eq_ok.mpr rfl)
  apply collect_bind_ok h1
  apply bind_ok h2
  apply bind_ok (a := ()) (announce_eq_ok.mpr rfl)
  exact bind_ok (reachedByte_of_moves moves fit) rfl

theorem enumBlock_consumes {values : List (Name ByteSpan)} {keyword brace closing : Token}
    {us rest : List Token} (hk : keyword.kind = .name "enum")
    (hb : brace.kind = .punctuator .braceOpen) (hv : Declared Name.OverOnly values us)
    (hc : closing.kind = .punctuator .braceClose)
    (hs : s.rest = keyword :: brace :: (us ++ [closing]) ++ rest)
    (fit : Fit (keyword :: brace :: (us ++ [closing]))) (flat : s.depth = 0) :
    Consumes enumBlock s (keyword :: brace :: (us ++ [closing]))
      (.enum values (extent (keyword :: brace :: (us ++ [closing])))) := by
  have hs' : s.rest = keyword :: brace :: (us ++ closing :: rest) := by rw [hs]; simp
  have hname : ∀ {n : Name ByteSpan} {us : List Token}, n.OverOnly us → NameFirst us := by
    rintro _ _ ⟨t, rfl, hn⟩
    exact ⟨_, _, _, rfl, hn.1⟩
  obtain ⟨s1, h1, hm1⟩ := name_consumes .enumKeyword (n := ⟨"enum", keyword.span.offsets⟩)
    ⟨hk, rfl⟩ hs' fit.head
  have hs1 := hm1.rest_eq hs'
  have read := reads_cons hs1
  obtain ⟨s2, h2, hm2⟩ := declarations_consume (s := { s1.advance brace _ with
    openers := ⟨.enumBlock, brace.span⟩ :: s1.openers }) hv hc rfl fit.tail.tail.left
    (hm1.depth.trans flat)
    (h := fun n => declaration_spends .enumValue "enum values" n (name_spends .enumValue)) hname
    (by
      rintro s n _ ts ⟨t, rfl, hn⟩ hs fit - -
      exact name_consumes .enumValue hn hs fit.head)
  obtain ⟨s3, h3, hm3⟩ := close_of_moves (s := s1.advance brace _) (c := .enumBlock) rfl hc hm2
  have moves := (hm1.trans (read.moves.trans hm3)).announced
    (⟨s3.rest.length - 0, ⟨.debug, s!"parsed enum block with {values.length} values"⟩⟩
      :: s3.notices)
  refine ⟨_, ?_, moves⟩
  apply bind_ok h1
  apply bind_ok (expect_eq_ok.mpr ⟨hb, read⟩)
  apply bind_ok (a := ()) (opened_eq_ok.mpr rfl)
  apply collect_bind_ok h2
  apply bind_ok h3
  apply bind_ok (a := ()) (announce_eq_ok.mpr rfl)
  exact bind_ok (reachedByte_of_moves moves fit) rfl

theorem block_consumes {b : Block ByteSpan} {us rest : List Token} (h : b.Over us)
    (hd : b.Shallow) (hs : s.rest = us ++ rest) (hend : AtEnd rest) (fit : Fit us)
    (flat : s.depth = 0) : Consumes block s us b := by
  suffices Consumes eitherBlock s us b by
    obtain ⟨s1, h1, hm⟩ := this
    refine ⟨s1, ?_, hm⟩
    rw [block_eq]
    apply bind_ok h1
    exact bind_ok (a := ()) (endOfInput_eq_ok.mpr ⟨rfl, (hm.rest_eq hs).symm ▸ hend⟩) rfl
  cases h with
  | @object fields brace us closing hb hf hc =>
    have opens : s.rest.head?.any (·.kind == .punctuator .braceOpen) = true := by simp [hs, hb]
    have flatFields : ∀ d ∈ fields, ∀ t ∈ d.types, t.depth < maxDepth :=
      fun d hd' t ht => hd t (List.mem_flatMap.mpr ⟨d, hd', ht⟩)
    obtain ⟨s1, h1, hm⟩ := objectBlock_consumes hb hf hc flatFields hs fit flat
    exact ⟨s1, bind_eq_ok.mpr ⟨true, s, nextIs_eq_ok.mpr ⟨opens.symm, rfl⟩, h1⟩, hm⟩
  | @enum values keyword brace us closing hk hb hv hc =>
    have opens : s.rest.head?.any (·.kind == .punctuator .braceOpen) = false := by
      rw [hs, List.cons_append, List.head?_cons, Option.any_some, hk]
      decide
    have named : s.rest.head?.bind (·.kind.name?) = some "enum" := by
      rw [hs, List.cons_append, List.head?_cons, Option.bind_some, hk]
      rfl
    obtain ⟨s1, h1, hm⟩ := enumBlock_consumes hk hb hv hc hs fit flat
    refine ⟨s1, bind_eq_ok.mpr ⟨false, s, nextIs_eq_ok.mpr ⟨opens.symm, rfl⟩, ?_⟩, hm⟩
    exact bind_ok (nextName?_eq_ok.mpr ⟨named.symm, rfl⟩) h1

end Parse

end ShapeSchema
