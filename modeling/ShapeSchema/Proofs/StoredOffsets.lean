import ShapeSchema.Proofs.ReadingSound
set_option autoImplicit false

namespace ShapeSchema

/-- The offsets as 32 bits hold them. -/
def ByteSpan.narrow (s : ByteSpan) : ByteSpan :=
  ⟨(UInt32.ofNat s.start).toNat, (UInt32.ofNat s.stop).toNat⟩

theorem ByteSpan.narrow_eq_iff {s : ByteSpan} :
    s.narrow = s ↔ s.start ≤ limit ∧ s.stop ≤ limit := by
  obtain ⟨start, stop⟩ := s
  simp only [narrow, limit, ByteSpan.mk.injEq, UInt32.toNat_ofNat']
  omega

namespace Parse

open Syntax

variable {α β : Type}

def Gives (p : Parse α) (P : α → Prop) : Prop := ∀ s a s', p s = .ok a s' → P a

theorem byteSpan_gives (span : Span) : Gives (byteSpan span) fun b => b.narrow = b := by
  intro s b s' h
  obtain ⟨fits, rfl, -⟩ := byteSpan_eq_ok.mp h
  exact ByteSpan.narrow_eq_iff.mpr fits

theorem reachedByte_gives : Gives reachedByte (· ≤ ByteSpan.limit) := by
  intro s n s' h
  obtain ⟨-, fits, rfl⟩ := reachedByte_eq_ok.mp h
  cases hl : s.lastEnd with
  | none => exact Nat.zero_le _
  | some p => exact fits p hl

theorem name_gives (role : Expected) : Gives (name role) fun n => n.map .narrow = n := by
  intro s n s' h
  obtain ⟨t, -, span, fits, -⟩ := name_eq_ok.mp h
  have kept : n.span.narrow = n.span := span ▸ ByteSpan.narrow_eq_iff.mpr fits
  rw [Name.map, kept]

theorem narrow_of_reached {span : ByteSpan} {start stop : Nat} {s s' : Cursor}
    (kept : span.narrow = span) (same : start = span.start) (h : reachedByte s = .ok stop s') :
    ByteSpan.narrow ⟨start, stop⟩ = ⟨start, stop⟩ :=
  ByteSpan.narrow_eq_iff.mpr
    ⟨same ▸ (ByteSpan.narrow_eq_iff.mp kept).1, reachedByte_gives s stop s' h⟩

theorem bang_gives : Gives bang fun mark => mark.map .narrow = mark := by
  intro s mark s' h
  obtain ⟨o, s1, -, h⟩ := bind_eq_ok.mp h
  cases o with
  | none =>
    obtain ⟨rfl, -⟩ := pure_eq_ok.mp h
    rfl
  | some t =>
    obtain ⟨b, s2, hb, h⟩ := bind_eq_ok.mp h
    obtain ⟨rfl, -⟩ := pure_eq_ok.mp h
    rw [Option.map_some, byteSpan_gives t.span s1 b s2 hb]

theorem typeRule_gives {element : Parse (TypeExpr ByteSpan)}
    (he : Gives element fun t => t.map .narrow = t) :
    Gives (typeRule element) fun t => t.map .narrow = t := by
  intro s type s' h
  obtain ⟨o, s1, -, h⟩ := bind_eq_ok.mp h
  cases o with
  | some bracket =>
    simp only [bind_eq_ok, pure_eq_ok] at h
    obtain ⟨b, s2, hb, _, s3, -, inner, s4, hi, _, s5, -, mark, s6, hm, stop, s7, hr, rfl, -⟩ := h
    have whole := narrow_of_reached (byteSpan_gives _ _ _ _ hb) rfl hr
    rw [TypeExpr.map, he _ _ _ hi, bang_gives _ _ _ hm, whole]
  | none =>
    simp only [bind_eq_ok, pure_eq_ok] at h
    obtain ⟨n, s2, hn, mark, s3, hm, stop, s4, hr, rfl, -⟩ := h
    have named := name_gives _ _ _ _ hn
    have whole := narrow_of_reached (congrArg Name.span named) rfl hr
    rw [TypeExpr.map, named, bang_gives _ _ _ hm, whole]

theorem typeWithin_gives (levels : Nat) :
    Gives (typeWithin levels) fun t => t.map .narrow = t := by
  induction levels with
  | zero => exact fun s a s' h => absurd h fail_ne_ok
  | succ levels ih =>
    intro s type s' h
    obtain ⟨s1, h, -⟩ := deeper_eq_ok.mp h
    exact typeRule_gives ih _ _ _ h

theorem typeExpr_gives : Gives typeExpr fun t => t.map .narrow = t := fun s type s' h =>
  typeWithin_gives _ s type s' h

theorem parameter_gives : Gives parameter fun p => p.map .narrow = p := by
  intro s p s' h
  simp only [parameter, bind_eq_ok, pure_eq_ok] at h
  obtain ⟨n, s1, hn, _, s2, -, type, s3, ht, stop, s4, hr, rfl, -⟩ := h
  have named := name_gives _ _ _ _ hn
  have whole := narrow_of_reached (congrArg Name.span named) rfl hr
  rw [Parameter.map, named, typeExpr_gives _ _ _ ht, whole]

/-- A repetition gives what its rounds give. -/
theorem collect_gives {step : Nat → Parse (Option α)} {h : ∀ n, Spends roundCost (step n)}
    {P : α → Prop} (hstep : ∀ n, Gives (step n) fun o => ∀ a ∈ o, P a) (n : Nat) :
    Gives (collect step h n) fun as => ∀ a ∈ as, P a := by
  intro s as s' hs
  induction as generalizing n s with
  | nil => simp
  | cons a as ih =>
    obtain ⟨s1, first, later⟩ := collect_eq_cons.mp hs
    exact List.forall_mem_cons.mpr ⟨hstep n s (some a) s1 first a rfl, ih (n + 1) s1 later⟩

theorem map_eq_self {f : α → α} {as : List α} (h : ∀ a ∈ as, f a = a) : as.map f = as :=
  (List.map_congr_left h).trans (List.map_id' as)

theorem parameterAfterComma_gives :
    Gives parameterAfterComma fun o => ∀ p ∈ o, p.map .narrow = p := by
  intro s o s' h
  obtain ⟨comma, s1, -, h⟩ := bind_eq_ok.mp h
  cases comma with
  | none =>
    obtain ⟨rfl, -⟩ := pure_eq_ok.mp h
    simp
  | some t =>
    obtain ⟨p, s2, hp, h⟩ := bind_eq_ok.mp h
    obtain ⟨rfl, -⟩ := pure_eq_ok.mp h
    simpa using parameter_gives _ _ _ hp

theorem parameterItems_gives : Gives parameterItems fun ps => ps.map (·.map .narrow) = ps := by
  intro s ps s' h
  simp only [parameterItems, bind_eq_ok, collect_bind_eq_ok, pure_eq_ok] at h
  obtain ⟨first, s1, hf, more, s2, hm, _, s3, -, rfl, -⟩ := h
  have later := collect_gives (fun _ => parameterAfterComma_gives) 0 _ _ _ hm
  exact map_eq_self (List.forall_mem_cons.mpr ⟨parameter_gives _ _ _ hf, later⟩)

theorem parametersIfAny_gives : Gives parametersIfAny fun ps => ps.map (·.map .narrow) = ps := by
  intro s ps s' h
  simp only [parametersIfAny, bind_eq_ok, nextIs_eq_ok] at h
  obtain ⟨paren, _, ⟨-, rfl⟩, h⟩ := h
  cases paren with
  | false =>
    obtain ⟨rfl, -⟩ := pure_eq_ok.mp h
    rfl
  | true =>
    simp only [if_true, parameters, bind_eq_ok] at h
    obtain ⟨_, s1, -, _, s2, -, o, s3, -, h⟩ := h
    cases o with
    | some closing => exact absurd h throw_ne_ok
    | none =>
      simp only [bind_eq_ok, pure_eq_ok] at h
      obtain ⟨items, s4, hi, _, s5, -, rfl, -⟩ := h
      exact parameterItems_gives _ _ _ hi

theorem announcedField_gives : Gives announcedField fun d => d.map .narrow = d := by
  intro s d s' h
  simp only [announcedField, field, bind_eq_ok, pure_eq_ok] at h
  obtain ⟨_, s1, ⟨n, s2, hn, ps, s3, hp, _, s4, -, type, s5, ht, stop, s6, hr, rfl, -⟩, _, _, -,
    rfl, -⟩ := h
  have named := name_gives _ _ _ _ hn
  have whole := narrow_of_reached (congrArg Name.span named) rfl hr
  rw [Field.map, named, parametersIfAny_gives _ _ _ hp, typeExpr_gives _ _ _ ht, whole]

theorem declaration_gives {role : Expected} {plural : String} {item : Parse α} {P : α → Prop}
    (hitem : Gives item P) (n : Nat) :
    Gives (declaration role plural n item) fun o => ∀ a ∈ o, P a := by
  rintro s o s' h a rfl
  exact hitem s a s' (declaration_some h).1

theorem objectBlock_gives : Gives objectBlock fun b => b.map .narrow = b := by
  intro s b s' h
  simp only [objectBlock, bind_eq_ok, collect_bind_eq_ok, pure_eq_ok] at h
  obtain ⟨_, s1, -, b, s2, hb, _, s3, -, fields, s4, hf, _, s5, -, _, s6, -, stop, s7, hr, rfl,
    -⟩ := h
  have listed := collect_gives (declaration_gives announcedField_gives) 0 _ _ _ hf
  have whole := narrow_of_reached (byteSpan_gives _ _ _ _ hb) rfl hr
  rw [Block.map, map_eq_self listed, whole]

theorem enumBlock_gives : Gives enumBlock fun b => b.map .narrow = b := by
  intro s b s' h
  simp only [enumBlock, bind_eq_ok, collect_bind_eq_ok, pure_eq_ok] at h
  obtain ⟨keyword, s1, hk, _, s2, -, _, s3, -, values, s4, hv, _, s5, -, _, s6, -, stop, s7, hr,
    rfl, -⟩ := h
  have named := name_gives _ _ _ _ hk
  have listed := collect_gives (declaration_gives (name_gives _)) 0 _ _ _ hv
  have whole := narrow_of_reached (congrArg Name.span named) rfl hr
  rw [Block.map, map_eq_self listed, whole]

theorem eitherBlock_gives : Gives eitherBlock fun b => b.map .narrow = b := by
  intro s b s' h
  simp only [eitherBlock, bind_eq_ok, nextIs_eq_ok] at h
  obtain ⟨brace, _, ⟨-, rfl⟩, h⟩ := h
  cases brace with
  | true => exact objectBlock_gives _ _ _ h
  | false =>
    simp only [Bool.false_eq_true, if_false, bind_eq_ok, nextName?_eq_ok] at h
    obtain ⟨n, _, ⟨-, rfl⟩, h⟩ := h
    by_cases he : n = some "enum"
    · rw [if_pos he] at h
      exact enumBlock_gives _ _ _ h
    · rw [if_neg he] at h
      exact absurd h refuse_ne_ok

theorem block_gives : Gives block fun b => b.map .narrow = b := by
  intro s b s' h
  simp only [block_eq, bind_eq_ok, pure_eq_ok] at h
  obtain ⟨b, s1, h, _, _, -, rfl, -⟩ := h
  exact eitherBlock_gives _ _ _ h

end Parse

end ShapeSchema
