import ShapeSchema.Proofs.TreeOver
set_option autoImplicit false

namespace ShapeSchema

/-- What lies over the front of a token list, and up to where, is told by its bare form. -/
def ToldBy {α β : Type} (bare : α → β) (R : α → List Token → Prop) : Prop :=
  ∀ ⦃a b us vs ws xs⦄, R a us → R b vs → bare a = bare b → us ++ ws = vs ++ xs → a = b ∧ us = vs

section Lists

variable {α β : Type} {bare : α → β} {R S : α → List Token → Prop}

theorem ToldBy.mono (h : ToldBy bare R) (weaker : ∀ a us, S a us → R a us) : ToldBy bare S :=
  fun _ _ _ _ _ _ ha hb => h (weaker _ _ ha) (weaker _ _ hb)

theorem ToldBy.sequence (h : ToldBy bare R) : ToldBy (List.map bare) (Sequence R) := by
  intro as bs us vs ws xs has hbs same split
  induction has generalizing bs vs with
  | nil =>
    cases hbs with
    | nil => exact ⟨rfl, rfl⟩
    | cons hb hbs => cases same
  | cons ha _ ih =>
    cases hbs with
    | nil => cases same
    | cons hb hbs =>
      obtain ⟨first, later⟩ := List.cons.inj same
      rw [List.append_assoc, List.append_assoc] at split
      obtain ⟨rfl, rfl⟩ := h ha hb first split
      obtain ⟨rfl, rfl⟩ := ih hbs later (List.append_cancel_left split)
      exact ⟨rfl, rfl⟩

theorem ToldBy.declared (h : ToldBy bare R) : ToldBy (List.map bare) (Declared R) := by
  intro as bs us vs ws xs has hbs same split
  cases has with
  | nil =>
    cases hbs with
    | nil => exact ⟨rfl, rfl⟩
    | cons hb hbs => cases same
  | cons ha has =>
    cases hbs with
    | nil => cases same
    | cons hb hbs =>
      obtain ⟨first, later⟩ := List.cons.inj same
      rw [List.append_assoc, List.append_assoc] at split
      obtain ⟨rfl, rfl⟩ := h ha hb first split
      obtain ⟨rfl, rfl⟩ := (h.mono fun _ _ => And.left).sequence has hbs later
        (List.append_cancel_left split)
      exact ⟨rfl, rfl⟩

end Lists

namespace Syntax

theorem Name.Over.unique {n m : Name ByteSpan} {t : Token} (hn : n.Over t) (hm : m.Over t) :
    n = m := by
  obtain ⟨text, span⟩ := n
  obtain ⟨text', span'⟩ := m
  obtain ⟨kind, rfl⟩ := hn
  obtain ⟨kind', rfl⟩ := hm
  cases kind.symm.trans kind'
  rfl

theorem Name.toldBy : ToldBy (·.map fun _ => ()) Name.OverOnly := by
  rintro n m us vs ws xs ⟨t, rfl, hn⟩ ⟨u, rfl, hm⟩ - split
  obtain rfl := (List.cons.inj split).1
  exact ⟨hn.unique hm, rfl⟩

theorem BangOver.toldBy : ToldBy (Option.map fun _ => ()) BangOver := by
  intro bang bang' us vs ws xs h h' same split
  cases h with
  | none =>
    cases h' with
    | none => exact ⟨rfl, rfl⟩
    | some ht => cases same
  | some ht =>
    cases h' with
    | none => cases same
    | some hu =>
      obtain rfl := (List.cons.inj split).1
      exact ⟨rfl, rfl⟩

theorem TypeExpr.toldBy : ToldBy (·.map fun _ => ()) TypeExpr.Over := by
  intro type other us vs ws xs h h' same split
  induction h generalizing other vs ws xs with
  | named hn hb =>
    cases h' with
    | list => cases same
    | named hm hc =>
      obtain ⟨-, bang, -⟩ := TypeExpr.named.inj same
      obtain ⟨rfl, tail⟩ := List.cons.inj split
      obtain rfl := hn.unique hm
      obtain ⟨rfl, rfl⟩ := BangOver.toldBy hb hc bang tail
      exact ⟨rfl, rfl⟩
  | list ho _ hc hb ih =>
    cases h' with
    | named => cases same
    | list ho' inner hc' hb' =>
      obtain ⟨element, bang, -⟩ := TypeExpr.list.inj same
      simp only [List.append_assoc, List.cons_append] at split
      obtain ⟨rfl, behind⟩ := List.cons.inj split
      obtain ⟨rfl, rfl⟩ := ih inner element behind
      obtain ⟨rfl, tail⟩ := List.cons.inj (List.append_cancel_left behind)
      obtain ⟨rfl, rfl⟩ := BangOver.toldBy hb hb' bang tail
      exact ⟨rfl, rfl⟩

theorem Parameter.toldBy : ToldBy (·.map fun _ => ()) Parameter.Over := by
  intro p q us vs ws xs h h' same split
  cases h with
  | mk hn hc ht =>
    cases h' with
    | mk hm hd hu =>
      obtain ⟨-, type, -⟩ := Parameter.mk.inj same
      obtain ⟨rfl, behind⟩ := List.cons.inj split
      obtain ⟨rfl, tail⟩ := List.cons.inj behind
      obtain rfl := hn.unique hm
      obtain ⟨rfl, rfl⟩ := TypeExpr.toldBy ht hu type tail
      exact ⟨rfl, rfl⟩

theorem Parameter.toldBy_comma : ToldBy (·.map fun _ => ()) Parameter.OverComma := by
  rintro p q us vs ws xs ⟨-, hp⟩ ⟨-, hq⟩ same split
  obtain ⟨rfl, tail⟩ := List.cons.inj split
  obtain ⟨rfl, rfl⟩ := Parameter.toldBy hp hq same tail
  exact ⟨rfl, rfl⟩

theorem ParametersOver.toldBy : ToldBy (List.map (·.map fun _ => ())) ParametersOver := by
  intro ps qs us vs ws xs h h' same split
  cases h with
  | none =>
    cases h' with
    | none => exact ⟨rfl, rfl⟩
    | some => cases same
  | some _ hp hps _ =>
    cases h' with
    | none => cases same
    | some _ hq hqs _ =>
      obtain ⟨first, later⟩ := List.cons.inj same
      simp only [List.append_assoc, List.cons_append, List.nil_append] at split
      obtain ⟨rfl, behind⟩ := List.cons.inj split
      obtain ⟨rfl, rfl⟩ := Parameter.toldBy hp hq first behind
      have tail := List.append_cancel_left behind
      obtain ⟨rfl, rfl⟩ := Parameter.toldBy_comma.sequence hps hqs later tail
      obtain ⟨rfl, -⟩ := List.cons.inj (List.append_cancel_left tail)
      exact ⟨rfl, rfl⟩

theorem Field.toldBy : ToldBy (·.map fun _ => ()) Field.Over := by
  intro d e us vs ws xs h h' same split
  cases h with
  | mk hn hp hc ht =>
    cases h' with
    | mk hm hq hd hu =>
      obtain ⟨-, parameters, type, -⟩ := Field.mk.inj same
      simp only [List.append_assoc, List.cons_append] at split
      obtain ⟨rfl, behind⟩ := List.cons.inj split
      obtain rfl := hn.unique hm
      obtain ⟨rfl, rfl⟩ := ParametersOver.toldBy hp hq parameters behind
      obtain ⟨rfl, tail⟩ := List.cons.inj (List.append_cancel_left behind)
      obtain ⟨rfl, rfl⟩ := TypeExpr.toldBy ht hu type tail
      exact ⟨rfl, rfl⟩

theorem Block.toldBy : ToldBy Block.bare Block.Over := by
  intro b c us vs ws xs h h' same split
  cases h with
  | object _ hd _ =>
    cases h' with
    | enum => cases same
    | object _ he _ =>
      simp only [List.append_assoc, List.cons_append, List.nil_append] at split
      obtain ⟨rfl, behind⟩ := List.cons.inj split
      obtain ⟨rfl, rfl⟩ := Field.toldBy.declared hd he (Block.object.inj same).1 behind
      obtain ⟨rfl, -⟩ := List.cons.inj (List.append_cancel_left behind)
      exact ⟨rfl, rfl⟩
  | enum _ _ hd _ =>
    cases h' with
    | object => cases same
    | enum _ _ he _ =>
      simp only [List.append_assoc, List.cons_append, List.nil_append] at split
      obtain ⟨rfl, opening⟩ := List.cons.inj split
      obtain ⟨rfl, behind⟩ := List.cons.inj opening
      obtain ⟨rfl, rfl⟩ := Name.toldBy.declared hd he (Block.enum.inj same).1 behind
      obtain ⟨rfl, -⟩ := List.cons.inj (List.append_cancel_left behind)
      exact ⟨rfl, rfl⟩

theorem Block.Over.unique {b c : Block ByteSpan} {us : List Token} (hb : b.Over us)
    (hc : c.Over us) (same : b.bare = c.bare) : b = c :=
  (Block.toldBy hb hc same (rfl : us ++ [] = us ++ [])).1

end Syntax

end ShapeSchema
