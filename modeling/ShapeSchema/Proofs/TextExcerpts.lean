import ShapeSchema.Proofs.ShiftedTrees
import ShapeSchema.Proofs.TokenSites
set_option autoImplicit false

namespace ShapeSchema

theorem border_of_isPunctuator {before after : List Char}
    (h : (∀ a ∈ before.getLast?, isPunctuator a = true) ∨
      ∀ c ∈ after.head?, isPunctuator c = true) : Border before after := by
  intro a ha c hc
  by_contra joined
  have other := not_isPunctuator_of_sameLexeme (Bool.not_eq_false _ ▸ joined)
  rcases h with h | h
  · rw [h a ha] at other
    cases other.1
  · rw [h c hc] at other
    cases other.2

theorem Lexed.append {left right : List (List Char)} (hl : Lexed left) (hr : Lexed right)
    (border : Border left.flatten right.flatten) : Lexed (left ++ right) := by
  induction left with
  | nil => exact hr
  | cons run left ih =>
    obtain ⟨nonempty, chain, inside, later⟩ := hl
    rw [List.flatten_cons] at border
    refine ⟨nonempty, chain, ?_, ih later ?_⟩
    · change Border run (left ++ right).flatten
      rw [List.flatten_append]
      cases left with
      | nil => simpa using border
      | cons next left =>
        rw [List.flatten_cons, List.append_assoc, border_append_right later.1]
        rwa [List.flatten_cons, border_append_right later.1] at inside
    · cases left with
      | nil => exact border_nil_left _
      | cons next left =>
        refine (border_append_left ?_ _ _).mp border
        simp [later.1]

theorem map_mark_cells_append (gap : Bool) (runs more : List (List Char)) :
    (cells gap (runs ++ more)).map Cell.mark =
      (cells gap runs).map Cell.mark ++ (cells (gapBehind gap runs) more).map Cell.mark := by
  rw [← map_mark_sites 0, sites_append, List.map_append, map_mark_sites, map_mark_sites]

theorem Token.moved_of_site {n : Nat} {t u : Token} {kind : Token.Kind} {gap gap' : Bool}
    {span : ByteSpan} (hu : u.site = ⟨⟨kind, gap⟩, span⟩)
    (ht : t.site = ⟨⟨kind, gap'⟩, span.shift n⟩) (apart : gap = true → gap' = true) :
    t.Moved n u where
  kind := (congrArg (·.mark.kind) ht).trans (congrArg (·.mark.kind) hu).symm
  span := (congrArg Site.span ht).trans (congrArg (·.span.shift n) hu).symm
  apart := fun separated =>
    (congrArg (·.mark.apart) ht).trans (apart ((congrArg (·.mark.apart) hu).symm.trans separated))

theorem moved_of_sites {n m : Nat} {gap gap' : Bool} {runs : List (List Char)} {ts us : List Token}
    (hus : us.map Token.site = sites m gap runs) (hts : ts.map Token.site = sites (m + n) gap' runs)
    (apart : gap = true → gap' = true) : Moved n ts us := by
  fun_induction sites m gap runs generalizing ts us gap' with
  | case1 m gap =>
    rw [List.map_eq_nil_iff.mp hus, List.map_eq_nil_iff.mp hts]
    exact .nil
  | case2 m gap more ih => exact ih hus hts apart
  | case3 m gap c rest more k hk ih =>
    simp only [sites, hk] at hts
    rw [Nat.add_right_comm] at hts
    exact ih hus hts id
  | case4 m gap c rest more k hk ih =>
    simp only [sites, hk] at hts
    rw [Nat.add_right_comm] at hts
    obtain ⟨u, us, rfl, hu, hus⟩ := List.map_eq_cons_iff.mp hus
    obtain ⟨t, ts, rfl, ht, hts⟩ := List.map_eq_cons_iff.mp hts
    exact .cons (Token.moved_of_site hu ht apart) (ih hus hts id)

namespace Excerpt

variable {text : String} {us : List Token} {before after : List Char} {runs : List (List Char)}

theorem slice? (h : Excerpt text us before runs after) :
    (ShapeSchema.extent us).slice? text = some (String.ofList runs.flatten) := by
  rw [ByteSpan.slice?, h.split, h.extent, cut?_byteCount]
  rfl

theorem moved (h : Excerpt text us before runs after) :
    Moved (byteCount before) us (significant (Token.ofText (String.ofList runs.flatten))) := by
  obtain ⟨gap, placed⟩ := h.sites
  have alone := map_site_significant (String.ofList runs.flatten)
  rw [String.toList_ofList, lexemes_flatten h.lexed] at alone
  rw [← Nat.zero_add (byteCount before)] at placed
  exact moved_of_sites alone placed nofun

theorem admits (h : Excerpt text us before runs after) {ms : List Mark} (spelled : Spells ms us)
    (free : ∀ m ∈ ms.head?, m.apart = false) :
    List.Forall₂ Mark.Admits ms ((cells false runs).map Cell.mark) := by
  obtain ⟨gap, placed⟩ := h.sites
  obtain ⟨c, rest, k, more, rfl, hk⟩ := h.first
  have marks := congrArg (List.map Site.mark) placed
  rw [List.map_map, map_mark_sites] at marks
  have admitted := spells_iff_marks.mp spelled
  change List.Forall₂ Mark.Admits ms (us.map (Site.mark ∘ Token.site)) at admitted
  rw [marks] at admitted
  simp only [cells, hk, List.map_cons] at admitted ⊢
  cases admitted with
  | cons head tail =>
    refine .cons ⟨head.1, fun apart => ?_⟩ tail
    rw [free _ rfl] at apart
    cases apart

theorem map_mark_framed (h : Excerpt text us before runs after) {opening closing : String}
    (left : ∀ c ∈ opening.toList.getLast?, isPunctuator c = true)
    (right : ∀ c ∈ closing.toList.head?, isPunctuator c = true)
    (closed : gapBehind false (lexemes opening.toList) = false) :
    (cellsOf (opening ++ String.ofList runs.flatten ++ closing)).map Cell.mark =
      (cellsOf opening).map Cell.mark ++ (cells false runs).map Cell.mark ++
        (cellsOf closing).map Cell.mark := by
  have chars : (opening ++ String.ofList runs.flatten ++ closing).toList =
      (lexemes opening.toList ++ (runs ++ lexemes closing.toList)).flatten := by
    simp [flatten_lexemes]
  have behind : gapBehind (gapBehind false (lexemes opening.toList)) runs = false := by
    rw [closed, h.closed]
  have inner : Lexed (runs ++ lexemes closing.toList) := by
    refine h.lexed.append (lexed_lexemes _) (border_of_isPunctuator (.inr ?_))
    rwa [flatten_lexemes]
  have outer : Lexed (lexemes opening.toList ++ (runs ++ lexemes closing.toList)) := by
    refine (lexed_lexemes _).append inner (border_of_isPunctuator (.inl ?_))
    rwa [flatten_lexemes]
  rw [cellsOf, chars, lexemes_flatten outer, map_mark_cells_append, map_mark_cells_append, behind,
    closed, List.append_assoc]
  rfl

end Excerpt

end ShapeSchema
