import ShapeSchema.Proofs.PrintedTrees
import ShapeSchema.Proofs.TokenExtents
set_option autoImplicit false

namespace ShapeSchema

structure Site where
  mark : Mark
  span : ByteSpan

def Token.site (t : Token) : Site := ⟨t.mark, t.span.offsets⟩

/-- The sites of runs that start at byte `n`; `gap` tells whether separators stand in front of the
    first. -/
def sites (n : Nat) (gap : Bool) : List (List Char) → List Site
  | [] => []
  | [] :: more => sites n gap more
  | (c :: rest) :: more =>
    match Lexeme.ofRun c rest with
    | .separator _ => sites (n + byteCount (c :: rest)) true more
    | .token k =>
      ⟨⟨k, gap⟩, ⟨n, n + byteCount (c :: rest)⟩⟩ :: sites (n + byteCount (c :: rest)) false more

def gapBehind (gap : Bool) : List (List Char) → Bool
  | [] => gap
  | [] :: more => gapBehind gap more
  | (c :: rest) :: more =>
    match Lexeme.ofRun c rest with
    | .separator _ => gapBehind true more
    | .token _ => gapBehind false more

namespace Site

def standApart : List Site → List Site
  | [] => []
  | s :: ss => { s with mark := { s.mark with apart := true } } :: ss

def behind (gap : Bool) (ss : List Site) : List Site := if gap then standApart ss else ss

theorem behind_standApart (gap : Bool) (ss : List Site) :
    behind gap (standApart ss) = behind true ss := by
  cases gap <;> cases ss <;> rfl

end Site

theorem map_site_addTrivia (v : Trivia) (ts : List Token) :
    (Token.addTrivia v ts).map Token.site = Site.standApart (ts.map Token.site) := by
  cases ts <;> rfl

theorem map_site_scan (gap : Bool) (p : Position) (runs : List (List Char)) :
    ∃ last : Site, last.mark.kind = .endOfInput ∧
      Site.behind gap ((Token.scan p runs).map Token.site) = sites p.offset gap runs ++ [last] := by
  induction runs generalizing gap p with
  | nil => cases gap <;> exact ⟨_, rfl, rfl⟩
  | cons run more ih =>
    cases run with
    | nil => exact ih gap p
    | cons c rest =>
      have stop := Position.offset_through p (c :: rest)
      cases hk : Lexeme.ofRun c rest with
      | separator k =>
        have tail := ih true (p.through (c :: rest))
        simpa only [Token.scan, sites, hk, map_site_addTrivia, Site.behind_standApart, stop]
          using tail
      | token k =>
        obtain ⟨last, ends, tail⟩ := ih false (p.through (c :: rest))
        refine ⟨last, ends, ?_⟩
        rw [stop] at tail
        simp only [sites, Token.scan, hk]
        rw [List.cons_append, ← tail, ← stop]
        cases gap <;> rfl

theorem map_mark_sites (n : Nat) (gap : Bool) (runs : List (List Char)) :
    (sites n gap runs).map Site.mark = (cells gap runs).map Cell.mark := by
  fun_induction sites n gap runs with
  | case1 => rfl
  | case2 n gap more ih => exact ih
  | case3 n gap c rest more k hk ih => simp only [cells, hk, ih]
  | case4 n gap c rest more k hk ih => simp only [cells, hk, List.map_cons, ih]

theorem map_site_significant (text : String) :
    (significant (Token.ofText text)).map Token.site = sites 0 false (lexemes text.toList) := by
  obtain ⟨last, ends, all⟩ := map_site_scan false .start (lexemes text.toList)
  have word : ∀ s ∈ sites 0 false (lexemes text.toList),
      decide (s.mark.kind ≠ .endOfInput) = true := by
    intro s hs
    have hm : s.mark ∈ (cellsOf text).map Cell.mark := by
      rw [cellsOf, ← map_mark_sites 0]
      exact List.mem_map_of_mem hs
    obtain ⟨c, hc, same⟩ := List.mem_map.mp hm
    rw [← same]
    exact decide_eq_true (sound_cellsOf text c hc).kind_ne_endOfInput
  have cut : (significant (Token.ofText text)).map Token.site =
      ((Token.ofText text).map Token.site).takeWhile
        fun s => decide (s.mark.kind ≠ .endOfInput) := by
    rw [List.takeWhile_map]
    rfl
  have whole : (Token.ofText text).map Token.site =
      sites 0 false (lexemes text.toList) ++ [last] := all
  rw [cut, whole, List.takeWhile_append_of_pos word]
  simp [ends]

theorem sites_in_order (n : Nat) (gap : Bool) (runs : List (List Char)) :
    (sites n gap runs).Pairwise (fun s t => s.span.stop ≤ t.span.start) ∧
      ∀ s ∈ sites n gap runs, n ≤ s.span.start ∧ s.span.start < s.span.stop := by
  fun_induction sites n gap runs with
  | case1 => simp
  | case2 n gap more ih => exact ih
  | case3 n gap c rest more k hk ih =>
    refine ⟨ih.1, fun s hs => ?_⟩
    have later := ih.2 s hs
    exact ⟨by omega, later.2⟩
  | case4 n gap c rest more k hk ih =>
    have size : 0 < byteCount (c :: rest) := by
      have pos := c.utf8Size_pos
      simp only [byteCount]
      omega
    refine ⟨List.pairwise_cons.mpr ⟨fun s hs => (ih.2 s hs).1, ih.1⟩, ?_⟩
    refine List.forall_mem_cons.mpr ⟨⟨Nat.le_refl n, by dsimp only; omega⟩, fun s hs => ?_⟩
    have later := ih.2 s hs
    exact ⟨by omega, later.2⟩

theorem inOrder_of_sites {us : List Token} {n : Nat} {gap : Bool} {runs : List (List Char)}
    (h : us.map Token.site = sites n gap runs) : InOrder us := by
  have ordered := sites_in_order n gap runs
  rw [← h] at ordered
  refine ⟨List.pairwise_map.mp ordered.1, fun t ht => ?_⟩
  exact (ordered.2 t.site (List.mem_map_of_mem ht)).2

theorem inOrder_significant (text : String) : InOrder (significant (Token.ofText text)) :=
  inOrder_of_sites (map_site_significant text)

theorem sites_append (n : Nat) (gap : Bool) (runs more : List (List Char)) :
    sites n gap (runs ++ more) =
      sites n gap runs ++ sites (n + byteCount runs.flatten) (gapBehind gap runs) more := by
  induction runs generalizing n gap with
  | nil => rfl
  | cons run runs ih =>
    cases run with
    | nil => exact ih n gap
    | cons c rest =>
      have offset : n + byteCount ((c :: rest) :: runs).flatten =
          n + byteCount (c :: rest) + byteCount runs.flatten := by
        rw [List.flatten_cons, byteCount_append, Nat.add_assoc]
      rw [offset, List.cons_append, sites, sites, gapBehind]
      cases Lexeme.ofRun c rest with
      | separator k => exact ih _ true
      | token k => exact congrArg (_ :: ·) (ih _ false)

theorem gapBehind_append (gap : Bool) (runs more : List (List Char)) :
    gapBehind gap (runs ++ more) = gapBehind (gapBehind gap runs) more := by
  induction runs generalizing gap with
  | nil => rfl
  | cons run runs ih =>
    cases run with
    | nil => exact ih gap
    | cons c rest =>
      rw [List.cons_append, gapBehind, gapBehind]
      cases Lexeme.ofRun c rest with
      | separator k => exact ih true
      | token k => exact ih false

theorem sites_eq_append {n : Nat} {gap : Bool} {runs : List (List Char)} {ss ts : List Site}
    (h : sites n gap runs = ss ++ ts) : ∃ left right, runs = left ++ right ∧
      sites n gap left = ss ∧ sites (n + byteCount left.flatten) (gapBehind gap left) right = ts ∧
      (ss = [] → left = []) ∧ (ss ≠ [] → gapBehind gap left = false) := by
  induction runs generalizing n gap ss with
  | nil =>
    obtain ⟨rfl, rfl⟩ := List.append_eq_nil_iff.mp h.symm
    exact ⟨[], [], rfl, rfl, rfl, fun _ => rfl, fun none => absurd rfl none⟩
  | cons run more ih =>
    cases ss with
    | nil => exact ⟨[], run :: more, rfl, rfl, h, fun _ => rfl, fun none => absurd rfl none⟩
    | cons s ss =>
      cases run with
      | nil =>
        obtain ⟨left, right, rfl, hs, ht, -, closed⟩ := ih h
        exact ⟨[] :: left, right, rfl, hs, ht, nofun, closed⟩
      | cons c rest =>
        have offset (left : List (List Char)) : n + byteCount ((c :: rest) :: left).flatten =
            n + byteCount (c :: rest) + byteCount left.flatten := by
          rw [List.flatten_cons, byteCount_append, Nat.add_assoc]
        cases hk : Lexeme.ofRun c rest with
        | separator k =>
          simp only [sites, hk] at h
          obtain ⟨left, right, rfl, hs, ht, -, closed⟩ := ih h
          refine ⟨(c :: rest) :: left, right, rfl, ?_, ?_, nofun, ?_⟩
          · simp only [sites, hk, hs]
          · simp only [offset, gapBehind, hk, ht]
          · simpa only [gapBehind, hk] using closed
        | token k =>
          simp only [sites, hk, List.cons_append, List.cons.injEq] at h
          obtain ⟨left, right, rfl, hs, ht, empty, closed⟩ := ih h.2
          refine ⟨(c :: rest) :: left, right, rfl, ?_, ?_, nofun, fun _ => ?_⟩
          · simp only [sites, hk, hs, h.1]
          · simp only [offset, gapBehind, hk, ht]
          · simp only [gapBehind, hk]
            by_cases hss : ss = []
            · rw [empty hss]
              rfl
            · exact closed hss

theorem sites_eq_cons {n : Nat} {gap : Bool} {runs : List (List Char)} {s : Site} {ss : List Site}
    (h : sites n gap runs = s :: ss) : ∃ seps c rest k more, runs = seps ++ (c :: rest) :: more ∧
      Lexeme.ofRun c rest = .token k ∧ sites n gap seps = [] := by
  induction runs generalizing n gap with
  | nil => cases h
  | cons run more ih =>
    cases run with
    | nil =>
      obtain ⟨seps, c, rest, k, later, rfl, hk, none⟩ := ih h
      exact ⟨[] :: seps, c, rest, k, later, rfl, hk, none⟩
    | cons d tail =>
      cases hd : Lexeme.ofRun d tail with
      | separator v =>
        simp only [sites, hd] at h
        obtain ⟨seps, c, rest, k, later, rfl, hk, none⟩ := ih h
        refine ⟨(d :: tail) :: seps, c, rest, k, later, rfl, hk, ?_⟩
        simp only [sites, hd, none]
      | token k => exact ⟨[], d, tail, k, more, rfl, hd, rfl⟩

theorem stop_of_closed {n : Nat} {gap : Bool} {runs : List (List Char)}
    (closed : gapBehind gap runs = false) :
    (gap = false ∧ sites n gap runs = [] ∧ runs.flatten = []) ∨
      ∃ s, (sites n gap runs).getLast? = some s ∧ s.span.stop = n + byteCount runs.flatten := by
  fun_induction sites n gap runs with
  | case1 n gap => exact .inl ⟨closed, rfl, rfl⟩
  | case2 n gap more ih => exact ih closed
  | case3 n gap c rest more k hk ih =>
    simp only [gapBehind, hk] at closed
    rcases ih closed with ⟨open_, -⟩ | ⟨s, last, stop⟩
    · cases open_
    · refine .inr ⟨s, last, ?_⟩
      rw [stop, List.flatten_cons, byteCount_append, Nat.add_assoc]
  | case4 n gap c rest more k hk ih =>
    simp only [gapBehind, hk] at closed
    rcases ih closed with ⟨-, none, empty⟩ | ⟨s, last, stop⟩
    · refine .inr ⟨_, by rw [none]; rfl, ?_⟩
      rw [List.flatten_cons, empty, List.append_nil]
      rfl
    · refine .inr ⟨s, by rw [List.getLast?_cons, last]; rfl, ?_⟩
      rw [stop, List.flatten_cons, byteCount_append, Nat.add_assoc]

theorem isSeparator_of_sites_eq_nil {n : Nat} {gap : Bool} {runs : List (List Char)}
    (lexed : Lexed runs) (h : sites n gap runs = []) :
    ∀ c ∈ runs.flatten, isSeparator c = true := by
  fun_induction sites n gap runs with
  | case1 => simp
  | case2 => exact absurd rfl lexed.1
  | case3 n gap c rest more k hk ih =>
    rw [List.flatten_cons, List.forall_mem_append]
    refine ⟨fun d hd => ?_, ih lexed.2.2.2 h⟩
    rw [eq_of_isChain isSeparator_of_sameLexeme lexed.2.1 d hd]
    exact isSeparator_of_separator hk
  | case4 => cases h

theorem Lexed.restrict {runs part : List (List Char)} (h : Lexed runs) (inside : part <:+: runs) :
    Lexed part := by
  have chain := List.IsChain.infix (isChain_of_lexed h) inside
  refine lexed_of_isChain (fun empty => ?_) (fun run hr => ?_) chain
  · exact (h.forall [] (inside.subset empty)).1 rfl
  · exact (h.forall run (inside.subset hr)).2

theorem extent_eq (us : List Token) : extent us =
    ⟨((us.map Token.site).head?.map (·.span.start)).getD 0,
      ((us.map Token.site).getLast?.map (·.span.stop)).getD 0⟩ := by
  rw [List.head?_map, List.getLast?_map, Option.map_map, Option.map_map]
  rfl

theorem extent_of_sites {us : List Token} {n : Nat} {gap : Bool} {c : Char} {rest : List Char}
    {k : Token.Kind} {more : List (List Char)}
    (h : us.map Token.site = sites n gap ((c :: rest) :: more))
    (hk : Lexeme.ofRun c rest = .token k) (closed : gapBehind gap ((c :: rest) :: more) = false) :
    extent us = ⟨n, n + byteCount ((c :: rest) :: more).flatten⟩ := by
  have start : (sites n gap ((c :: rest) :: more)).head?.map (·.span.start) = some n := by
    simp only [sites, hk, List.head?_cons, Option.map_some]
  rw [extent_eq, h, start]
  rcases stop_of_closed (n := n) closed with ⟨-, none, -⟩ | ⟨s, last, stop⟩
  · rw [none] at start
    cases start
  · rw [last, Option.map_some, stop]
    rfl

/-- The part of a text that some of its tokens take up, from the first of them to the last. -/
structure Excerpt (text : String) (us : List Token) (before : List Char)
    (runs : List (List Char)) (after : List Char) : Prop where
  split : text.toList = before ++ (runs.flatten ++ after)
  lexed : Lexed runs
  extent : extent us = ⟨byteCount before, byteCount before + byteCount runs.flatten⟩
  sites : ∃ gap, us.map Token.site = sites (byteCount before) gap runs
  first : ∃ c rest k more, runs = (c :: rest) :: more ∧ Lexeme.ofRun c rest = .token k
  closed : gapBehind false runs = false

/-- Tokens of a text that follow one another take up a part of it. Outside all of its tokens there
    are separators only. -/
theorem exists_excerpt {text : String} {us vs ws : List Token}
    (split : us ++ vs ++ ws = significant (Token.ofText text)) (nonempty : vs ≠ []) :
    ∃ before runs after, Excerpt text vs before runs after ∧
      (us = [] → ∀ c ∈ before, isSeparator c = true) ∧
      (ws = [] → ∀ c ∈ after, isSeparator c = true) := by
  have whole := map_site_significant text
  rw [← split, List.append_assoc, List.map_append, List.map_append, eq_comm] at whole
  obtain ⟨left, right, cut, -, hright, empty, -⟩ := sites_eq_append whole
  obtain ⟨mid, tail, rfl, hmid, htail, -, closed⟩ := sites_eq_append hright
  obtain ⟨t, vs, rfl⟩ := List.exists_cons_of_ne_nil nonempty
  obtain ⟨seps, c, rest, k, more, rfl, hk, none⟩ := sites_eq_cons hmid
  have lexed {part : List (List Char)} (inside : part <:+: lexemes text.toList) : Lexed part :=
    (lexed_lexemes text.toList).restrict inside
  have closed := closed (by simp)
  rw [gapBehind_append] at closed
  have before : 0 + byteCount left.flatten + byteCount seps.flatten =
      byteCount (left.flatten ++ seps.flatten) := by
    rw [byteCount_append, Nat.zero_add]
  rw [sites_append, none, List.nil_append, before] at hmid
  refine ⟨left.flatten ++ seps.flatten, (c :: rest) :: more, tail.flatten,
    ⟨?_, ?_, ?_, ⟨_, hmid.symm⟩, ⟨c, rest, k, more, rfl, hk⟩, ?_⟩, ?_, ?_⟩
  · rw [← flatten_lexemes text.toList, cut]
    simp
  · exact lexed ⟨left ++ seps, tail, by simp [cut]⟩
  · exact extent_of_sites hmid.symm hk closed
  · simpa only [gapBehind, hk] using closed
  · rintro rfl
    rw [empty rfl, List.flatten_nil, List.nil_append]
    refine isSeparator_of_sites_eq_nil (lexed ⟨left, (c :: rest) :: more ++ tail, ?_⟩) none
    simp [cut]
  · rintro rfl
    exact isSeparator_of_sites_eq_nil
      (lexed ⟨left ++ (seps ++ (c :: rest) :: more), [], by simp [cut]⟩) htail

theorem exists_excerpt_whole {text : String} (nonempty : significant (Token.ofText text) ≠ []) :
    ∃ before runs after, Excerpt text (significant (Token.ofText text)) before runs after ∧
      (∀ c ∈ before, isSeparator c = true) ∧ ∀ c ∈ after, isSeparator c = true := by
  have split : [] ++ significant (Token.ofText text) ++ [] = significant (Token.ofText text) :=
    List.append_nil _
  obtain ⟨before, runs, after, excerpt, left, right⟩ := exists_excerpt split nonempty
  exact ⟨before, runs, after, excerpt, left rfl, right rfl⟩

end ShapeSchema
