import ShapeSchema.Proofs.LosslessTokens
import ShapeSchema.Proofs.TreeMarks
set_option autoImplicit false

namespace ShapeSchema

def Token.mark (t : Token) : Mark := ⟨t.kind, t.isSeparated⟩

structure Cell where
  run : List Char
  mark : Mark

/-- The cells of runs; `gap` tells whether separators stand in front of the first. -/
def cells (gap : Bool) : List (List Char) → List Cell
  | [] => []
  | [] :: more => cells gap more
  | (c :: rest) :: more =>
    match Lexeme.ofRun c rest with
    | .separator _ => cells true more
    | .token k => ⟨c :: rest, ⟨k, gap⟩⟩ :: cells false more

def cellsOf (text : String) : List Cell := cells false (lexemes text.toList)

def Mark.behind (gap : Bool) (ms : List Mark) : List Mark := if gap then standApart ms else ms

theorem map_mark_addTrivia (v : Trivia) (ts : List Token) :
    (Token.addTrivia v ts).map Token.mark = Mark.standApart (ts.map Token.mark) := by
  cases ts <;> rfl

theorem Mark.behind_standApart (gap : Bool) (ms : List Mark) :
    Mark.behind gap (standApart ms) = Mark.behind true ms := by
  cases gap <;> cases ms <;> rfl

theorem map_mark_scan (gap : Bool) (p : Position) (runs : List (List Char)) :
    ∃ apart, Mark.behind gap ((Token.scan p runs).map Token.mark) =
      (cells gap runs).map Cell.mark ++ [⟨.endOfInput, apart⟩] := by
  fun_induction cells gap runs generalizing p with
  | case1 gap => cases gap <;> exact ⟨_, rfl⟩
  | case2 gap more ih => exact ih p
  | case3 gap c rest more k hk ih =>
    have tail := ih (p.through (c :: rest))
    simpa only [Token.scan, hk, map_mark_addTrivia, Mark.behind_standApart] using tail
  | case4 gap c rest more k hk ih =>
    have ⟨apart, tail⟩ := ih (p.through (c :: rest))
    refine ⟨apart, ?_⟩
    rw [List.map_cons, List.cons_append, ← tail, Token.scan]
    simp only [hk]
    cases gap <;> rfl

/-- The cells of a text tell its tokens, except for spans. -/
theorem map_mark_ofText (text : String) :
    ∃ apart, (Token.ofText text).map Token.mark =
      (cellsOf text).map Cell.mark ++ [⟨.endOfInput, apart⟩] :=
  map_mark_scan false .start _

namespace Cell

structure Sound (c : Cell) : Prop where
  chain : c.run.IsChain fun a b => sameLexeme a b
  means : ∃ d rest, c.run = d :: rest ∧ Lexeme.ofRun d rest = .token c.mark.kind

/-- No lexeme runs from one cell into the next, nor from `before` into the first. -/
def Divided (before : List Char) : List Cell → Prop
  | [] => True
  | c :: cs => (c.mark.apart = true ∨ Border before c.run) ∧ Divided c.run cs

def runs (c : Cell) : List (List Char) := (if c.mark.apart then [[' ']] else []) ++ [c.run]

def text (cs : List Cell) : String := String.ofList (cs.flatMap runs).flatten

theorem Sound.run_ne_nil {c : Cell} (h : c.Sound) : c.run ≠ [] := by
  obtain ⟨d, rest, hrun, -⟩ := h.means
  rw [hrun]
  exact List.cons_ne_nil d rest

end Cell

theorem isSeparator_of_token {c : Char} {rest : List Char} {k : Token.Kind}
    (h : Lexeme.ofRun c rest = .token k) : isSeparator c = false := by
  unfold Lexeme.ofRun at h
  split at h
  · cases h
  · next hw =>
    split at h
    · cases h
    · next hs => simpa [isSeparator, hs] using hw

theorem isSeparator_of_separator {c : Char} {rest : List Char} {k : Trivia.Kind}
    (h : Lexeme.ofRun c rest = .separator k) : isSeparator c = true := by
  by_contra hs
  have hs : isWhitespace c = false ∧ c ≠ ';' := by simpa [isSeparator, and_comm] using hs
  unfold Lexeme.ofRun at h
  rw [if_neg (by simp [hs.1]), if_neg hs.2] at h
  split at h
  · cases h
  · split at h
    · cases h
    · split at h <;> cases h

theorem isSeparator_of_sameLexeme {a b : Char} (h : sameLexeme a b = true) :
    isSeparator a = isSeparator b := by
  have semicolon : isWhitespace ';' = false ∧ isNameChar ';' = false := by decide
  have hab : a ≠ ';' ∧ b ≠ ';' := by
    constructor <;> rintro rfl <;> simp [sameLexeme, semicolon] at h
  have ha : (a == ';') = false := by simpa using hab.1
  have hb : (b == ';') = false := by simpa using hab.2
  rw [isSeparator, isSeparator, ha, hb, isWhitespace_of_sameLexeme h]

namespace Cell

theorem Sound.not_isSeparator {c : Cell} (h : c.Sound) : ∀ d ∈ c.run, isSeparator d = false := by
  obtain ⟨d, rest, hrun, hk⟩ := h.means
  have chain := h.chain
  rw [hrun] at chain ⊢
  intro e he
  rw [eq_of_isChain isSeparator_of_sameLexeme chain e he]
  exact isSeparator_of_token hk

theorem Sound.border_space {c : Cell} (h : c.Sound) : Border [' '] c.run ∧ Border c.run [' '] := by
  have space : isNameChar ' ' = false := by decide
  have word {d : Char} (hd : d ∈ c.run) : isWhitespace d = false := by
    have := h.not_isSeparator d hd
    simp only [isSeparator, Bool.or_eq_false_iff] at this
    exact this.2
  constructor
  · intro a ha d hd
    cases ha
    simp [sameLexeme, space, word (List.mem_of_mem_head? hd)]
  · intro d hd a ha
    cases ha
    simp [sameLexeme, space, word (List.mem_of_mem_getLast? hd)]

end Cell

theorem sound_cells {gap : Bool} {runs : List (List Char)} (lexed : Lexed runs) :
    ∀ c ∈ cells gap runs, c.Sound := by
  fun_induction cells gap runs with
  | case1 => simp
  | case2 => exact absurd rfl lexed.1
  | case3 gap c rest more k hk ih => exact ih lexed.2.2.2
  | case4 gap c rest more k hk ih =>
    have head : Cell.Sound ⟨c :: rest, ⟨k, gap⟩⟩ := ⟨lexed.2.1, c, rest, rfl, hk⟩
    exact List.forall_mem_cons.mpr ⟨head, ih lexed.2.2.2⟩

theorem divided_cells {gap : Bool} {before : List Char} {runs : List (List Char)}
    (lexed : Lexed runs) (border : gap = true ∨ Border before runs.flatten) :
    Cell.Divided before (cells gap runs) := by
  fun_induction cells gap runs generalizing before with
  | case1 => trivial
  | case2 => exact absurd rfl lexed.1
  | case3 gap c rest more k hk ih => exact ih lexed.2.2.2 (.inl rfl)
  | case4 gap c rest more k hk ih =>
    rw [List.flatten_cons, border_append_right lexed.1] at border
    exact ⟨border, ih lexed.2.2.2 (.inr lexed.2.2.1)⟩

theorem sound_cellsOf (text : String) : ∀ c ∈ cellsOf text, c.Sound :=
  sound_cells (lexed_lexemes text.toList)

namespace Cell

variable {cs : List Cell}

theorem lexed_runs {before : List Char} (space : Border before [' ']) (sound : ∀ c ∈ cs, c.Sound)
    (divided : Divided before cs) :
    Border before (cs.flatMap runs).flatten ∧ Lexed (cs.flatMap runs) := by
  induction cs generalizing before with
  | nil =>
    refine ⟨?_, trivial⟩
    intro a _ c hc
    cases hc
  | cons c cs ih =>
    have hc : c.Sound := sound c List.mem_cons_self
    have tail := ih hc.border_space.2 (fun d hd => sound d (List.mem_cons_of_mem _ hd)) divided.2
    have here : Lexed (c.run :: cs.flatMap runs) := ⟨hc.run_ne_nil, hc.chain, tail⟩
    rw [List.flatMap_cons]
    cases hapart : c.mark.apart with
    | false =>
      have border := divided.1.resolve_left (by simp [hapart])
      rw [runs, hapart]
      exact ⟨(border_append_right hc.run_ne_nil _ _).mpr border, here⟩
    | true =>
      rw [runs, hapart]
      refine ⟨(border_append_right (List.cons_ne_nil _ _) _ _).mpr space, ?_⟩
      refine ⟨List.cons_ne_nil _ _, .singleton _, ?_, here⟩
      exact (border_append_right hc.run_ne_nil _ _).mpr hc.border_space.1

theorem cells_runs (sound : ∀ c ∈ cs, c.Sound) : cells false (cs.flatMap runs) = cs := by
  induction cs with
  | nil => rfl
  | cons c cs ih =>
    have tail := ih fun d hd => sound d (List.mem_cons_of_mem _ hd)
    obtain ⟨d, rest, hrun, hk⟩ := (sound c List.mem_cons_self).means
    have space : Lexeme.ofRun ' ' [] = .separator .whitespace := by decide
    obtain ⟨run, kind, apart⟩ := c
    dsimp only at hrun hk
    subst hrun
    cases apart <;> simp [runs, cells, space, hk, tail]

theorem lexemes_text (sound : ∀ c ∈ cs, c.Sound) (divided : Divided [] cs) :
    lexemes (text cs).toList = cs.flatMap runs := by
  rw [text, String.toList_ofList]
  exact lexemes_flatten (lexed_runs (border_nil_left _) sound divided).2

theorem cellsOf_text (sound : ∀ c ∈ cs, c.Sound) (divided : Divided [] cs) :
    cellsOf (text cs) = cs := by
  rw [cellsOf, lexemes_text sound divided, cells_runs sound]

end Cell

end ShapeSchema
