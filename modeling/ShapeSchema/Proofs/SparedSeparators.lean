import ShapeSchema.Canonical
import ShapeSchema.Proofs.LexemeCells
set_option autoImplicit false

namespace ShapeSchema

namespace Token.Kind

/-- Separators behind a token of this kind may have to stay. -/
def endsDeclaration : Kind → Bool
  | .name _ | .invalid _ _ => true
  | .punctuator p => p = .bang || p = .bracketClose
  | .endOfInput => false

/-- Separators in front of a token of this kind may have to stay. -/
def startsDeclaration : Kind → Bool
  | .name _ | .invalid _ _ => true
  | .punctuator _ | .endOfInput => false

end Token.Kind

/-- The mark without separators that can be spared; `closed` tells whether the mark before it ends a
    declaration. -/
def Mark.spared (closed : Bool) (m : Mark) : Mark :=
  ⟨m.kind, m.apart && closed && m.kind.startsDeclaration⟩

def Mark.spare (closed : Bool) : List Mark → List Mark
  | [] => []
  | m :: ms => m.spared closed :: spare m.kind.endsDeclaration ms

def Cell.spare (closed : Bool) : List Cell → List Cell
  | [] => []
  | c :: cs => ⟨c.run, c.mark.spared closed⟩ :: spare c.mark.kind.endsDeclaration cs

theorem Cell.map_mark_spare (closed : Bool) (cs : List Cell) :
    (Cell.spare closed cs).map Cell.mark = Mark.spare closed (cs.map Cell.mark) := by
  induction cs generalizing closed with
  | nil => rfl
  | cons c cs ih => rw [spare, List.map_cons, ih, List.map_cons, Mark.spare]

def endsBefore (before : Option Char) : Bool :=
  before.any fun c => c == '!' || c == ']' || !isPunctuator c

theorem any_keepsSeparator (before : Option Char) (next : Char) :
    before.any (keepsSeparator · next) = (endsBefore before && !isPunctuator next) := by
  cases before <;> rfl

theorem not_isPunctuator_of_isNameChar {c : Char} (h : isNameChar c = true) :
    isPunctuator c = false := by
  unfold isPunctuator
  cases hp : Punctuator.ofChar? c with
  | none => rfl
  | some p =>
    rw [← Punctuator.char_eq_of_ofChar? hp, not_isNameChar_char] at h
    cases h

theorem not_isPunctuator_of_sameLexeme {a b : Char} (h : sameLexeme a b = true) :
    isPunctuator a = false ∧ isPunctuator b = false := by
  simp only [sameLexeme, Bool.or_eq_true, Bool.and_eq_true] at h
  rcases h with ⟨ha, hb⟩ | ⟨ha, hb⟩
  · constructor <;> apply not_isPunctuator_of_isSeparator <;> simp [isSeparator, ha, hb]
  · exact ⟨not_isPunctuator_of_isNameChar ha, not_isPunctuator_of_isNameChar hb⟩

theorem kind_of_ofRun {c : Char} {rest : List Char} {k : Token.Kind}
    (h : Lexeme.ofRun c rest = .token k) :
    (∃ p, k = .punctuator p ∧ c = p.char) ∨
      isPunctuator c = false ∧ k.startsDeclaration = true ∧ k.endsDeclaration = true := by
  unfold Lexeme.ofRun at h
  split at h
  · cases h
  · split at h
    · cases h
    · split at h
      · next p hp =>
        cases h
        exact .inl ⟨p, rfl, (Punctuator.char_eq_of_ofChar? hp).symm⟩
      · next hp =>
        have hp : isPunctuator c = false := by rw [isPunctuator, hp]; rfl
        refine .inr ⟨hp, ?_⟩
        split at h
        · cases h
          exact ⟨rfl, rfl⟩
        · split at h <;> cases h <;> exact ⟨rfl, rfl⟩

theorem isPunctuator_char (p : Punctuator) : isPunctuator p.char = true := by
  rw [isPunctuator, Punctuator.ofChar?_char]
  rfl

theorem rest_eq_nil_of_isPunctuator {c : Char} {rest : List Char}
    (chain : (c :: rest).IsChain fun a b => sameLexeme a b) (h : isPunctuator c = true) :
    rest = [] := by
  cases rest with
  | nil => rfl
  | cons d rest =>
    have hcd := not_isPunctuator_of_sameLexeme (List.isChain_cons_cons.mp chain).1
    rw [h] at hcd
    cases hcd.1

theorem endsBefore_char (p : Punctuator) :
    endsBefore (some p.char) = Token.Kind.endsDeclaration (.punctuator p) := by
  cases p <;> decide

namespace Cell.Sound

variable {c : Cell}

theorem startsDeclaration (h : c.Sound) :
    ∀ d ∈ c.run.head?, (!isPunctuator d) = c.mark.kind.startsDeclaration := by
  obtain ⟨d, rest, hrun, hk⟩ := h.means
  rw [hrun]
  rintro _ ⟨⟩
  rcases kind_of_ofRun hk with ⟨p, hp, hd⟩ | ⟨hd, hstart, -⟩
  · rw [hp, hd, isPunctuator_char]
    rfl
  · rw [hd, hstart]
    rfl

theorem endsDeclaration (h : c.Sound) : endsBefore c.run.getLast? = c.mark.kind.endsDeclaration := by
  obtain ⟨d, rest, hrun, hk⟩ := h.means
  have chain := h.chain
  rw [hrun] at chain ⊢
  rcases kind_of_ofRun hk with ⟨p, hp, hd⟩ | ⟨hd, -, hends⟩
  · have alone : rest = [] :=
      rest_eq_nil_of_isPunctuator chain (by rw [hd]; exact isPunctuator_char p)
    rw [alone, hp, hd]
    exact endsBefore_char p
  · have shared {a b : Char} (hab : sameLexeme a b = true) : isPunctuator a = isPunctuator b := by
      rw [(not_isPunctuator_of_sameLexeme hab).1, (not_isPunctuator_of_sameLexeme hab).2]
    have hlast := List.getLast_mem (List.cons_ne_nil d rest)
    have last := eq_of_isChain shared chain _ hlast
    rw [List.getLast?_eq_some_getLast (List.cons_ne_nil d rest), endsBefore, Option.any_some, last,
      hd, hends]
    simp

end Cell.Sound

theorem squeeze_separator {c : Char} (h : isSeparator c = true) (before : Option Char) (gap : Bool)
    (cs : List Char) : squeeze before gap (c :: cs) = squeeze before true cs := by
  rw [squeeze, if_pos h]

theorem squeeze_other {c : Char} (h : isSeparator c = false) (before : Option Char) (gap : Bool)
    (cs : List Char) : squeeze before gap (c :: cs) =
      (if gap && before.any (keepsSeparator · c) then [' '] else []) ++
        c :: squeeze (some c) false cs := by
  rw [squeeze, if_neg (by simp [h])]
  split <;> rfl

theorem squeeze_separators {run : List Char} (hrun : run ≠ [])
    (separators : ∀ d ∈ run, isSeparator d = true) (before : Option Char) (gap : Bool)
    (cs : List Char) : squeeze before gap (run ++ cs) = squeeze before true cs := by
  induction run generalizing gap with
  | nil => exact absurd rfl hrun
  | cons d run ih =>
    rw [List.cons_append, squeeze_separator (separators d List.mem_cons_self)]
    by_cases more : run = []
    · rw [more, List.nil_append]
    · exact ih more (fun e he => separators e (List.mem_cons_of_mem _ he)) true

theorem squeeze_rest {rest : List Char} (kept : ∀ d ∈ rest, isSeparator d = false) (c : Char)
    (cs : List Char) :
    squeeze (some c) false (rest ++ cs) = rest ++ squeeze (c :: rest).getLast? false cs := by
  induction rest generalizing c with
  | nil => rfl
  | cons d rest ih =>
    have tail := ih (fun e he => kept e (List.mem_cons_of_mem _ he)) d
    rw [List.cons_append, squeeze_other (kept d List.mem_cons_self), tail]
    rfl

theorem squeeze_token {c : Char} {rest : List Char} (kept : ∀ d ∈ c :: rest, isSeparator d = false)
    (before : Option Char) (gap : Bool) (cs : List Char) :
    squeeze before gap (c :: rest ++ cs) =
      (if gap && endsBefore before && !isPunctuator c then [' '] else []) ++
        (c :: rest ++ squeeze (c :: rest).getLast? false cs) := by
  have tail := squeeze_rest (fun e he => kept e (List.mem_cons_of_mem _ he)) c cs
  rw [List.cons_append, squeeze_other (kept c List.mem_cons_self), any_keepsSeparator, tail,
    ← Bool.and_assoc]
  rfl

theorem squeeze_cells {runs : List (List Char)} (lexed : Lexed runs) {before : Option Char}
    {closed : Bool} (hbefore : endsBefore before = closed) (gap : Bool) :
    squeeze before gap runs.flatten =
      ((Cell.spare closed (cells gap runs)).flatMap Cell.runs).flatten := by
  fun_induction cells gap runs generalizing before closed with
  | case1 => rfl
  | case2 => exact absurd rfl lexed.1
  | case3 gap c rest more k hk ih =>
    have separators : ∀ d ∈ c :: rest, isSeparator d = true := fun d hd =>
      (eq_of_isChain isSeparator_of_sameLexeme lexed.2.1 d hd).trans (isSeparator_of_separator hk)
    rw [List.flatten_cons, squeeze_separators lexed.1 separators]
    exact ih lexed.2.2.2 hbefore
  | case4 gap c rest more k hk ih =>
    have sound : Cell.Sound ⟨c :: rest, ⟨k, gap⟩⟩ := ⟨lexed.2.1, c, rest, rfl, hk⟩
    have tail := ih lexed.2.2.2 sound.endsDeclaration
    have starts := sound.startsDeclaration c rfl
    rw [List.flatten_cons, squeeze_token sound.not_isSeparator, tail, hbefore, starts]
    simp only [Cell.spare, Mark.spared, List.flatMap_cons, Cell.runs, List.flatten_append]
    cases gap && closed && Token.Kind.startsDeclaration k <;> simp

theorem canonical_eq_text (text : String) :
    canonical text = Cell.text (Cell.spare false (cellsOf text)) := by
  have start : endsBefore none = false := rfl
  have squeezed := squeeze_cells (lexed_lexemes text.toList) start false
  rw [flatten_lexemes] at squeezed
  rw [canonical, squeezed]
  rfl

namespace Cell

theorem sound_spare {cs : List Cell} (sound : ∀ c ∈ cs, c.Sound) (closed : Bool) :
    ∀ c ∈ spare closed cs, c.Sound := by
  induction cs generalizing closed with
  | nil => exact sound
  | cons c cs ih =>
    have hc := sound c List.mem_cons_self
    have tail := ih (fun d hd => sound d (List.mem_cons_of_mem _ hd)) c.mark.kind.endsDeclaration
    exact List.forall_mem_cons.mpr ⟨⟨hc.chain, hc.means⟩, tail⟩

/-- No lexeme reaches over a place where separators are spared. -/
theorem Sound.border {c : Cell} (h : c.Sound) {before : List Char} {closed : Bool}
    (hbefore : endsBefore before.getLast? = closed)
    (spared : (closed && c.mark.kind.startsDeclaration) = false) : Border before c.run := by
  intro a ha d hd
  by_contra same
  have plain := not_isPunctuator_of_sameLexeme (by simpa using same)
  have starts := h.startsDeclaration d hd
  rw [plain.2] at starts
  rw [ha] at hbefore
  rw [← hbefore, ← starts, endsBefore, Option.any_some, plain.1] at spared
  simp at spared

theorem divided_spare {cs : List Cell} (sound : ∀ c ∈ cs, c.Sound) {before : List Char}
    {closed : Bool} (hbefore : endsBefore before.getLast? = closed) (divided : Divided before cs) :
    Divided before (spare closed cs) := by
  induction cs generalizing before closed with
  | nil => trivial
  | cons c cs ih =>
    have hc := sound c List.mem_cons_self
    refine ⟨?_, ih (fun d hd => sound d (List.mem_cons_of_mem _ hd)) hc.endsDeclaration divided.2⟩
    rcases divided.1 with apart | border
    · cases spared : closed && c.mark.kind.startsDeclaration with
      | true =>
        left
        rw [Mark.spared, apart, Bool.true_and, spared]
      | false => exact .inr (hc.border hbefore spared)
    · exact .inr border

end Cell

theorem sound_spare_cellsOf (text : String) : ∀ c ∈ Cell.spare false (cellsOf text), c.Sound :=
  Cell.sound_spare (sound_cellsOf text) false

theorem lexemes_canonical (text : String) :
    lexemes (canonical text).toList = (Cell.spare false (cellsOf text)).flatMap Cell.runs := by
  have divided : Cell.Divided [] (cellsOf text) :=
    divided_cells (lexed_lexemes text.toList) (.inr (border_nil_left _))
  rw [canonical_eq_text]
  exact Cell.lexemes_text (sound_spare_cellsOf text)
    (Cell.divided_spare (sound_cellsOf text) rfl divided)

/-- The canonical text has the cells of the text, without the separators that can be spared. -/
theorem cellsOf_canonical (text : String) :
    cellsOf (canonical text) = Cell.spare false (cellsOf text) := by
  rw [cellsOf, lexemes_canonical, Cell.cells_runs (sound_spare_cellsOf text)]

theorem byteCount_squeeze_le (before : Option Char) (gap : Bool) (cs : List Char) :
    byteCount (squeeze before gap cs) ≤ byteCount cs + if gap then 1 else 0 := by
  have cons (c : Char) (cs : List Char) : byteCount (c :: cs) = c.utf8Size + byteCount cs := by
    simp [byteCount]
  have space : Char.utf8Size ' ' = 1 := by decide
  fun_induction squeeze before gap cs with
  | case1 => simp [byteCount]
  | case2 before gap c rest hc ih =>
    have positive := c.utf8Size_pos
    rw [cons]
    simp only [if_true] at ih
    omega
  | case3 before gap c rest hc keep ih =>
    have hgap : gap = true := by
      rw [Bool.and_eq_true] at keep
      exact keep.1
    rw [cons, cons, cons, space, hgap]
    simp only [Bool.false_eq_true, if_false] at ih
    simp only [if_true]
    omega
  | case4 before gap c rest hc keep ih =>
    rw [cons, cons]
    simp only [Bool.false_eq_true, if_false] at ih
    omega

theorem utf8ByteSize_canonical_le (text : String) :
    (canonical text).utf8ByteSize ≤ text.utf8ByteSize := by
  have := byteCount_squeeze_le none false text.toList
  rw [byteCount_toList] at this
  rw [canonical, utf8ByteSize_ofList]
  exact this

theorem isSqueezed_squeeze (before : Option Char) (gap : Bool) (cs : List Char) :
    isSqueezed before (squeeze before gap cs) = true := by
  have space : isSeparator ' ' = true := by decide
  fun_induction squeeze before gap cs with
  | case1 => rfl
  | case2 _ _ _ _ _ ih => exact ih
  | case3 before gap c rest hc keep ih =>
    have hc : isSeparator c = false := by simpa using hc
    rw [Bool.and_eq_true] at keep
    simp [isSqueezed, space, hc, keep.2, ih]
  | case4 before gap c rest hc keep ih =>
    have hc : isSeparator c = false := by simpa using hc
    simp [isSqueezed, hc, ih]

theorem isCanonical_canonical (text : String) : isCanonical (canonical text) = true := by
  rw [isCanonical, canonical, String.toList_ofList]
  exact isSqueezed_squeeze _ _ _

end ShapeSchema
