import ShapeSchema.Proofs.AcceptedTrees
import ShapeSchema.Proofs.SparedSeparators
set_option autoImplicit false

/-!
# Canonical texts are printed trees

The grammar demands separators at the same places where the canonical form keeps them. So the
canonical form of an accepted text is its tree, printed; and a printed tree is canonical and reads
back to that tree.
-/

namespace ShapeSchema

namespace Mark

/-- Marks stand apart just where separators could not be spared; `closed` tells whether the mark
    before them ends a declaration. -/
def Settled (closed : Bool) : List Mark → Prop
  | [] => True
  | m :: ms => m.apart = (closed && m.kind.startsDeclaration) ∧ Settled m.kind.endsDeclaration ms

def closedBehind (closed : Bool) : List Mark → Bool
  | [] => closed
  | m :: ms => closedBehind m.kind.endsDeclaration ms

theorem settled_append (closed : Bool) (ms ns : List Mark) :
    Settled closed (ms ++ ns) ↔ Settled closed ms ∧ Settled (closedBehind closed ms) ns := by
  induction ms generalizing closed with
  | nil => simp [Settled, closedBehind]
  | cons m ms ih => simp [Settled, closedBehind, ih, and_assoc]

theorem closedBehind_append (closed : Bool) (ms ns : List Mark) :
    closedBehind closed (ms ++ ns) = closedBehind (closedBehind closed ms) ns := by
  induction ms generalizing closed with
  | nil => rfl
  | cons m ms ih => exact ih _

@[simp]
theorem settled_sign (closed : Bool) (p : Punctuator) (ms : List Mark) :
    Settled closed (.sign p :: ms) ↔ Settled (Token.Kind.endsDeclaration (.punctuator p)) ms := by
  simp [Settled, sign, Token.Kind.startsDeclaration]

@[simp]
theorem settled_word (n : String) (ms : List Mark) :
    Settled false (.word n :: ms) ↔ Settled true ms := by
  simp [Settled, word, Token.Kind.endsDeclaration]

@[simp]
theorem settled_standApart_word (n : String) (ms : List Mark) :
    Settled true (standApart (.word n :: ms)) ↔ Settled true ms := by
  simp [Settled, standApart, word, Token.Kind.endsDeclaration, Token.Kind.startsDeclaration]

/-- Marks of a declaration: in place at the start of a block and, apart, behind another one. -/
structure Declares (ms : List Mark) : Prop where
  first : Settled false ms
  later : Settled true (standApart ms)
  closed : ∀ closed, closedBehind closed ms = true

theorem Declares.closed_standApart {ms : List Mark} (h : Declares ms) :
    closedBehind true (standApart ms) = true := by
  cases ms with
  | nil => rfl
  | cons m ms => exact h.closed true

theorem settled_declarations {mss : List (List Mark)} (h : ∀ ms ∈ mss, Declares ms) :
    Settled false (declarations mss) := by
  have more (nss : List (List Mark)) (hn : ∀ ms ∈ nss, Declares ms) :
      Settled true (nss.flatMap standApart) := by
    induction nss with
    | nil => trivial
    | cons ms nss ih =>
      have hms := hn ms List.mem_cons_self
      rw [List.flatMap_cons, settled_append, hms.closed_standApart]
      exact ⟨hms.later, ih fun ns hns => hn ns (List.mem_cons_of_mem _ hns)⟩
  cases mss with
  | nil => trivial
  | cons ms mss =>
    have hms := h ms List.mem_cons_self
    rw [declarations, settled_append, hms.closed]
    exact ⟨hms.first, more mss fun ns hns => h ns (List.mem_cons_of_mem _ hns)⟩

end Mark

namespace Syntax

open Mark

variable {σ : Type}

theorem settled_bang (bang : Option σ) :
    Settled true (bangMarks bang) ∧ closedBehind true (bangMarks bang) = true := by
  cases bang with
  | none => exact ⟨trivial, rfl⟩
  | some x => exact ⟨(settled_sign true .bang []).mpr trivial, rfl⟩

theorem TypeExpr.settled (t : TypeExpr σ) :
    Settled false t.marks ∧ ∀ closed, closedBehind closed t.marks = true := by
  induction t with
  | named name bang span =>
    have tail := settled_bang bang
    exact ⟨(settled_word _ _).mpr tail.1, fun _ => tail.2⟩
  | list element bang span ih =>
    have tail := settled_bang bang
    rw [marks]
    constructor
    · rw [settled_sign, settled_append, ih.2, settled_sign]
      exact ⟨ih.1, tail.1⟩
    · intro closed
      change closedBehind _ (element.marks ++ _) = true
      rw [closedBehind_append]
      exact tail.2

theorem Parameter.settled (p : Parameter σ) :
    Settled false p.marks ∧ ∀ closed, closedBehind closed p.marks = true := by
  have type := p.type.settled
  rw [marks, settled_word, settled_sign]
  exact ⟨type.1, fun _ => type.2 _⟩

theorem settled_parameterMarks (ps : List (Parameter σ)) (closed : Bool) :
    Settled closed (parameterMarks ps) := by
  have more (qs : List (Parameter σ)) :
      Settled true (qs.flatMap fun p => .sign .comma :: p.marks) ∧
        closedBehind true (qs.flatMap fun p => .sign .comma :: p.marks) = true := by
    induction qs with
    | nil => exact ⟨trivial, rfl⟩
    | cons p qs ih =>
      have hp := p.settled
      rw [List.flatMap_cons, List.cons_append, settled_sign, settled_append, hp.2]
      refine ⟨⟨hp.1, ih.1⟩, ?_⟩
      change closedBehind false (p.marks ++ _) = true
      rw [closedBehind_append, hp.2]
      exact ih.2
  cases ps with
  | nil => trivial
  | cons first ps =>
    have hfirst := first.settled
    have hmore := more ps
    rw [parameterMarks, settled_sign, settled_append, settled_append, hfirst.2]
    exact ⟨⟨hfirst.1, hmore.1⟩, (settled_sign _ _ _).mpr trivial⟩

theorem Field.declares_marks (d : Field σ) : Declares d.marks := by
  have type := d.type.settled
  have tail : Settled true (parameterMarks d.parameters ++ .sign .colon :: d.type.marks) := by
    rw [settled_append, settled_sign]
    exact ⟨settled_parameterMarks _ _, type.1⟩
  refine ⟨(settled_word _ _).mpr tail, (settled_standApart_word _ _).mpr tail, fun closed => ?_⟩
  change closedBehind true (parameterMarks d.parameters ++ .sign .colon :: d.type.marks) = true
  rw [closedBehind_append]
  exact type.2 _

theorem declares_word (n : String) : Declares [.word n] :=
  ⟨(settled_word _ _).mpr trivial, (settled_standApart_word _ _).mpr trivial, fun _ => rfl⟩

theorem Block.settled_marks (b : Block σ) : Settled false b.marks := by
  cases b with
  | object fields span =>
    rw [marks, settled_sign, settled_append, settled_sign]
    refine ⟨settled_declarations ?_, trivial⟩
    intro ms hms
    obtain ⟨d, -, rfl⟩ := List.mem_map.mp hms
    exact d.declares_marks
  | enum values span =>
    rw [marks, settled_word, settled_sign, settled_append, settled_sign]
    refine ⟨settled_declarations ?_, trivial⟩
    intro ms hms
    obtain ⟨v, -, rfl⟩ := List.mem_map.mp hms
    exact declares_word v.text

end Syntax

def Mark.cell (m : Mark) : Cell := ⟨m.kind.text.toList, m⟩

theorem text_map_cell (ms : List Mark) :
    Cell.text (ms.map Mark.cell) = String.ofList (ms.flatMap Mark.chars) := by
  have flat (m : Mark) : m.cell.runs.flatten = m.chars := by
    rw [Cell.runs, Mark.chars, Mark.cell]
    cases m.apart <;> simp
  rw [Cell.text, List.flatMap_map]
  congr 1
  induction ms with
  | nil => rfl
  | cons m ms ih => rw [List.flatMap_cons, List.flatten_append, flat, ih, List.flatMap_cons]

theorem ofRun_char (p : Punctuator) : Lexeme.ofRun p.char [] = .token (.punctuator p) := by
  cases p <;> decide

theorem ofRun_of_isNameStart {c : Char} (rest : List Char) (h : isNameStart c = true) :
    Lexeme.ofRun c rest = .token (.name (String.ofList (c :: rest))) := by
  have hc := isNameChar_of_isNameStart h
  have hw := not_isWhitespace_of_isNameChar hc
  have hs : c ≠ ';' := by
    rintro rfl
    exact absurd h (by decide)
  have hp : Punctuator.ofChar? c = none := by
    simpa [isPunctuator] using not_isPunctuator_of_isNameChar hc
  simp [Lexeme.ofRun, hw, hs, hp, h]

theorem isChain_of_forall_isNameChar {cs : List Char} (h : ∀ c ∈ cs, isNameChar c = true) :
    cs.IsChain fun a b => sameLexeme a b := by
  induction cs with
  | nil => exact .nil
  | cons c cs ih =>
    have tail := ih fun d hd => h d (List.mem_cons_of_mem _ hd)
    refine List.isChain_cons.mpr ⟨fun d hd => ?_, tail⟩
    have hd := h d (List.mem_cons_of_mem _ (List.mem_of_mem_head? hd))
    simp [sameLexeme, h c List.mem_cons_self, hd]

theorem sound_cell {names : List String} (valid : ∀ n ∈ names, isValidName n = true) {m : Mark}
    (h : Syntax.KindFrom names m) : m.cell.Sound := by
  rcases h with ⟨p, hp⟩ | ⟨n, hn, hk⟩
  · have run : m.cell.run = [p.char] := by
      rw [Mark.cell, hp]
      cases p <;> rfl
    refine ⟨by rw [run]; exact .singleton _, p.char, [], run, ?_⟩
    rw [ofRun_char, Mark.cell, hp]
  · have run : m.cell.run = n.toList := by rw [Mark.cell, hk]; rfl
    obtain ⟨c, rest, hcs, start, inside⟩ := exists_cons_of_isValidName (valid n hn)
    rw [hcs] at run
    refine ⟨run ▸ isChain_of_forall_isNameChar inside, c, rest, run, ?_⟩
    rw [ofRun_of_isNameStart rest start, ← hcs, String.ofList_toList, Mark.cell, hk]

theorem divided_map_cell {ms : List Mark} (sound : ∀ m ∈ ms, m.cell.Sound) {before : List Char}
    {closed : Bool} (hbefore : endsBefore before.getLast? = closed)
    (settled : Mark.Settled closed ms) : Cell.Divided before (ms.map Mark.cell) := by
  induction ms generalizing before closed with
  | nil => trivial
  | cons m ms ih =>
    have hm := sound m List.mem_cons_self
    have tail := ih (fun n hn => sound n (List.mem_cons_of_mem _ hn)) hm.endsDeclaration settled.2
    refine ⟨?_, tail⟩
    cases hapart : m.apart with
    | true => exact .inl hapart
    | false => exact .inr (hm.border hbefore (settled.1.symm.trans hapart))

theorem ofRun_text {c : Char} {rest : List Char} {k : Token.Kind}
    (h : Lexeme.ofRun c rest = .token k) (alone : isPunctuator c = true → rest = [])
    (plain : ∀ message notes, k ≠ .invalid message notes) : c :: rest = k.text.toList := by
  unfold Lexeme.ofRun at h
  split at h
  · cases h
  · split at h
    · cases h
    · split at h
      · next p hp =>
        cases h
        have hc := Punctuator.char_eq_of_ofChar? hp
        rw [alone (by rw [← hc]; exact isPunctuator_char p), ← hc]
        cases p <;> rfl
      · split at h
        · cases h
          exact String.toList_ofList.symm
        · split at h <;> cases h <;> exact absurd rfl (plain _ _)

theorem Cell.Sound.run_eq {c : Cell} (h : c.Sound)
    (plain : ∀ message notes, c.mark.kind ≠ .invalid message notes) :
    c.run = c.mark.kind.text.toList := by
  obtain ⟨d, rest, hrun, hk⟩ := h.means
  have chain := h.chain
  rw [hrun] at chain ⊢
  exact ofRun_text hk (rest_eq_nil_of_isPunctuator chain) plain

def Mark.Admits (m n : Mark) : Prop := n.kind = m.kind ∧ (m.apart = true → n.apart = true)

theorem spells_iff_marks {ms : List Mark} {ts : List Token} :
    Spells ms ts ↔ List.Forall₂ Mark.Admits ms (ts.map Token.mark) := by
  rw [List.forall₂_map_right_iff]
  rfl

/-- Cells that meet settled demands are the demands, once separators are spared. -/
theorem spare_eq_of_admits {ms : List Mark} {cs : List Cell}
    (h : List.Forall₂ Mark.Admits ms (cs.map Cell.mark)) (sound : ∀ c ∈ cs, c.Sound)
    (plain : ∀ m ∈ ms, ∀ message notes, m.kind ≠ .invalid message notes) {closed : Bool}
    (settled : Mark.Settled closed ms) : Cell.spare closed cs = ms.map Mark.cell := by
  induction ms generalizing cs closed with
  | nil =>
    cases cs with
    | nil => rfl
    | cons c cs => cases h
  | cons m ms ih =>
    cases cs with
    | nil => cases h
    | cons c cs =>
      obtain ⟨⟨hkind, hapart⟩, htail⟩ := List.forall₂_cons.mp h
      have hrun := (sound c List.mem_cons_self).run_eq
        (by rw [hkind]; exact plain m List.mem_cons_self)
      have tail := ih htail (fun d hd => sound d (List.mem_cons_of_mem _ hd))
        (fun n hn => plain n (List.mem_cons_of_mem _ hn)) settled.2
      have spared : c.mark.spared closed = m := by
        have keep : m.apart = (closed && m.kind.startsDeclaration) := settled.1
        have both : (c.mark.apart && m.apart) = m.apart := by
          cases hm : m.apart with
          | false => rw [Bool.and_false]
          | true => rw [hapart hm, Bool.true_and]
        rw [Mark.spared, hkind, Bool.and_assoc, ← keep, both]
      rw [Cell.spare, List.map_cons, hkind, tail, spared, hrun, hkind]
      rfl

theorem Cell.Sound.kind_ne_endOfInput {c : Cell} (h : c.Sound) : c.mark.kind ≠ .endOfInput := by
  obtain ⟨d, rest, -, hk⟩ := h.means
  intro hend
  rw [hend] at hk
  exact Token.ofRun_ne_endOfInput d rest hk

theorem Token.ofText_eq_append (text : String) :
    ∃ last, ofText text = significant (ofText text) ++ [last] ∧ last.kind = .endOfInput := by
  obtain ⟨init, last, same, ends, -, others⟩ := scan_eq_append .start (lexemes text.toList)
  have whole : ofText text = init ++ [last] := same
  have tokens : significant (ofText text) = init := by
    rw [whole]
    exact significant_append others (by simpa [Parse.AtEnd] using ends)
  exact ⟨last, tokens.symm ▸ whole, ends⟩

theorem map_mark_significant (text : String) :
    (significant (Token.ofText text)).map Token.mark = (cellsOf text).map Cell.mark := by
  obtain ⟨apart, marks⟩ := map_mark_ofText text
  have word : ∀ m ∈ (cellsOf text).map Cell.mark, decide (m.kind ≠ .endOfInput) = true := by
    intro m hm
    obtain ⟨c, hc, rfl⟩ := List.mem_map.mp hm
    exact decide_eq_true (sound_cellsOf text c hc).kind_ne_endOfInput
  have cut : (significant (Token.ofText text)).map Token.mark =
      ((Token.ofText text).map Token.mark).takeWhile fun m => decide (m.kind ≠ .endOfInput) := by
    rw [List.takeWhile_map]
    rfl
  rw [cut, marks, List.takeWhile_append_of_pos word]
  simp

namespace Syntax.Block

variable {σ : Type}

theorem WrittenBy.spare_eq {b : Block σ} {text : String} (h : b.WrittenBy (Token.ofText text)) :
    Cell.spare false (cellsOf text) = b.marks.map Mark.cell := by
  have admits := spells_iff_marks.mp h.2
  rw [map_mark_significant] at admits
  exact spare_eq_of_admits admits (sound_cellsOf text)
    (fun m hm => (b.kindFrom_marks m hm).plain.2) b.settled_marks

theorem WrittenBy.canonical_eq {b : Block σ} {text : String}
    (h : b.WrittenBy (Token.ofText text)) : canonical text = b.print := by
  rw [canonical_eq_text, h.spare_eq, text_map_cell]
  rfl

theorem spells_of_cells {b : Block σ} {text : String}
    (same : cellsOf text = b.marks.map Mark.cell) :
    Spells b.marks (significant (Token.ofText text)) := by
  rw [spells_iff_marks, map_mark_significant, same, List.map_map]
  have marks : b.marks.map (Cell.mark ∘ Mark.cell) = b.marks := List.map_id _
  rw [marks]
  exact List.forall₂_same.mpr fun m _ => ⟨rfl, id⟩

theorem WrittenBy.canonical {b : Block σ} {text : String} (h : b.WrittenBy (Token.ofText text)) :
    b.WrittenBy (Token.ofText (canonical text)) :=
  ⟨h.1, spells_of_cells (by rw [cellsOf_canonical, h.spare_eq])⟩

theorem spells_print {b : Block σ} (valid : ∀ n ∈ b.names, isValidName n = true) :
    Spells b.marks (significant (Token.ofText b.print)) := by
  have names : ∀ n ∈ "enum" :: b.names, isValidName n = true :=
    List.forall_mem_cons.mpr ⟨by decide, valid⟩
  have sound : ∀ m ∈ b.marks, m.cell.Sound := fun m hm => sound_cell names (b.kindFrom_marks m hm)
  have divided : Cell.Divided [] (b.marks.map Mark.cell) :=
    divided_map_cell sound rfl b.settled_marks
  refine spells_of_cells ?_
  rw [print, ← text_map_cell]
  exact Cell.cellsOf_text (by simpa using sound) divided

theorem writtenBy_print {b : Block σ} (valid : ∀ n ∈ b.names, isValidName n = true)
    (flat : b.Shallow) : b.WrittenBy (Token.ofText b.print) := ⟨flat, spells_print valid⟩

theorem bare_writtenBy {b : Block ByteSpan} {text : String}
    (size : text.utf8ByteSize ≤ ByteSpan.limit) (h : (ofText? text).value = .ok b) :
    b.bare.WrittenBy (Token.ofText text) := by
  rw [value_ofText?] at h
  exact (exists_read_iff (Token.fits_of_mem_ofText size)).mp ⟨b, h, rfl⟩

theorem print_bare (b : Block σ) : b.bare.print = b.print := by
  rw [print, marks_bare, print]

/-- Accepted texts become their trees, printed; printed trees are canonical and read back; and so
    accepted texts with the same tree are those with the same canonical form. -/
theorem canonical_prints_trees :
    (∀ (text : String) (b : Block ByteSpan), text.utf8ByteSize ≤ ByteSpan.limit →
      (ofText? text).value = .ok b → canonical text = b.print) ∧
    (∀ b : Block Unit, (∀ n ∈ b.names, isValidName n = true) → b.Shallow →
      b.print.utf8ByteSize ≤ ByteSpan.limit →
        isCanonical b.print = true ∧
          ∃ block, (ofText? b.print).value = .ok block ∧ block.bare = b) ∧
    ∀ (text other : String) (b c : Block ByteSpan), text.utf8ByteSize ≤ ByteSpan.limit →
      other.utf8ByteSize ≤ ByteSpan.limit → (ofText? text).value = .ok b →
        (ofText? other).value = .ok c → (canonical text = canonical other ↔ b.bare = c.bare) := by
  have prints {text : String} {b : Block ByteSpan} (size : text.utf8ByteSize ≤ ByteSpan.limit)
      (h : (ofText? text).value = .ok b) : canonical text = b.print := by
    rw [(bare_writtenBy size h).canonical_eq, print_bare]
  refine ⟨fun text b => prints, fun b valid flat size => ?_, ?_⟩
  · have written := writtenBy_print valid flat
    constructor
    · have fixed : canonical b.print = b.print := written.canonical_eq
      rw [← fixed]
      exact isCanonical_canonical _
    · exact (exists_read_iff (Token.fits_of_mem_ofText size)).mpr written
  · intro text other b c size size' hb hc
    have hb' := (bare_writtenBy size hb).canonical
    have hc' := (bare_writtenBy size' hc).canonical
    constructor
    · intro same
      rw [same] at hb'
      have shorter := (utf8ByteSize_canonical_le other).trans size'
      exact eq_of_writtenBy (Token.fits_of_mem_ofText shorter) hb' hc'
    · intro same
      rw [prints size hb, prints size' hc, ← print_bare b, same, print_bare]

theorem canonical_prints_spaced_fields :
    (∃ b c, (ofText? "\x7b a : [T!] ;; b : U \x7d").value = .ok b ∧
      (ofText? "\x7ba:[T!]\n b:U\x7d;").value = .ok c ∧
      canonical "\x7b a : [T!] ;; b : U \x7d" = b.print ∧
      (canonical "\x7b a : [T!] ;; b : U \x7d" = canonical "\x7ba:[T!]\n b:U\x7d;" ↔
        b.bare = c.bare)) ∧
    isCanonical (print (.enum [⟨"A", ()⟩, ⟨"B", ()⟩] ())) = true ∧
      ∃ block, (ofText? (print (.enum [⟨"A", ()⟩, ⟨"B", ()⟩] ()))).value = .ok block ∧
        block.bare = .enum [⟨"A", ()⟩, ⟨"B", ()⟩] () := by
  have size : "\x7b a : [T!] ;; b : U \x7d".utf8ByteSize ≤ ByteSpan.limit := by decide
  have size' : "\x7ba:[T!]\n b:U\x7d;".utf8ByteSize ≤ ByteSpan.limit := by decide
  have read {text : String} (size : text.utf8ByteSize ≤ ByteSpan.limit)
      (written : Block.WrittenBy (.object
        [⟨⟨"a", ()⟩, [], .list (.named ⟨"T", ()⟩ (some ()) ()) none (), ()⟩,
          ⟨⟨"b", ()⟩, [], .named ⟨"U", ()⟩ none (), ()⟩] ()) (Token.ofText text)) :
      ∃ b, (ofText? text).value = .ok b := by
    obtain ⟨b, hb, -⟩ := (exists_read_iff (Token.fits_of_mem_ofText size)).mpr written
    exact ⟨b, hb⟩
  obtain ⟨b, hb⟩ := read size (by decide +kernel)
  obtain ⟨c, hc⟩ := read size' (by decide +kernel)
  exact ⟨⟨b, c, hb, hc, canonical_prints_trees.1 _ b size hb,
    canonical_prints_trees.2.2 _ _ b c size size' hb hc⟩,
    canonical_prints_trees.2.1 _ (by decide) (by decide) (by decide)⟩

end Syntax.Block

end ShapeSchema
