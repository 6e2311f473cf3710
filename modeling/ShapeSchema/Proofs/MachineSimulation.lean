import ShapeSchema.Proofs.ReadingMachine
import ShapeSchema.Proofs.ReadingSound
import ShapeSchema.Syntax.Reading
set_option autoImplicit false

/-!
# The machine does what the grammar does

Reading by the grammar rules and reading by the machine come to the same verdict, errors included.
A grammar rule carries the machine from one spot to another, and where the rule fails, the machine
fails with the same error.
-/

namespace ShapeSchema

def Cursor.place (s : Cursor) : Place := ⟨s.openers, s.lastEnd⟩

/-- How the machine will fare from a cursor. -/
abbrev Outlook := Cursor → Verdict

namespace Outlook

def standing (spot : Spot) : Outlook := fun s => run spot s.place s.rest

def acting (act : Place → Option Token → Step) : Outlook := fun s =>
  (act s.place s.rest.head?).outcome s.rest.tail

def having (act : Place → Step) : Outlook := fun s => (act s.place).outcome s.rest

def round {α : Type} (more last : Outlook) : Option α → Outlook
  | some _ => more
  | none => last

theorem acting_eq (act : Place → Option Token → Step) (s : Cursor) :
    acting act s = (act s.place s.rest.head?).outcome s.rest.tail := rfl

theorem standing_eq (spot : Spot) (s : Cursor) :
    standing spot s = (Step.act s.place s.rest.head? spot).outcome s.rest.tail :=
  run_eq spot s.place s.rest

def reaching (B : Outlook) : Outlook := fun s =>
  match s.lastEnd with
  | none => B s
  | some p => if (Span.empty p).Fits then B s else .error (.tooLarge (.empty p))

theorem reaching_of_fits {B : Outlook} {s : Cursor}
    (fits : ∀ p ∈ s.lastEnd, p.offset ≤ ByteSpan.limit) : reaching B s = B s := by
  unfold reaching
  cases hl : s.lastEnd with
  | none => rfl
  | some p => exact if_pos ⟨fits p hl, fits p hl⟩

theorem outcome_reaching (s : Cursor) (step : Step) (rest : List Token) :
    (Step.reaching s.place step).outcome rest = reaching (fun _ => step.outcome rest) s := by
  unfold Step.reaching reaching
  change (match s.lastEnd with
    | none => step
    | some p => Step.fitting (.empty p) step).outcome rest = _
  cases s.lastEnd with
  | none => rfl
  | some p =>
    dsimp only
    rw [Step.fitting]
    split <;> rfl

theorem having_moved (spot : Spot) : having (.moved spot) = standing spot := rfl

end Outlook

theorem Cursor.unexpected_place (s : Cursor) (expected : List Expected) :
    (s.place.cursor s.rest.head?).unexpected expected = s.unexpected expected := by
  unfold Cursor.unexpected Place.cursor Cursor.place
  cases s.rest <;> rfl

theorem Cursor.nextSpan_place (s : Cursor) :
    (s.place.cursor s.rest.head?).nextSpan = s.nextSpan := by
  unfold Cursor.nextSpan Place.cursor Cursor.place
  cases s.rest <;> rfl

namespace Step

variable {rest : List Token}

theorem outcome_failed (e : ParseError) : (failed e).outcome rest = .error e := rfl

theorem outcome_refused (s : Cursor) (expected : List Expected) :
    (refused s.place s.rest.head? expected).outcome rest = .error (s.unexpected expected) := by
  rw [refused, Cursor.unexpected_place, outcome_failed]

theorem outcome_fitting_of_fits {span : Span} (fits : span.Fits) (step : Step) :
    (fitting span step).outcome rest = step.outcome rest := by
  rw [fitting, if_pos fits]

theorem outcome_fitting_of_not_fits {span : Span} (large : ¬ span.Fits) (step : Step) :
    (fitting span step).outcome rest = .error (.tooLarge span) := by
  rw [fitting, if_neg large, outcome_failed]

theorem onKind_of_kind {kind : Token.Kind} {place : Place} {next : Option Token} {t : Token}
    (hnext : next = some t) (hkind : t.kind = kind) (yes : Token → Place → Step) (no : Step) :
    onKind kind place next yes no = yes t (place.behind t) := by
  rw [hnext, onKind, if_pos hkind]

theorem onKind_of_not_kind {kind : Token.Kind} {next : Option Token}
    (h : ∀ t ∈ next, t.kind ≠ kind) (place : Place) (yes : Token → Place → Step) (no : Step) :
    onKind kind place next yes no = no := by
  cases next with
  | none => rfl
  | some t => rw [onKind, if_neg (h t rfl)]

theorem onName_of_name {place : Place} {next : Option Token} {t : Token} {text : String}
    (hnext : next = some t) (hkind : t.kind = .name text) (yes : String → Token → Place → Step)
    (no : Step) : onName place next yes no = yes text t (place.behind t) := by
  rw [hnext, onName]
  simp only [hkind]

theorem named_of_name {place : Place} {next : Option Token} {t : Token} {text : String}
    (hnext : next = some t) (hkind : t.kind = .name text) (role : Expected) (spot : String → Spot) :
    named place next role spot = entered t (spot text) (place.behind t) := by
  rw [named, onName_of_name hnext hkind]

theorem declaration_of_name {place : Place} {next : Option Token} {t : Token} {text : String}
    (hnext : next = some t) (hkind : t.kind = .name text) (role : Expected) (plural : String)
    (first : Bool) (spot : String → Spot) :
    declaration place next role plural first spot =
      if first || t.isSeparated then entered t (spot text) (place.behind t)
      else failed (.missingSeparator plural text t.span) := by
  have other : ∀ u ∈ next, u.kind ≠ .punctuator .braceClose := by
    rw [hnext]
    rintro _ ⟨⟩
    simp [hkind]
  rw [declaration, onKind_of_not_kind other, onName_of_name hnext hkind]

theorem onName_of_not_name {next : Option Token} (h : ∀ t ∈ next, t.kind.name? = none)
    (place : Place) (yes : String → Token → Place → Step) (no : Step) :
    onName place next yes no = no := by
  cases next with
  | none => rfl
  | some t =>
    have ht := h t rfl
    unfold onName
    cases hk : t.kind with
    | name text => simp [hk, Token.Kind.name?] at ht
    | _ => simp [hk]

end Step

namespace Parse

variable {α β : Type} {P : Cursor → Prop} {A : Outlook}

/-- From a cursor with `P` and the outlook `A`, `p` leads to one with `Q` and the outlook `B`; where
    it fails, so does the machine, with the same error. -/
def Simulates (P : Cursor → Prop) (p : Parse α) (A : Outlook) (Q : α → Cursor → Prop)
    (B : α → Outlook) : Prop :=
  ∀ s, P s → match p s with
    | .ok a s' => Q a s' ∧ A s = B a s'
    | .error e _ => A s = .error e

abbrev found (yes : α → β) (no : β) : Option α → β
  | some a => yes a
  | none => no

def Nested (d : Nat) (s : Cursor) : Prop := s.depth = d

def Ended (d : Nat) (s : Cursor) : Prop := s.depth = d ∧ ∀ p ∈ s.lastEnd, p.offset ≤ ByteSpan.limit

namespace Simulates

variable {p : Parse α} {Q : α → Cursor → Prop} {B : α → Outlook}

theorem bind {f : α → Parse β} {R : β → Cursor → Prop} {C : β → Outlook} (hp : Simulates P p A Q B)
    (hf : ∀ a, Simulates (Q a) (f a) (B a) R C) : Simulates P (p >>= f) A R C := by
  intro s hP
  have first := hp s hP
  simp only [Bind.bind, EStateM.bind]
  cases hps : p s with
  | error e s' =>
    rw [hps] at first
    exact first
  | ok a s' =>
    rw [hps] at first
    have second := hf a s' first.1
    rw [first.2]
    exact second

theorem pure {a : α} (h : ∀ s, P s → Q a s) : Simulates P (Pure.pure a) A Q fun _ => A :=
  fun s hP => ⟨h s hP, rfl⟩

/-- Another outlook counts where it is the same under what is known. -/
theorem outlook {A' : Outlook} (h : Simulates P p A' Q B) (same : ∀ s, P s → A s = A' s) :
    Simulates P p A Q B := by
  intro s hP
  rw [same s hP]
  exact h s hP

theorem weaken {P' : Cursor → Prop} {Q' : α → Cursor → Prop} (h : Simulates P p A Q B)
    (before : ∀ s, P' s → P s) (after : ∀ a s, Q a s → Q' a s) : Simulates P' p A Q' B := by
  intro s hP
  have run := h s (before s hP)
  cases hps : p s with
  | error e s' =>
    rw [hps] at run
    exact run
  | ok a s' =>
    rw [hps] at run
    exact ⟨after a s' run.1, run.2⟩

theorem fail {error : Cursor → ParseError} (h : ∀ s, P s → A s = .error (error s)) :
    Simulates P (Parse.fail error : Parse α) A Q B := h

theorem refuse {expected : List Expected}
    (h : ∀ s, P s → A s = .error (s.unexpected expected)) :
    Simulates P (Parse.refuse expected : Parse α) A Q B := h

theorem throw {e : ParseError} (h : ∀ s, P s → A s = .error e) :
    Simulates P (throw e : Parse α) A Q B := h

end Simulates

theorem nextIs_simulates {p : Punctuator} {Q : Bool → Cursor → Prop} {B : Bool → Outlook}
    (yes : ∀ s t rest, P s → s.rest = t :: rest → t.kind = .punctuator p →
      Q true s ∧ A s = B true s)
    (no : ∀ s, P s → (∀ t ∈ s.rest.head?, t.kind ≠ .punctuator p) → Q false s ∧ A s = B false s) :
    Simulates P (nextIs p) A Q B := by
  intro s hP
  unfold nextIs
  cases hr : s.rest with
  | nil => exact no s hP (by simp [hr])
  | cons t rest =>
    by_cases ht : t.kind = .punctuator p
    · simpa [ht] using yes s t rest hP hr ht
    · simp only [List.head?_cons, Option.any_some, beq_false_of_ne ht]
      exact no s hP (by simpa [hr] using ht)

theorem nextName?_simulates {Q : Option String → Cursor → Prop} {B : Option String → Outlook}
    (yes : ∀ s t rest text, P s → s.rest = t :: rest → t.kind = .name text →
      Q (some text) s ∧ A s = B (some text) s)
    (no : ∀ s, P s → (∀ t ∈ s.rest.head?, t.kind.name? = none) → Q none s ∧ A s = B none s) :
    Simulates P nextName? A Q B := by
  intro s hP
  unfold nextName?
  cases hr : s.rest with
  | nil => exact no s hP (by simp [hr])
  | cons t rest =>
    cases hk : t.kind with
    | name text => simpa [hk, Token.Kind.name?] using yes s t rest text hP hr hk
    | _ => simpa [hk, Token.Kind.name?] using no s hP (by simp [hr, hk, Token.Kind.name?])

theorem accept_simulates {p : Punctuator} {Q : Option Token → Cursor → Prop}
    {B : Option Token → Outlook}
    (yes : ∀ s t rest, P s → s.rest = t :: rest → t.kind = .punctuator p →
      Q (some t) (s.advance t rest) ∧ A s = B (some t) (s.advance t rest))
    (no : ∀ s, P s → (∀ t ∈ s.rest.head?, t.kind ≠ .punctuator p) → Q none s ∧ A s = B none s) :
    Simulates P (accept p) A Q B := by
  intro s hP
  unfold accept
  cases hr : s.rest with
  | nil => exact no s hP (by simp [hr])
  | cons t rest =>
    by_cases ht : t.kind = .punctuator p
    · simp only [if_pos ht]
      exact yes s t rest hP hr ht
    · simp only [if_neg ht]
      exact no s hP (by simpa [hr] using ht)

theorem expect_simulates {p : Punctuator} {Q : Token → Cursor → Prop} {B : Token → Outlook}
    (yes : ∀ s t rest, P s → s.rest = t :: rest → t.kind = .punctuator p →
      Q t (s.advance t rest) ∧ A s = B t (s.advance t rest))
    (no : ∀ s, P s → (∀ t ∈ s.rest.head?, t.kind ≠ .punctuator p) →
      A s = .error (s.unexpected [.punctuator p])) :
    Simulates P (expect p) A Q B := by
  have accepted : Simulates P (accept p) A
      (found Q fun s => P s ∧ ∀ t ∈ s.rest.head?, t.kind ≠ .punctuator p) (found B A) :=
    accept_simulates yes fun s hP hne => ⟨⟨hP, hne⟩, rfl⟩
  apply accepted.bind
  intro o
  cases o with
  | some t => exact .pure fun s hQ => hQ
  | none => exact .refuse fun s hs => no s hs.1 hs.2

theorem byteSpan_simulates {span : Span} {act : Place → Step} :
    Simulates P (byteSpan span) (.having fun place => Step.fitting span (act place))
      (fun _ s => P s ∧ span.Fits) fun _ => .having act := by
  intro s hP
  unfold byteSpan
  cases hb : span.bytes? with
  | some bytes =>
    have fits := (Span.bytes?_eq_some.mp hb).1
    exact ⟨⟨hP, fits⟩, Step.outcome_fitting_of_fits fits _⟩
  | none => exact Step.outcome_fitting_of_not_fits (Span.bytes?_eq_none.mp hb) _

theorem reachedByte_simulates {B : Outlook} {d : Nat}
    (h : ∀ s, P s → s.depth = d ∧ A s = B.reaching s) :
    Simulates P reachedByte A (fun _ => Ended d) fun _ => B := by
  intro s hP
  obtain ⟨depth, same⟩ := h s hP
  rw [reachedByte_eq, same, Outlook.reaching]
  cases hl : s.lastEnd with
  | none => exact ⟨⟨depth, by simp [hl]⟩, rfl⟩
  | some p =>
    rw [byteAt]
    dsimp only
    by_cases fits : (Span.empty p).Fits
    · rw [byteSpan, Span.bytes?_eq_some.mpr ⟨fits, rfl⟩, if_pos fits]
      refine ⟨⟨depth, ?_⟩, rfl⟩
      rw [hl]
      rintro _ ⟨⟩
      exact fits.1
    · rw [byteSpan, Span.bytes?_eq_none.mpr fits, if_neg fits]
      rfl

theorem acceptName_simulates {Q : Option (String × Span) → Cursor → Prop}
    {B : Option (String × Span) → Outlook}
    (yes : ∀ s t rest text, P s → s.rest = t :: rest → t.kind = .name text →
      Q (some (text, t.span)) (s.advance t rest) ∧
        A s = B (some (text, t.span)) (s.advance t rest))
    (no : ∀ s, P s → (∀ t ∈ s.rest.head?, t.kind.name? = none) → Q none s ∧ A s = B none s) :
    Simulates P acceptName A Q B := by
  intro s hP
  unfold acceptName
  cases hr : s.rest with
  | nil => exact no s hP (by simp [hr])
  | cons t rest =>
    dsimp only
    cases hk : t.kind with
    | name text => exact yes s t rest text hP hr hk
    | _ => exact no s hP (by simp [hr, hk, Token.Kind.name?])

theorem name_simulates {role : Expected} {k : String → Spot} {d : Nat}
    (h : ∀ s, P s → s.depth = d ∧
      A s = (Step.named s.place s.rest.head? role k).outcome s.rest.tail) :
    Simulates P (name role) A (fun _ => Ended d) fun n => .standing (k n.text) := by
  have accepted : Simulates P acceptName A
      (found (fun read s => s.depth = d ∧ s.lastEnd = some read.2.stop)
        fun s => A s = .error (s.unexpected [role]))
      (found (fun read => .having fun place => Step.fitting read.2 (.moved (k read.1) place))
        A) := by
    refine acceptName_simulates (fun s t rest text hP hr hk => ?_) fun s hP hne => ?_
    · obtain ⟨depth, same⟩ := h s hP
      refine ⟨⟨depth, rfl⟩, ?_⟩
      rw [same, hr, Step.named, Step.onName_of_name List.head?_cons hk]
      rfl
    · refine ⟨?_, rfl⟩
      change A s = _
      rw [(h s hP).2, Step.named, Step.onName_of_not_name hne, Step.outcome_refused]
  apply accepted.bind
  intro o
  cases o with
  | none => exact .refuse fun s hs => hs
  | some read =>
    apply byteSpan_simulates.bind
    intro bytes
    refine .pure fun s hs => ⟨hs.1.1, ?_⟩
    rw [hs.1.2]
    rintro _ ⟨⟩
    exact hs.2.2

theorem opened_simulates {c : Construct} {t : Token} {spot : Spot} {Q : Cursor → Prop}
    (h : ∀ s, P s → Q { s with openers := ⟨c, t.span⟩ :: s.openers }) :
    Simulates P (opened c t) (.having fun place => .moved spot (place.opened c t)) (fun _ => Q)
      fun _ => .standing spot :=
  fun s hP => ⟨h s hP, rfl⟩

theorem close_simulates {k : Place → Step} {d : Nat}
    (h : ∀ s, P s → s.depth = d ∧
      A s = (Step.closed s.place s.rest.head? k).outcome s.rest.tail) :
    Simulates P close A (fun _ => Nested d) fun _ => .having k := by
  have inner (opener : Opener) (outer : List Opener) :
      Simulates (fun s => P s ∧ s.openers = opener :: outer) (closing (opener :: outer)) A
        (fun _ => Nested d) fun _ => .having k := by
    have expected : Simulates (fun s => P s ∧ s.openers = opener :: outer)
        (expect opener.construct.closer) A
        (fun _ s => s.depth = d ∧ s.openers = opener :: outer)
        (fun _ => .having fun place => k { place with openers := outer }) := by
      refine expect_simulates (fun s t rest hs hr hk => ?_) fun s hs hne => ?_
      · refine ⟨⟨(h s hs.1).1, hs.2⟩, ?_⟩
        have open_ : s.place.openers = opener :: outer := hs.2
        rw [(h s hs.1).2, hr, Step.closed, open_]
        dsimp only
        rw [Step.onKind_of_kind List.head?_cons hk]
        rfl
      · have open_ : s.place.openers = opener :: outer := hs.2
        rw [(h s hs.1).2, Step.closed, open_]
        dsimp only
        rw [Step.onKind_of_not_kind hne, Step.outcome_refused]
    refine expected.bind fun _ s hs => ⟨hs.1, ?_⟩
    have tail : outer = s.openers.tail := by rw [hs.2]; rfl
    rw [tail]
    rfl
  intro s hP
  rw [close_eq]
  cases ho : s.openers with
  | nil =>
    have open_ : s.place.openers = [] := ho
    change A s = .error (.noOpenDelimiter s.nextSpan)
    rw [(h s hP).2, Step.closed, open_, ← s.nextSpan_place]
    rfl
  | cons opener outer => exact inner opener outer s ⟨hP, ho⟩

theorem deeper_simulates {p : Parse α} {B : Outlook} {d : Nat}
    (blind : ∀ s n, A { s with depth := n } = A s ∧ B { s with depth := n } = B s)
    (h : Simulates (Nested (d + 1)) p A (fun _ => Ended (d + 1)) fun _ => B) :
    Simulates (Nested d) (deeper p) A (fun _ => Ended d) fun _ => B := by
  intro s hs
  have inner := h { s with depth := s.depth + 1 } (congrArg (· + 1) hs)
  rw [(blind s _).1] at inner
  unfold deeper
  cases hp : p { s with depth := s.depth + 1 } with
  | error e s' =>
    rw [hp] at inner
    exact inner
  | ok a s' =>
    rw [hp] at inner
    refine ⟨⟨?_, inner.1.2⟩, ?_⟩
    · change s'.depth - 1 = d
      rw [inner.1.1]
      rfl
    · exact inner.2.trans (blind s' _).2.symm

theorem announce_simulates {ahead : Nat} {level : Level} {text : String} {Q : Cursor → Prop}
    (same : ∀ s n, A { s with notices := n } = A s)
    (h : ∀ s notices, P s → Q { s with notices }) :
    Simulates P (announce ahead level text) A (fun _ => Q) fun _ => A :=
  fun s hP => ⟨h s _ hP, (same s _).symm⟩

theorem collect_simulates {step : Nat → Parse (Option α)} {h : ∀ n, Spends roundCost (step n)}
    {A : Nat → Outlook} {B : Outlook}
    (hs : ∀ n, Simulates P (step n) (A n) (fun _ => P) (.round (A (n + 1)) B)) (n : Nat) :
    Simulates P (collect step h n) (A n) (fun _ => P) fun _ => B := by
  intro s hP
  induction hlen : s.rest.length using Nat.strongRecOn generalizing n s with
  | ind len ih =>
    have round := hs n s hP
    rw [collect_eq]
    simp only [Bind.bind, EStateM.bind]
    cases hstep : step n s with
    | error e s' =>
      rw [hstep] at round
      exact round
    | ok o s' =>
      rw [hstep] at round
      cases o with
      | none => exact round
      | some a =>
        have shorter : s'.rest.length < len := by
          have := h n s (some a) s' hstep
          simp only [roundCost] at this
          omega
        have later := ih _ shorter (n + 1) s' round.1 rfl
        simp only [EStateM.bind]
        rw [round.2]
        cases hc : collect step h (n + 1) s' with
        | error e s'' =>
          rw [hc] at later
          exact later
        | ok as s'' =>
          rw [hc] at later
          exact later

theorem separated_simulates {plural : String} {Q : Cursor → Prop} {B : Outlook}
    (yes : ∀ s, P s → (∀ t ∈ s.rest.head?, t.isSeparated = true) → Q s ∧ A s = B s)
    (no : ∀ s t rest, P s → s.rest = t :: rest → t.isSeparated = false →
      A s = .error (.missingSeparator plural t.kind.text t.span)) :
    Simulates P (separated plural) A (fun _ => Q) fun _ => B := by
  intro s hP
  unfold separated
  cases hr : s.rest with
  | nil => exact yes s hP (by simp [hr])
  | cons t rest =>
    dsimp only
    cases ht : t.isSeparated with
    | true => exact yes s hP (by simpa [hr] using ht)
    | false => exact no s t rest hP hr ht

end Parse

end ShapeSchema
