import ShapeSchema.Proofs.CursorInvariants
import ShapeSchema.Proofs.EarliestError
import ShapeSchema.Proofs.TokenQueue
set_option autoImplicit false

namespace ShapeSchema

theorem TokenStream.consume_peek (stream : TokenStream) :
    stream.peek.2.consume.1 = stream.peek.1 := by
  rw [consume_eq_head?, peek_eq_head?]
  exact congrArg List.head? (stream.toList_fill 1)

namespace Parse

open Syntax

variable {α β : Type}

/-- What a grammar rule leaves of the bookkeeping, from whatever cursor it starts. -/
structure Balanced (p : Parse α) : Prop where
  openers : ∀ s a s', p s = .ok a s' → s'.openers = s.openers
  /-- Whether the rule succeeds or fails. -/
  depth : ∀ s, (behind (p s)).depth = s.depth
  reasoned : ∀ s e s', p s = .error e s' → e.Reasoned

theorem balanced_of_keeps {p : Parse α}
    (keeps : ∀ openers, Keeps (fun n s => s.depth = n) openers openers p) : Balanced p where
  openers s a s' runs := by
    have ends := keeps s.openers s.depth s rfl rfl
    rw [runs] at ends
    exact ends.1
  depth s := (keeps s.openers s.depth s rfl rfl).behind
  reasoned s e s' runs := by
    have ends := keeps s.openers s.depth s rfl rfl
    rw [runs] at ends
    exact ends.1

def nextToken : Parse (Option Token) := fun s =>
  match s.rest with
  | [] => .ok none s
  | t :: rest => .ok (some t) (s.advance t rest)

/-- Looks for a name and then reads it. If what is read is no name after all, `otherwise` goes on. -/
def nameOr (otherwise : Parse (Name ByteSpan)) (role : Expected) : Parse (Name ByteSpan) := do
  if (← nextName?).isNone then refuse [role]
  else
    match ← nextToken with
    | some ⟨.name text, _, span⟩ => return ⟨text, ← byteSpan span⟩
    | _ => otherwise

theorem nameOr_eq (otherwise : Parse (Name ByteSpan)) (role : Expected) :
    nameOr otherwise role = name role := by
  funext s
  rcases s with ⟨_ | ⟨⟨kind, trivia, span⟩, rest⟩, openers, depth, lastEnd, notices⟩
  · rfl
  · cases kind <;> rfl

/-- Runs `p` one level deeper, unless `maxDepth` levels have been entered. If the count behind `p` is
    zero, so that there is no level to leave, `under` goes on. -/
def counted (under p : Parse α) : Parse α := fun s =>
  if maxDepth ≤ s.depth then .error (.tooDeep s.nextSpan) s
  else
    let result := p { s with depth := s.depth + 1 }
    if (behind result).depth = 0 then under (behind result) else leaving result

def SameAt (n : Nat) (p q : Parse α) : Prop := ∀ s, s.depth = n → p s = q s

namespace SameAt

variable {n : Nat} {p q : Parse α}

theorem bind {f g : α → Parse β} (depth : ∀ s a s', p s = .ok a s' → s'.depth = s.depth)
    (h : ∀ a, SameAt n (f a) (g a)) : SameAt n (p >>= f) (p >>= g) := by
  intro s hs
  cases hp : p s with
  | error e s' => rw [bind_error hp, bind_error hp]
  | ok a s' =>
    rw [bind_of_ok hp, bind_of_ok hp]
    exact h a s' ((depth s a s' hp).trans hs)

theorem bind_left (h : SameAt n p q) (f : α → Parse β) : SameAt n (p >>= f) (q >>= f) := by
  intro s hs
  simp only [Bind.bind, EStateM.bind, h s hs]

end SameAt

theorem Keeps.depth_eq {p : Parse α} {s s' : Cursor} {a : α} {after : List Opener}
    (keeps : Keeps (fun n s => s.depth = n) s.openers after p) (runs : p s = .ok a s') :
    s'.depth = s.depth := by
  have ends := keeps s.depth s rfl rfl
  rw [runs] at ends
  exact ends.2

theorem typeRule_sameAt {n : Nat} {p q : Parse (TypeExpr ByteSpan)} (h : SameAt n p q) :
    SameAt n (typeRule p) (typeRule q) := by
  refine .bind (fun _ _ _ => (accept_keeps depth_invariant _).depth_eq) fun bracket => ?_
  cases bracket with
  | none => exact fun _ _ => rfl
  | some bracket =>
    refine .bind (fun _ _ _ => (byteSpan_keeps _).depth_eq) fun _ => ?_
    refine .bind (fun _ _ _ => (opened_keeps depth_invariant _ _).depth_eq) fun _ => ?_
    exact h.bind_left _

/-- Type expressions enclose one another as far as the count of them allows, and where one ends, it
    is still counted. -/
theorem typeExpr_eq_counted (under : Parse (TypeExpr ByteSpan)) :
    typeExpr = counted under (typeRule typeExpr) := by
  funext s
  unfold counted
  split
  · next deep =>
    rw [typeExpr, Nat.sub_eq_zero_of_le deep]
    rfl
  · next shallow =>
    obtain ⟨levels, left⟩ : ∃ levels, maxDepth - s.depth = levels + 1 :=
      ⟨maxDepth - s.depth - 1, by omega⟩
    have element : SameAt (s.depth + 1) (typeWithin levels) typeExpr := by
      intro s' hs'
      rw [typeExpr, hs', Nat.sub_add_eq, left, Nat.add_sub_cancel]
    have body := typeRule_sameAt element { s with depth := s.depth + 1 } rfl
    have kept : (behind (typeRule typeExpr { s with depth := s.depth + 1 })).depth = s.depth + 1 :=
      (typeRule_keeps depth_invariant (fun _ => typeExpr_keeps depth_invariant) _ _ rfl rfl).behind
    dsimp only
    rw [kept, if_neg (Nat.succ_ne_zero _), ← body, typeExpr, left]
    rfl

/-- Reading leaves no delimiter open that it opened and none closed that it did not, and it counts
    type expressions faithfully. Hence it makes no difference what would be done where a level is to
    be left and none is counted, or where a token seen to be a name is read as something else. No
    rule closes a delimiter where none is open, and only types nested too deep and offsets too large
    make the syntax invalid. -/
theorem bookkeeping_balances :
    (Balanced objectBlock ∧ Balanced enumBlock ∧ Balanced parameters ∧ Balanced typeExpr) ∧
    (∀ under, typeExpr = counted under (typeRule typeExpr)) ∧
    (∀ stream : TokenStream, stream.peek.2.consume.1 = stream.peek.1) ∧
    (∀ otherwise role, nameOr otherwise role = name role) ∧
    ∀ ts e, (Block.ofTokens? ts).value = .error e → e.Reasoned := by
  refine ⟨⟨balanced_of_keeps fun _ => objectBlock_keeps depth_invariant,
    balanced_of_keeps fun _ => enumBlock_keeps depth_invariant,
    balanced_of_keeps fun _ => parameters_keeps depth_invariant,
    balanced_of_keeps fun _ => typeExpr_keeps depth_invariant⟩,
    typeExpr_eq_counted, TokenStream.consume_peek, nameOr_eq, fun ts e fails => ?_⟩
  obtain ⟨s, stops⟩ := Block.value_ofTokens?_eq_error.mp fails
  have balanced : Balanced block := balanced_of_keeps fun _ => block_keeps depth_invariant
  exact balanced.reasoned _ _ _ stops

def listAhead (levels : Nat) : Cursor where
  rest := [.punctuator .bracketOpen, .name "Int", .punctuator .bang, .punctuator .bracketClose].map
    fun kind => ⟨kind, [], .empty .start⟩
  openers := [⟨.parameterList, .empty .start⟩, ⟨.objectBlock, .empty .start⟩]
  depth := levels
  lastEnd := none
  notices := []

def farBrace : Token := ⟨.punctuator .braceOpen, [], .empty ⟨0, 0, 0, ByteSpan.limit + 1⟩⟩

theorem bookkeeping_balances_list_ahead :
    (∃ type s, typeExpr (listAhead 3) = .ok type s ∧ s.openers = (listAhead 3).openers) ∧
    (∃ e s, typeExpr (listAhead 63) = .error e s ∧ e.cause = .invalidSyntax ∧ s.depth = 63 ∧
      ∃ span, e = .tooDeep span ∨ e = .tooLarge span) ∧
    ∃ e, (Block.ofTokens? [farBrace]).value = .error e ∧ e.cause = .invalidSyntax ∧
      ∃ span, e = .tooDeep span ∨ e = .tooLarge span := by
  obtain ⟨⟨-, -, -, balanced⟩, -, -, -, reasoned⟩ := bookkeeping_balances
  obtain ⟨type, s, reads⟩ : ∃ type s, typeExpr (listAhead 3) = .ok type s := ⟨_, _, rfl⟩
  obtain ⟨s', refuses⟩ : ∃ s, typeExpr (listAhead 63) =
      .error (.tooDeep (.empty .start)) s := ⟨_, rfl⟩
  have fails : (Block.ofTokens? [farBrace]).value = .error (.tooLarge farBrace.span) := by rfl
  have depth := balanced.depth (listAhead 63)
  rw [refuses] at depth
  exact ⟨⟨type, s, reads, balanced.openers _ _ _ reads⟩,
    ⟨_, s', refuses, rfl, depth, (balanced.reasoned _ _ _ refuses).limit rfl⟩,
    _, fails, rfl, (reasoned _ _ fails).limit rfl⟩

end Parse

end ShapeSchema
