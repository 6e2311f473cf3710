import Mathlib.Data.List.Induction
import ShapeSchema.Proofs.CursorInvariants
import ShapeSchema.Proofs.WrittenTypes
set_option autoImplicit false

namespace ShapeSchema

variable {H σ : Type}

namespace Journal

variable {α β : Type}

def warnings (m : Journal α) : List String :=
  (m.records.filter (·.level = .warn)).map (·.text)

theorem warnings_bind (m : Journal α) (f : α → Journal β) :
    (m >>= f).warnings = m.warnings ++ (f m.value).warnings := by
  simp [warnings]

theorem warnings_map (f : α → β) (m : Journal α) : (f <$> m).warnings = m.warnings := by
  rw [← bind_pure_comp, warnings_bind]
  exact List.append_nil _

def Quiet (m : Journal α) : Prop := m.warnings = []

theorem Quiet.bind {m : Journal α} {f : α → Journal β} (hm : m.Quiet)
    (hf : (f m.value).Quiet) : (m >>= f).Quiet := by
  rw [Quiet, warnings_bind, hm, hf, List.append_nil]

theorem Quiet.mapM {f : α → Journal β} (h : ∀ a, (f a).Quiet) (as : List α) :
    (as.mapM f).Quiet := by
  induction as with
  | nil => rfl
  | cons a as ih =>
    rw [List.mapM_cons]
    exact (h a).bind (ih.bind rfl)

theorem records_ofRecords (records : List Record) (a : α) :
    (ofRecords records a).records = records := by
  simp [Journal.records, ofRecords, List.filterMap_map, Function.comp_def, Entry.record?]

theorem quiet_ofRecords {records : List Record} (h : ∀ r ∈ records, r.level ≠ .warn) (a : α) :
    (ofRecords records a).Quiet := by
  have none : records.filter (·.level = .warn) = [] := by simpa using h
  rw [Quiet, warnings, records_ofRecords, none, List.map_nil]

end Journal

variable (env : Environment H)

theorem Environment.quiet_resolve (name : String) : (env.resolve name).Quiet := by
  unfold resolve Asking.resolve
  cases Scalar.ofName? name with
  | some s => rfl
  | none =>
    refine Journal.Quiet.bind rfl ?_
    rw [(env.ask_eq name).1]
    cases env.lookup name <;> rfl

namespace Syntax

/-- The type as it is written, without what can be spared between its tokens. -/
def TypeExpr.text (t : TypeExpr σ) : String := String.ofList (t.marks.flatMap Mark.chars)

variable {env} in
theorem TypeExpr.Denotes.text_eq {t : TypeExpr σ} {type : ResolvedType H}
    (h : t.Denotes env type) : type.text = t.text := congrArg String.ofList h.chars_eq

theorem TypeExpr.quiet_resolve (t : TypeExpr σ) : (t.resolve env.ask).Quiet := by
  induction t with
  | named name bang span => exact (env.quiet_resolve _).bind rfl
  | list element bang span ih => exact ih.bind rfl

theorem Field.quiet_resolve (d : Field σ) : (d.resolve env.ask).Quiet := by
  refine Journal.Quiet.bind (.mapM (fun p => ?_) _) ((d.type.quiet_resolve env).bind rfl)
  exact (p.type.quiet_resolve env).bind rfl

def replacementText (name new old : String) : String :=
  s!"field `{name}` is declared more than once; " ++ s!"type `{new}` replaces `{old}`"

/-- Each declaration of a name that is declared before it, in the order of the text, with the last
    declaration of that name before it; the declarations `before` come first. -/
def redeclaredAfter (before : List (Field σ)) : List (Field σ) → List (Field σ × Field σ)
  | [] => []
  | d :: later =>
    ((lastDeclared d.name.text before).map fun previous => (d, previous)).toList ++
      redeclaredAfter (before ++ [d]) later

def redeclared (fields : List (Field σ)) : List (Field σ × Field σ) := redeclaredAfter [] fields

def replacement (pair : Field σ × Field σ) : String :=
  replacementText pair.1.name.text pair.1.type.text pair.2.type.text

theorem redeclared_concat (fields : List (Field σ)) (d : Field σ) :
    redeclared (fields ++ [d]) = redeclared fields ++
      ((lastDeclared d.name.text fields).map fun previous => (d, previous)).toList := by
  have later (before : List (Field σ)) : redeclaredAfter before (fields ++ [d]) =
      redeclaredAfter before fields ++
        ((lastDeclared d.name.text (before ++ fields)).map fun previous => (d, previous)).toList := by
    induction fields generalizing before with
    | nil => simp [redeclaredAfter]
    | cons first fields ih =>
      rw [List.cons_append, redeclaredAfter, redeclaredAfter, ih, List.append_assoc,
        List.append_assoc, List.singleton_append]
  exact later []

theorem lastDeclared_eq_none_iff {name : String} {fields : List (Field σ)} :
    lastDeclared name fields = none ↔ name ∉ fields.map (·.name.text) := by
  simp [lastDeclared]

theorem eraseDups_concat (names : List String) (name : String) :
    (names ++ [name]).eraseDups = names.eraseDups ++ if name ∈ names then [] else [name] := by
  rw [List.eraseDups_append]
  by_cases h : name ∈ names <;> simp [List.removeAll, List.eraseDups_cons, h]

/-- Every declaration gives the object a new field or replaces one. -/
theorem length_redeclared (fields : List (Field σ)) :
    (redeclared fields).length + (fields.map (·.name.text)).eraseDups.length = fields.length := by
  induction fields using List.reverseRecOn with
  | nil => rfl
  | append_singleton fields d ih =>
    rw [redeclared_concat, List.map_append, List.map_singleton, eraseDups_concat,
      List.length_append, List.length_append, List.length_append, ← ih]
    by_cases known : d.name.text ∈ fields.map (·.name.text)
    · obtain ⟨previous, hlast⟩ := Option.ne_none_iff_exists'.mp
        (mt lastDeclared_eq_none_iff.mp (not_not_intro known))
      rw [if_pos known, hlast]
      exact Nat.add_right_comm ..
    · rw [if_neg known, lastDeclared_eq_none_iff.mpr known]
      exact (Nat.add_assoc ..).symm

theorem Field.warnings_declare (o : Shape.Object H) (d : Field σ) :
    (d.declare env.ask o).warnings = ((o.field? d.name.text).map fun previous =>
      replacementText previous.name d.type.text previous.type.text).toList := by
  have denotes := d.denotes_resolve env
  rw [declare, Journal.warnings_bind, d.quiet_resolve env, List.nil_append, denotes.name]
  cases o.field? d.name.text with
  | none => rfl
  | some previous =>
    rw [← denotes.type.text_eq]
    rfl

theorem warnings_foldlM_declare (fields : List (Field σ)) :
    (fields.foldlM (Field.declare env.ask) .empty).warnings = (redeclared fields).map replacement := by
  induction fields using List.reverseRecOn with
  | nil => rfl
  | append_singleton fields d ih =>
    have known := field?_foldl_insert (fun d => (d.denotes_resolve env).name) d.name.text fields
    rw [List.foldlM_append, Journal.warnings_bind, ih, value_foldlM_declare, redeclared_concat,
      List.map_append]
    refine congrArg _ ?_
    simp only [List.foldlM_cons, List.foldlM_nil, bind_pure]
    rw [Field.warnings_declare, known]
    cases hlast : lastDeclared d.name.text fields with
    | none => rfl
    | some previous =>
      have denotes := previous.denotes_resolve env
      have named : previous.name.text = d.name.text := by
        simpa using List.of_mem_filter (List.mem_of_getLast? hlast)
      simp [replacement, denotes.name, named, denotes.type.text_eq]

theorem warnings_resolveFields (fields : List (Field σ)) :
    (resolveFields env.ask fields).warnings = (redeclared fields).map replacement := by
  rw [resolveFields, Journal.warnings_bind, warnings_foldlM_declare]
  refine Eq.trans (congrArg _ ?_) (List.append_nil _)
  dsimp only
  split <;> rfl

def Block.replacements : Block σ → List String
  | .object fields _ => (redeclared fields).map replacement
  | .enum _ _ => []

theorem Block.warnings_resolve (b : Block σ) : (b.resolve env.ask).warnings = b.replacements := by
  cases b with
  | object fields span => rw [resolve, Journal.warnings_map, warnings_resolveFields]; rfl
  | enum values span =>
    rw [resolve, Journal.warnings_map]
    simp only [resolveValues]
    split <;> rfl

end Syntax

theorem Token.level_of_nameRecord? {t : Token} {r : Record} (h : t.nameRecord? = some r) :
    r.level = .trace := by
  obtain ⟨name, -, rfl⟩ := Option.map_eq_some_iff.mp h
  rfl

theorem quiet_weave {tokens : List Token} {notices : List Notice} {unread : Nat}
    (h : ∀ notice ∈ notices, notice.record.level ≠ .warn) :
    ∀ r ∈ weave tokens notices unread, r.level ≠ .warn := by
  have names {ts : List Token} : ∀ r ∈ ts.filterMap Token.nameRecord?, r.level ≠ .warn := by
    intro r hr
    obtain ⟨t, -, ht⟩ := List.mem_filterMap.mp hr
    rw [Token.level_of_nameRecord? ht]
    decide
  induction notices generalizing tokens with
  | nil => exact names
  | cons notice more ih =>
    obtain ⟨here, later⟩ := List.forall_mem_cons.mp h
    exact List.forall_mem_append.mpr ⟨names, List.forall_mem_cons.mpr ⟨here, ih later⟩⟩

theorem Syntax.Block.quiet_ofText? (text : String) : (Block.ofText? text).Quiet := by
  refine Journal.quiet_ofRecords (quiet_weave fun notice hnotice => ?_) _
  have quiet := Parse.quiet_block (Token.ofText text)
  cases hb : Parse.block (.ofTokens (Token.ofText text)) with
  | ok b s =>
    rw [hb] at hnotice quiet
    exact quiet notice (List.mem_reverse.mp hnotice)
  | error e s =>
    rw [hb] at hnotice quiet
    exact quiet notice (List.mem_reverse.mp hnotice)

namespace Shape

theorem warnings_ofText? (text : String) :
    (ofText? env text).warnings =
      match (Syntax.Block.ofText? text).value with
      | .ok b => b.replacements
      | .error _ => [] := by
  have read := Syntax.Block.quiet_ofText? text
  rw [ofText?, ofTextAsking?, Journal.warnings_bind, Journal.warnings_bind, read]
  cases (Syntax.Block.ofText? text).value with
  | ok b => exact (Journal.warnings_map _ (b.resolve env.ask)).trans (b.warnings_resolve env)
  | error e => rfl

/-- For each declaration that replaces an earlier one an accepted text gets one warning, in the
    order of the text, with the two types as they are rendered; the warnings and the fields of the
    object are together as many as the declarations. -/
theorem ofText?_warnings {text : String} {fields : List (Syntax.Field ByteSpan)} {span : ByteSpan}
    (h : (Syntax.Block.ofText? text).value = .ok (.object fields span)) :
    ∃ o, (ofText? env text).value = .ok (.object o) ∧
      (ofText? env text).warnings = (Syntax.redeclared fields).map Syntax.replacement ∧
      (ofText? env text).warnings.length + o.fields.size = fields.length ∧
      ∀ d ∈ fields, ∀ type, d.type.Denotes env type → type.text = d.type.text := by
  have warned : (ofText? env text).warnings = (Syntax.redeclared fields).map Syntax.replacement := by
    rw [warnings_ofText?, h]
    rfl
  have declares := (Syntax.Block.object fields span).declares_resolve env
  refine ⟨(Syntax.resolveFields env.ask fields).value, by rw [value_ofText?, h]; rfl, warned, ?_,
    fun d _ type denotes => denotes.text_eq⟩
  have size : (Syntax.resolveFields env.ask fields).value.fields.size =
      (fields.map (·.name.text)).eraseDups.length := by
    rw [← declares.1]
    exact List.length_map _ |>.symm
  rw [warned, List.length_map, size, Syntax.length_redeclared]

theorem ofText?_warnings_three_declarations :
    ∃ o, (ofText? (.empty : Environment Nat) "\x7ba:Int b:T a:[T!] b:U a:V\x7d").value =
        .ok (.object o) ∧
      (ofText? (.empty : Environment Nat) "\x7ba:Int b:T a:[T!] b:U a:V\x7d").warnings =
        ["field `a` is declared more than once; type `[T!]` replaces `Int`",
          "field `b` is declared more than once; type `U` replaces `T`",
          "field `a` is declared more than once; type `V` replaces `[T!]`"] ∧
      o.fields.size = 2 := by
  let fields : List (Syntax.Field ByteSpan) :=
    [⟨⟨"a", ⟨1, 2⟩⟩, [], .named ⟨"Int", ⟨3, 6⟩⟩ none ⟨3, 6⟩, ⟨1, 6⟩⟩,
      ⟨⟨"b", ⟨7, 8⟩⟩, [], .named ⟨"T", ⟨9, 10⟩⟩ none ⟨9, 10⟩, ⟨7, 10⟩⟩,
      ⟨⟨"a", ⟨11, 12⟩⟩, [],
        .list (.named ⟨"T", ⟨14, 15⟩⟩ (some ⟨15, 16⟩) ⟨14, 16⟩) none ⟨13, 17⟩, ⟨11, 17⟩⟩,
      ⟨⟨"b", ⟨18, 19⟩⟩, [], .named ⟨"U", ⟨20, 21⟩⟩ none ⟨20, 21⟩, ⟨18, 21⟩⟩,
      ⟨⟨"a", ⟨22, 23⟩⟩, [], .named ⟨"V", ⟨24, 25⟩⟩ none ⟨24, 25⟩, ⟨22, 25⟩⟩]
  have read : (Syntax.Block.ofText? "\x7ba:Int b:T a:[T!] b:U a:V\x7d").value =
      .ok (.object fields ⟨0, 26⟩) := by
    rw [Syntax.Block.value_ofText?]
    decide +kernel
  have texts : (Syntax.redeclared fields).map Syntax.replacement =
      ["field `a` is declared more than once; type `[T!]` replaces `Int`",
        "field `b` is declared more than once; type `U` replaces `T`",
        "field `a` is declared more than once; type `V` replaces `[T!]`"] := by decide +kernel
  obtain ⟨o, value, warned, count, -⟩ := ofText?_warnings (.empty : Environment Nat) read
  rw [texts] at warned
  rw [warned] at count
  exact ⟨o, value, warned, Nat.add_left_cancel count⟩

end Shape

end ShapeSchema
