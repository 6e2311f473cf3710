import ShapeSchema.Proofs.CatalogReferences
import ShapeSchema.Proofs.EqualShapes
set_option autoImplicit false

namespace ShapeSchema

variable {H σ : Type}

namespace Syntax

/-- The declarations that count, in the order of the shape. -/
def lastDeclarations (fields : List (Field σ)) : List (Field σ) :=
  (fields.map (·.name.text)).eraseDups.filterMap (lastDeclared · fields)

def namesOfDeclared (fields : List (Field σ)) : List String :=
  (fields.flatMap Field.types).map (·.leaf.text)

end Syntax

def Environment.isUnknown (env : Environment H) (name : String) : Bool :=
  !(env.resolve name).value.isResolved

theorem idxOf_lt_of_filter {keep : String → Bool} {names : List String} {a b : String}
    (ha : keep a = true) (hb : keep b = true)
    (h : (names.filter keep).idxOf a < (names.filter keep).idxOf b) :
    names.idxOf a < names.idxOf b := by
  induction names with
  | nil => simp at h
  | cons name names ih =>
    by_cases kept : keep name = true
    · rw [List.filter_cons_of_pos kept] at h
      have behind : name ≠ b := by
        rintro rfl
        rw [List.idxOf_cons_self] at h
        exact Nat.not_lt_zero _ h
      by_cases first : name = a
      · rw [← first, List.idxOf_cons_self, List.idxOf_cons_ne _ behind]
        exact Nat.succ_pos _
      · rw [List.idxOf_cons_ne _ first, List.idxOf_cons_ne _ behind] at h ⊢
        exact Nat.succ_lt_succ (ih (Nat.lt_of_succ_lt_succ h))
    · have apart {c : String} (hc : keep c = true) : name ≠ c := by
        rintro rfl
        exact kept hc
      rw [List.filter_cons_of_neg kept] at h
      rw [List.idxOf_cons_ne _ (apart ha), List.idxOf_cons_ne _ (apart hb)]
      exact Nat.succ_lt_succ (ih h)

theorem pairwise_eraseDups (names : List String) :
    names.eraseDups.Pairwise fun a b => names.idxOf a < names.idxOf b := by
  induction hl : names.length using Nat.strongRecOn generalizing names with
  | ind len ih =>
    cases names with
    | nil => exact .nil
    | cons name names =>
      have shorter : (names.filter fun other => !other == name).length < len := by
        have := List.length_filter_le (fun other => !other == name) names
        rw [List.length_cons] at hl
        omega
      have apart : ∀ a ∈ (names.filter fun other => !other == name).eraseDups, name ≠ a := by
        rintro a ha rfl
        simp [List.mem_eraseDups, List.mem_filter] at ha
      rw [List.eraseDups_cons, List.pairwise_cons]
      refine ⟨fun b hb => ?_, (ih _ shorter _ rfl).imp_of_mem fun {a b} ha hb h => ?_⟩
      · rw [List.idxOf_cons_self, List.idxOf_cons_ne _ (apart b hb)]
        exact Nat.succ_pos _
      · rw [List.idxOf_cons_ne _ (apart a ha), List.idxOf_cons_ne _ (apart b hb)]
        exact Nat.succ_lt_succ (idxOf_lt_of_filter (by simpa using (apart a ha).symm)
          (by simpa using (apart b hb).symm) h)

theorem pairwise_distinct_filter (keep : String → Bool) (names : List String) :
    (distinct (names.filter keep)).Pairwise fun a b => names.idxOf a < names.idxOf b := by
  rw [distinct_eq_eraseDups]
  refine (pairwise_eraseDups _).imp_of_mem fun {a b} ha hb h => ?_
  rw [List.mem_eraseDups, List.mem_filter] at ha hb
  exact idxOf_lt_of_filter ha.2 hb.2 h

theorem mem_distinct {names : List String} {name : String} :
    name ∈ distinct names ↔ name ∈ names := by
  rw [distinct_eq_eraseDups, List.mem_eraseDups]

theorem distinct_eq_nil_iff {names : List String} : distinct names = [] ↔ names = [] := by
  simp [List.eq_nil_iff_forall_not_mem, mem_distinct]

theorem OrderedMap.values_eq_filterMap {α : Type} (m : OrderedMap α) :
    m.values = m.names.filterMap m.get? := by
  rw [values, names, List.filterMap_map, eq_comm, List.filterMap_eq_map_iff_forall_eq_some]
  exact fun entry he => m.get?_eq_some_iff.mpr he

theorem Resolution.isResolved_iff {meaning : Resolution H} :
    meaning.isResolved = true ↔ meaning ≠ .unresolved := by
  cases meaning <;> simp [isResolved]

section Environment

variable {env : Environment H}

theorem Environment.isUnknown_iff {name : String} :
    env.isUnknown name = true ↔ (∀ s : Scalar, s.name ≠ name) ∧ env.lookup name = none := by
  rw [← (env.means_resolve name).eq_unresolved_iff, isUnknown, Bool.not_eq_true',
    ← Bool.not_eq_true, Resolution.isResolved_iff, not_not]

theorem filterMap_unresolved? {types : List (ResolvedType H)}
    (means : ∀ type ∈ types, env.Means type.leafName type.leafResolution) :
    types.filterMap ResolvedType.unresolved? =
      (types.map ResolvedType.leafName).filter env.isUnknown := by
  induction types with
  | nil => rfl
  | cons type types ih =>
    obtain ⟨here, later⟩ := List.forall_mem_cons.mp means
    have known : type.leafResolution.isResolved = !env.isUnknown type.leafName := by
      rw [here.eq_resolve, Environment.isUnknown, Bool.not_not]
    rw [List.map_cons, List.filterMap_cons, List.filter_cons, ResolvedType.unresolved?, known,
      ih later]
    cases env.isUnknown type.leafName <;> rfl

namespace Syntax

theorem TypeExpr.Denotes.leafName {t : TypeExpr σ} {type : ResolvedType H}
    (h : t.Denotes env type) : type.leafName = t.leaf.text := by
  induction h with
  | named _ => rfl
  | list _ ih => exact ih

theorem Field.Denotes.leafNames {d : Field σ} {f : Shape.Field H} (h : d.Denotes env f) :
    f.types.map ResolvedType.leafName = d.types.map (·.leaf.text) := by
  have parameters {ps : List (Parameter σ)} {qs : List (Shape.Parameter H)}
      (hqs : List.Forall₂ (Parameter.Denotes env) ps qs) :
      qs.map (·.type.leafName) = ps.map (·.type.leaf.text) := by
    induction hqs with
    | nil => rfl
    | cons hq _ ih => rw [List.map_cons, List.map_cons, hq.type.leafName, ih]
  rw [Shape.Field.types, types, List.map_append, List.map_append, List.map_map, List.map_map,
    List.map_singleton, List.map_singleton, h.type.leafName]
  exact congrArg (· ++ _) (parameters h.parameters)

theorem forall₂_filterMap {α β γ : Type} {R : β → γ → Prop} {f : α → Option β} {g : α → Option γ}
    (h : ∀ a, Option.Rel R (f a) (g a)) (as : List α) :
    List.Forall₂ R (as.filterMap f) (as.filterMap g) := by
  induction as with
  | nil => exact .nil
  | cons a as ih =>
    rw [List.filterMap_cons, List.filterMap_cons]
    have here := h a
    revert here
    cases f a <;> cases g a <;> rintro ⟨⟩
    · exact ih
    · next related => exact .cons related ih

theorem mem_lastDeclarations {fields : List (Field σ)} {d : Field σ} :
    d ∈ lastDeclarations fields ↔ ∃ field, lastDeclared field fields = some d := by
  rw [lastDeclarations, List.mem_filterMap]
  refine exists_congr fun field => and_iff_right_of_imp fun last => ?_
  rw [List.mem_eraseDups, ← isSome_lastDeclared, last]
  rfl

variable {fields : List (Field σ)} {span : σ} {o : Shape.Object H}

/-- The fields of the shape are denoted by the declarations that count, one by one. -/
theorem Block.Declares.lastDeclarations (h : (Block.object fields span).Declares env (.object o)) :
    List.Forall₂ (Field.Denotes env) (lastDeclarations fields) o.fields.values := by
  have names : o.fields.names = _ := h.1
  rw [OrderedMap.values_eq_filterMap, names]
  exact forall₂_filterMap h.2 _

theorem Block.Declares.leafNames (h : (Block.object fields span).Declares env (.object o)) :
    (Shape.object o).types.map ResolvedType.leafName =
      namesOfDeclared (Syntax.lastDeclarations fields) := by
  have each {ds : List (Field σ)} {fs : List (Shape.Field H)}
      (hfs : List.Forall₂ (Field.Denotes env) ds fs) :
      (fs.flatMap Shape.Field.types).map ResolvedType.leafName = namesOfDeclared ds := by
    induction hfs with
    | nil => rfl
    | cons hf _ ih =>
      rw [List.flatMap_cons, List.map_append, hf.leafNames, ih, namesOfDeclared, namesOfDeclared,
        List.flatMap_cons, List.map_append]
  exact each h.lastDeclarations

theorem Block.Declares.unresolvedNames_eq
    (h : (Block.object fields span).Declares env (.object o)) :
    o.unresolvedNames =
      distinct ((namesOfDeclared (Syntax.lastDeclarations fields)).filter env.isUnknown) := by
  rw [← h.leafNames, ← filterMap_unresolved? h.means]
  rfl

end Syntax

end Environment

open Syntax (lastDeclared lastDeclarations namesOfDeclared)

/-- What the unresolved names of an object are, told by the declarations of its fields. -/
structure Shape.Object.ListsUnknown (env : Environment H) (fields : List (Syntax.Field σ))
    (o : Shape.Object H) : Prop where
  nodup : o.unresolvedNames.Nodup
  mem_iff : ∀ name, name ∈ o.unresolvedNames ↔
    (∀ s : Scalar, s.name ≠ name) ∧ env.lookup name = none ∧
      ∃ field d, lastDeclared field fields = some d ∧ ∃ t ∈ d.types, t.leaf.text = name
  /-- The types of the object come field by field, those of its parameters first. -/
  visited : (Shape.object o).types.map ResolvedType.leafName =
    namesOfDeclared (lastDeclarations fields)
  ordered : o.unresolvedNames.Pairwise fun a b =>
    (namesOfDeclared (lastDeclarations fields)).idxOf a <
      (namesOfDeclared (lastDeclarations fields)).idxOf b
  eq_nil_iff : o.unresolvedNames = [] ↔
    ∀ type ∈ (Shape.object o).types, type.leafResolution.isResolved = true

theorem Syntax.Block.Declares.listsUnknown {env : Environment H} {fields : List (Syntax.Field σ)}
    {span : σ} {o : Shape.Object H} (h : (Block.object fields span).Declares env (.object o)) :
    o.ListsUnknown env fields := by
  refine ⟨nodup_distinct _, fun name => ?_, h.leafNames, ?_, ?_⟩
  · rw [h.unresolvedNames_eq, mem_distinct, List.mem_filter, Environment.isUnknown_iff, and_comm,
      and_assoc, namesOfDeclared, List.mem_map]
    refine and_congr_right' (and_congr_right' ?_)
    simp only [List.mem_flatMap, mem_lastDeclarations]
    constructor
    · rintro ⟨t, ⟨d, ⟨field, last⟩, ht⟩, rfl⟩
      exact ⟨field, d, last, t, ht, rfl⟩
    · rintro ⟨field, d, last, t, ht, rfl⟩
      exact ⟨t, ⟨d, ⟨field, last⟩, ht⟩, rfl⟩
  · rw [h.unresolvedNames_eq]
    exact pairwise_distinct_filter _ _
  · have listed : o.unresolvedNames =
        distinct ((Shape.object o).types.filterMap ResolvedType.unresolved?) := rfl
    rw [listed, distinct_eq_nil_iff, List.filterMap_eq_nil_iff]
    refine forall₂_congr fun type _ => ?_
    unfold ResolvedType.unresolved?
    cases type.leafResolution.isResolved <;> simp

namespace Shape

/-- The object of a text lists a name as unresolved just when the last declaration of some field has
    it as a type name, no built-in scalar is called so, and the environment does not hold it. The
    names come once each, in the order in which the fields of the object have them, and there are
    none just when all types of the object are resolved. -/
theorem ofText?_unresolvedNames (env : Environment H) {text : String}
    {fields : List (Syntax.Field ByteSpan)} {span : ByteSpan}
    (h : (Syntax.Block.ofText? text).value = .ok (.object fields span)) :
    ∃ o, (ofText? env text).value = .ok (.object o) ∧ o.ListsUnknown env fields := by
  have declares : (Syntax.Block.object fields span).Declares env
      (.object (Syntax.resolveFields env.ask fields).value) :=
    (Syntax.Block.object fields span).declares_resolve env
  refine ⟨_, ?_, declares.listsUnknown⟩
  rw [value_ofText?, h]
  rfl

/-- `T` occurs in a declaration that is replaced, and `W` comes last in the text, but first in the
    object, where the field `a` has the place of its first declaration. -/
theorem ofText?_unresolvedNames_replaced_field :
    ∃ fields span o,
      (Syntax.Block.ofText? "\x7ba:T b(x:[U!],y:Int):V a(z:W):[V]\x7d").value =
        .ok (.object fields span) ∧
      (ofText? ⟨fun n => if n = "U" then some n.length else none⟩
        "\x7ba:T b(x:[U!],y:Int):V a(z:W):[V]\x7d").value = .ok (.object o) ∧
      o.ListsUnknown ⟨fun n => if n = "U" then some n.length else none⟩ fields ∧
      o.unresolvedNames = ["W", "V"] := by
  have size : "\x7ba:T b(x:[U!],y:Int):V a(z:W):[V]\x7d".utf8ByteSize ≤ ByteSpan.limit := by decide
  let type (name : String) : Syntax.TypeExpr Unit := .named ⟨name, ()⟩ none ()
  obtain ⟨block, read, bare⟩ := (Syntax.Block.exists_read_iff (Token.fits_of_mem_ofText size)
    (b := .object
      [⟨⟨"a", ()⟩, [], type "T", ()⟩,
        ⟨⟨"b", ()⟩,
          [⟨⟨"x", ()⟩, .list (.named ⟨"U", ()⟩ (some ()) ()) none (), ()⟩,
            ⟨⟨"y", ()⟩, type "Int", ()⟩], type "V", ()⟩,
        ⟨⟨"a", ()⟩, [⟨⟨"z", ()⟩, type "W", ()⟩], .list (type "V") none (), ()⟩] ())).mpr
    (by decide +kernel)
  cases block with
  | enum values span => cases bare
  | object fields span =>
    obtain ⟨o, shape, lists⟩ :=
      ofText?_unresolvedNames ⟨fun n => if n = "U" then some n.length else none⟩ read
    refine ⟨fields, span, o, read, shape, lists, ?_⟩
    have known := Except.ok.inj (shape.symm.trans (value_ofText?_of_bare _ read bare))
    have names : some o.unresolvedNames = some ["W", "V"] :=
      (congrArg (fun shape => (object? shape).map Object.unresolvedNames) known).trans
        (by decide +kernel)
    exact Option.some.inj names

end Shape

end ShapeSchema
