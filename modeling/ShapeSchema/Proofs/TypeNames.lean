import ShapeSchema.Bindings
import ShapeSchema.Proofs.CatalogOperations
import ShapeSchema.Proofs.EnvironmentLookups
import ShapeSchema.Proofs.WrittenTypes
set_option autoImplicit false

namespace ShapeSchema

variable {H : Type} {name : String}

theorem checkTypeName_eq_builtin_iff :
    checkTypeName name = .error (.builtinScalar name) ↔
      isValidName name = true ∧ Scalar.isBuiltin name = true := by
  unfold checkTypeName
  cases isValidName name <;> cases Scalar.isBuiltin name <;> simp

theorem checkTypeName_eq_invalid_iff :
    checkTypeName name = .error (.invalidName name) ↔ isValidName name = false := by
  unfold checkTypeName
  cases isValidName name <;> cases Scalar.isBuiltin name <;> simp

theorem Scalar.isBuiltin_iff : isBuiltin name = true ↔ ∃ s : Scalar, s.name = name := by
  rw [isBuiltin, Option.isSome_iff_exists]
  constructor
  · rintro ⟨s, found⟩
    exact ⟨s, name_eq_of_ofName? found⟩
  · rintro ⟨s, rfl⟩
    exact ⟨s, ofName?_name s⟩

namespace Bindings

variable {b : Bindings H} {handle : H}

theorem insert_eq_ok_iff :
    (∃ answer, (b.insert name handle).value.1 = .ok answer) ↔ checkTypeName name = .ok () := by
  rw [value_insert]
  cases checkTypeName name <;> simp

theorem insert_eq_error_iff {e : EnvironmentError} :
    (b.insert name handle).value.1 = .error e ↔ checkTypeName name = .error e := by
  rw [value_insert]
  cases checkTypeName name <;> simp

end Bindings

namespace Catalog

variable {c : Catalog}

theorem declare_eq_ok_iff :
    (∃ answer, (c.declare name).value.1 = .ok answer) ↔ checkTypeName name = .ok () := by
  rw [value_declare]
  cases checkTypeName name <;> simp

theorem declare_eq_error_iff {e : EnvironmentError} :
    (c.declare name).value.1 = .error e ↔ checkTypeName name = .error e := by
  rw [value_declare]
  cases checkTypeName name <;> simp

end Catalog

def fieldText (name : String) : String := "\x7bf:" ++ name ++ "\x7d"

/-- Written as a type, the name is read as one name, itself, nullable and in no list. -/
def ReadsAsItself (name : String) : Prop :=
  ∃ block, (Syntax.Block.ofText? (fieldText name)).value = .ok block ∧
    block.bare = .object [⟨⟨"f", ()⟩, [], .named ⟨name, ()⟩ none (), ()⟩] ()

/-- Written as a type, the name is what every environment is asked for, and nothing else is. -/
def AskedForWhenWritten (name : String) : Prop :=
  ∀ (H : Type) (env : Environment H), (Shape.ofText? env (fieldText name)).lookups = [name]

theorem isValidName_of_mem_ofText {text : String} {t : Token} (ht : t ∈ Token.ofText text)
    (hk : t.kind = .name name) : isValidName name = true := by
  obtain ⟨before, run, after, -, described, -⟩ := Token.exists_slice ht
  rw [hk] at described
  exact described.2.1

theorem utf8ByteSize_fieldText (size : name.utf8ByteSize < 2 ^ 31) :
    (fieldText name).utf8ByteSize ≤ ByteSpan.limit := by
  have opening : "\x7bf:".utf8ByteSize = 3 := by decide
  have closing : "\x7d".utf8ByteSize = 1 := by decide
  rw [fieldText, String.utf8ByteSize_append, String.utf8ByteSize_append, opening, closing,
    ByteSpan.limit]
  omega

theorem print_named (name : String) :
    (Syntax.Block.ofType (.named ⟨name, ()⟩ none ())).print = fieldText name := by
  have chars : (Mark.word name).chars = name.toList := rfl
  rw [Syntax.Block.print_ofType, Syntax.TypeExpr.marks, Syntax.bangMarks, List.flatMap_singleton,
    chars, String.ofList_toList, fieldText]

/-- The lexer finds the name in the text just when it is valid. -/
theorem readsAsItself_iff (size : name.utf8ByteSize < 2 ^ 31) :
    ReadsAsItself name ↔ isValidName name = true := by
  have fit := Token.fits_of_mem_ofText (utf8ByteSize_fieldText size)
  have written : ReadsAsItself name ↔
      (Syntax.Block.ofType (.named ⟨name, ()⟩ none ())).WrittenBy (Token.ofText (fieldText name)) :=
    Syntax.Block.exists_read_iff fit
  rw [written]
  constructor
  · rintro ⟨-, spelled⟩
    have inside : Mark.word name ∈ (Syntax.Block.ofType (.named ⟨name, ()⟩ none ())).marks := by
      simp [Syntax.Block.marks_ofType, Syntax.TypeExpr.marks]
    obtain ⟨t, ht, meets⟩ := spelled.exists_token inside
    exact isValidName_of_mem_ofText (mem_ofText_of_significant ht) (Spells.word_iff.mp meets)
  · intro valid
    have field : isValidName "f" = true := by decide
    have names : ∀ n ∈ (Syntax.Block.ofType (.named ⟨name, ()⟩ none ())).names,
        isValidName n = true := by
      simp [Syntax.Block.ofType, Syntax.Block.ofField, Syntax.Block.names, Syntax.TypeExpr.leaf,
        valid, field]
    have flat : (Syntax.Block.ofType (.named ⟨name, ()⟩ none ())).Shallow := by
      have room : 0 < Parse.maxDepth := by decide
      simpa [Syntax.Block.ofType, Syntax.Block.ofField, Syntax.Block.Shallow, Syntax.Block.types,
        Syntax.Field.types, Syntax.TypeExpr.depth] using room
    have spelled := Syntax.Block.writtenBy_print names flat
    rwa [print_named] at spelled

theorem ReadsAsItself.lookups (h : ReadsAsItself name) (env : Environment H) :
    (Shape.ofText? env (fieldText name)).lookups = askedFor [name] := by
  obtain ⟨block, read, bare⟩ := h
  have names : block.typeNames = [name] := by
    rw [← block.typeNames_map fun _ => (), ← Syntax.Block.bare, bare]
    rfl
  rw [Shape.lookups_ofText?, read, ← names]

theorem ReadsAsItself.asked_iff (h : ReadsAsItself name) :
    AskedForWhenWritten name ↔ Scalar.isBuiltin name = false := by
  constructor
  · intro asked
    have names := (h.lookups (.empty : Environment Unit)).symm.trans (asked Unit .empty)
    simpa [askedFor] using names
  · intro other H env
    rw [h.lookups env]
    simp [askedFor, other]

/-- A name is bound, and may be declared, just when it is read as itself where it is written as a
    type, and is asked for there. A built-in scalar is read as itself too; any other name that is
    refused is not. -/
theorem names_entered_as_written (b : Bindings H) (handle : H) (c : Catalog) (name : String)
    (size : name.utf8ByteSize < 2 ^ 31) :
    ((∃ answer, (b.insert name handle).value.1 = .ok answer) ↔
      ReadsAsItself name ∧ AskedForWhenWritten name) ∧
    ((b.insert name handle).value.1 = .error (.builtinScalar name) ↔
      ReadsAsItself name ∧ ∃ s : Scalar, s.name = name) ∧
    ((b.insert name handle).value.1 = .error (.invalidName name) ↔ ¬ ReadsAsItself name) ∧
    ((∃ answer, (c.declare name).value.1 = .ok answer) ↔
      ∃ answer, (b.insert name handle).value.1 = .ok answer) ∧
    ∀ e, (c.declare name).value.1 = .error e ↔ (b.insert name handle).value.1 = .error e := by
  have reads := readsAsItself_iff size
  simp only [Bindings.insert_eq_ok_iff, Bindings.insert_eq_error_iff, Catalog.declare_eq_ok_iff,
    Catalog.declare_eq_error_iff, checkTypeName_eq_ok_iff, checkTypeName_eq_builtin_iff,
    checkTypeName_eq_invalid_iff, ← Scalar.isBuiltin_iff, implies_true, and_true]
  refine ⟨?_, ?_, ?_⟩
  · rw [← reads]
    exact and_congr_right fun h => h.asked_iff.symm
  · rw [reads]
  · rw [reads, Bool.not_eq_true]

theorem names_entered_as_written_one_of_each :
    ("User".utf8ByteSize < 2 ^ 31 ∧ ReadsAsItself "User" ∧ AskedForWhenWritten "User") ∧
    ("Int".utf8ByteSize < 2 ^ 31 ∧ ReadsAsItself "Int" ∧ ∃ s : Scalar, s.name = "Int") ∧
    "T!".utf8ByteSize < 2 ^ 31 ∧ ¬ ReadsAsItself "T!" ∧
      (Catalog.empty.declare "T!").value.1 = .error (.invalidName "T!") := by
  have user : "User".utf8ByteSize < 2 ^ 31 := by decide
  have int : "Int".utf8ByteSize < 2 ^ 31 := by decide
  have bang : "T!".utf8ByteSize < 2 ^ 31 := by decide
  have bound : checkTypeName "User" = .ok () := by decide
  have builtin : checkTypeName "Int" = .error (.builtinScalar "Int") := by decide
  have invalid : checkTypeName "T!" = .error (.invalidName "T!") := by decide
  have bindings : Bindings Unit := .empty
  obtain ⟨-, -, unread, -, declares⟩ := names_entered_as_written bindings () .empty "T!" bang
  refine ⟨⟨user, ?_⟩, ⟨int, ?_⟩, bang, ?_, ?_⟩
  · exact (names_entered_as_written bindings () .empty "User" user).1.mp
      (Bindings.insert_eq_ok_iff.mpr bound)
  · exact (names_entered_as_written bindings () .empty "Int" int).2.1.mp
      (Bindings.insert_eq_error_iff.mpr builtin)
  · exact unread.mp (Bindings.insert_eq_error_iff.mpr invalid)
  · exact (declares _).mpr (Bindings.insert_eq_error_iff.mpr invalid)

end ShapeSchema
