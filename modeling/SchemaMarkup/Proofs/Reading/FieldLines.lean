import SchemaMarkup.Proofs.Outcome
import SchemaMarkup.Reading.Model

/-!
# Field lines

A field line and the property lines nested under it set the properties of a field: its type and
what belongs to it, its texts and its attributes. They leave alone what classification and
inference set, and no property line changes the name of a field or the place where it is declared.
`Model.addField_eq_ok_iff` says what a field item adds to a model.
-/

namespace SchemaMarkup

namespace Field

/-- The field with the properties of another one. -/
def withProperties (field other : Field) : Field :=
  { field with
    label := other.label
    typeName := other.typeName
    length := other.length
    nullable := other.nullable
    defaultValue := other.defaultValue
    options := other.options
    semanticAttributes := other.semanticAttributes
    frameworkAttributes := other.frameworkAttributes
    description := other.description
    metadata := other.metadata }

/-- Two states of one field that differ in nothing but properties. Options are added as they are
read. -/
structure Refines (field refined : Field) : Prop where
  kept : refined = field.withProperties refined
  options : ∀ option ∈ refined.options,
    option ∈ field.options ∨ ∃ text, EnumValue.read text = .ok option

theorem Refines.refl (field : Field) : field.Refines field :=
  ⟨rfl, fun _ => .inl⟩

theorem Refines.trans {first second third : Field} (before : first.Refines second)
    (after : second.Refines third) : first.Refines third where
  kept := by
    rw [after.kept, before.kept]
    rfl
  options := fun option listed => (after.options option listed).elim (before.options option) .inr

variable {field refined : Field}

/-- A type that is set is read from all of the text: a type `enum` with its options, any other
one with its length. -/
theorem setType_eq_ok_iff {text : Text} :
    field.setType text = .ok refined ↔
      ∃ type, TypeExpression.read? text.trim = some type ∧
        (equalIgnoringCase type.name "enum" = true ∧
            (∃ options, readTypeOptions type = .ok options ∧ refined = { field with
              typeName := type.name, nullable := field.nullable || type.nullable
              options, length := none }) ∨
          equalIgnoringCase type.name "enum" = false ∧ type.rest = [] ∧
            ∃ length, type.inner.mapM Text.readLength = .ok length ∧ refined = { field with
              typeName := type.name, nullable := field.nullable || type.nullable, length }) := by
  cases isRead : TypeExpression.read? text.trim with
  | none =>
      simp only [setType, isRead, reduceCtorEq, false_and, exists_false, iff_false]
      split <;> simp [bind_eq_ok_iff, throw_eq_ok_iff]
  | some type =>
      have filled : text.trim.isEmpty = false := by
        cases shape : text.trim with
        | nil => simp [shape, TypeExpression.read?] at isRead
        | cons first rest => rfl
      cases isEnum : equalIgnoringCase type.name "enum" with
      | true =>
          have run : field.setType text = (readTypeOptions type).map fun options => { field with
              typeName := type.name, nullable := field.nullable || type.nullable
              options, length := none } := by
            simp only [setType, isRead, filled, isEnum]
            rfl
          simp [run, map_eq_ok_iff, isEnum, @eq_comm Field refined]
      | false =>
          cases rest : type.rest with
          | nil =>
              have run : field.setType text = (type.inner.mapM Text.readLength).map fun length =>
                  { field with
                    typeName := type.name, nullable := field.nullable || type.nullable, length } := by
                simp only [setType, isRead, filled, isEnum, rest]
                rfl
              simp [run, map_eq_ok_iff, rest, isEnum, @eq_comm Field refined]
          | cons first later =>
              simp only [setType, isRead, filled, isEnum, rest]
              simp [throw_eq_ok_iff, rest, isEnum]

theorem refines_setType {text : Text} (run : field.setType text = .ok refined) :
    field.Refines refined := by
  obtain ⟨type, _, ⟨_, options, areOptions, rfl⟩ | ⟨_, _, length, _, rfl⟩⟩ :=
    setType_eq_ok_iff.mp run
  · refine ⟨rfl, fun option listed => .inr ?_⟩
    rw [readTypeOptions] at areOptions
    split at areOptions
    · contradiction
    all_goals
      obtain ⟨piece, _, isRead⟩ := exists_of_mem_mapM areOptions listed
      exact ⟨piece, isRead⟩
  · exact ⟨rfl, fun _ => .inl⟩

/-- Neither a type nor a default value describes a field. -/
theorem description_of_setTypeAndDefault {text : Text}
    (run : field.setTypeAndDefault text = .ok refined) :
    refined.description = field.description := by
  simp only [setTypeAndDefault, bind_eq_ok_iff, pure_eq_ok_iff] at run
  obtain ⟨_, _, typed, isTyped, rfl⟩ := run
  obtain ⟨_, _, ⟨_, _, _, rfl⟩ | ⟨_, _, _, _, rfl⟩⟩ := setType_eq_ok_iff.mp isTyped
  · rfl
  · rfl

theorem refines_setTypeAndDefault {text : Text}
    (run : field.setTypeAndDefault text = .ok refined) : field.Refines refined := by
  simp only [setTypeAndDefault, bind_eq_ok_iff, pure_eq_ok_iff] at run
  obtain ⟨_, _, typed, isTyped, rfl⟩ := run
  exact (refines_setType isTyped).trans ⟨rfl, fun _ => .inl⟩

theorem refines_setProperty {key value : Text}
    (run : field.setProperty key value = .ok refined) : field.Refines refined := by
  rw [setProperty] at run
  split at run
  · exact refines_setTypeAndDefault run
  · cases run
    exact ⟨rfl, fun _ => .inl⟩
  · simp only [bind_eq_ok_iff, pure_eq_ok_iff] at run
    obtain ⟨_, _, rfl⟩ := run
    exact ⟨rfl, fun _ => .inl⟩
  · cases run
    exact ⟨rfl, fun _ => .inl⟩
  · split at run
    · cases run
      exact ⟨rfl, fun _ => .inl⟩
    · contradiction
  · simp only [bind_eq_ok_iff, pure_eq_ok_iff] at run
    obtain ⟨_, _, rfl⟩ := run
    exact ⟨rfl, fun _ => .inl⟩
  · simp only [bind_eq_ok_iff, pure_eq_ok_iff] at run
    obtain ⟨options, areOptions, rfl⟩ := run
    refine ⟨rfl, fun option listed => (List.mem_append.mp listed).imp_right fun isNew => ?_⟩
    obtain ⟨piece, _, isRead⟩ := exists_of_mem_mapM areOptions isNew
    exact ⟨piece, isRead⟩
  · cases run
    exact ⟨rfl, fun _ => .inl⟩

/-- A property line sets properties. -/
theorem refines_refine {text : Text} (run : field.refine text = .ok refined) :
    field.Refines refined := by
  simp only [refine] at run
  split at run
  · simp only [addFrameworkLine, bind_eq_ok_iff, pure_eq_ok_iff] at run
    obtain ⟨_, _, _, _, rfl⟩ := run
    exact ⟨rfl, fun _ => .inl⟩
  · split at run
    · simp only [addSemanticLine, bind_eq_ok_iff, pure_eq_ok_iff] at run
      obtain ⟨_, _, _, _, _, _, rfl⟩ := run
      exact ⟨rfl, fun _ => .inl⟩
    · split at run
      · simp only [bind_eq_ok_iff, pure_eq_ok_iff] at run
        obtain ⟨added, isRead, rfl⟩ := run
        refine ⟨rfl, fun option listed => (List.mem_append.mp listed).imp_right fun isNew => ?_⟩
        exact ⟨_, List.mem_singleton.mp isNew ▸ isRead⟩
      · simp only [bind_eq_ok_iff] at run
        obtain ⟨_, _, run⟩ := run
        split at run
        · exact refines_setProperty run
        · simp only [throw_eq_ok_iff] at run

theorem refines_refineByLine {line : Line} (run : field.refineByLine line = .ok refined) :
    field.Refines refined := by
  rw [refineByLine] at run
  split at run
  · cases run
    exact ⟨rfl, fun _ => .inl⟩
  · exact refines_refine (atLocation_eq_ok_iff.mp run)

/-- A field line sets properties of a field of its name, at its place. The name is split off some
part of the line. -/
theorem refines_read {location : Location} {text : Text} {form : FieldForm}
    (run : Field.read location text = .ok (field, form)) :
    Refines { name := field.name, location } field ∧
      ∃ head label, Text.splitNameLabel? head = some (field.name, label) := by
  simp only [Field.read, bind_eq_ok_iff] at run
  obtain ⟨⟨_, frameworkAttributes⟩, _, _, _, annotated, _, run⟩ := run
  split at run
  · split at run
    · simp only [throw_eq_ok_iff] at run
    · next name label isSplit =>
        simp only [bind_eq_ok_iff, pure_eq_ok_iff, Prod.mk.injEq] at run
        obtain ⟨typed, isTyped, rfl, _⟩ := run
        have refines := refines_setTypeAndDefault isTyped
        have named : typed.name = name := by
          rw [refines.kept]
          rfl
        subst named
        refine ⟨⟨?_, refines.options⟩, _, label, isSplit⟩
        conv_lhs => rw [refines.kept]
        rfl
  · split at run
    · simp only [throw_eq_ok_iff] at run
    · next name label isSplit =>
        simp only [pure_eq_ok_iff, Prod.mk.injEq] at run
        obtain ⟨rfl, _⟩ := run
        exact ⟨⟨rfl, fun _ => .inl⟩, _, label, isSplit⟩

/-- Beside its properties, the field of an item holds nothing but its name, which is split off some
part of the item, and where it is declared. -/
theorem refines_item {location : Location} {text : Text} {nested : List Line} {owner : String}
    {declared : Field} {form : FieldForm}
    (isRead : Field.read location text = .ok (declared, form))
    (isRefined : nested.foldlM refineByLine { declared with declaredIn := owner } = .ok field) :
    Refines { name := field.name, declaredIn := owner, location } field ∧
      ∃ head label, Text.splitNameLabel? head = some (field.name, label) := by
  obtain ⟨started, isSplit⟩ := refines_read isRead
  have owned : Refines { name := declared.name, declaredIn := owner, location }
      { declared with declaredIn := owner } := by
    refine ⟨?_, started.options⟩
    conv_lhs => rw [started.kept]
    rfl
  have refines := foldlM_keeps (Refines { declared with declaredIn := owner })
    (fun _ _ _ step kept => kept.trans (refines_refineByLine step)) isRefined (.refl _)
  have name : field.name = declared.name := by
    rw [refines.kept]
    rfl
  rw [name]
  exact ⟨owned.trans refines, isSplit⟩

end Field

namespace Model

/-- A field item adds the field that its lines tell, if that has a type and a new name. -/
theorem addField_eq_ok_iff {model next : Model} {line : Line} {nested : List Line} :
    model.addField line nested = .ok next ↔
      ∃ declared form field, Field.read line.location line.content = .ok (declared, form) ∧
        nested.foldlM Field.refineByLine { declared with declaredIn := model.name } = .ok field ∧
        field.typeName ≠ "" ∧ model.field? field.name = none ∧
        next = { model with fields := model.fields ++ [field] } := by
  have isTyped : ∀ field : Field, field.checkTyped = .ok () ↔ field.typeName ≠ "" := by
    intro field
    rw [Field.checkTyped]
    split
    · next untyped => simpa using untyped
    · next typed => simpa using typed
  simp only [addField, bind_eq_ok_iff, atLocation_eq_ok_iff, Prod.exists, isTyped]
  constructor
  · rintro ⟨declared, form, isRead, field, isRefined, _, typed, run⟩
    split at run
    · simp only [bind_eq_ok_iff, throw_eq_ok_iff, false_and, exists_false] at run
    · next isNew =>
        exact ⟨declared, form, field, isRead, isRefined, typed, by simpa using isNew,
          (pure_eq_ok_iff.mp run).symm⟩
  · rintro ⟨declared, form, field, isRead, isRefined, typed, isNew, rfl⟩
    refine ⟨declared, form, isRead, field, isRefined, (), typed, ?_⟩
    rw [isNew]
    rfl

end Model

end SchemaMarkup
