import SchemaMarkup.Proofs.Entities
import SchemaMarkup.Proofs.Lookup
import SchemaMarkup.Proofs.Reading.SourcePasses

/-!
# Foreign keys by name

A field refers to a model by its name if four things come together: the name does not start with
`_`, no attribute says that the field is a foreign key, the name ends with a suffix of the
dialect, and what stands before the suffix is the name of a model. `Document.RefersByName` says so
without a search. `Document.read_infersForeignKeys` says that such fields, and nothing else, are
what reading with foreign keys changes.
-/

namespace SchemaMarkup

/-! ## Suffixes -/

theorem ofList_ne_empty_iff {text : Text} :
    String.ofList text ≠ "" ↔ (!text.isEmpty) = true := by
  cases text <;> simp

/-- A name is divided in one way into a front part and an ending of some length. -/
theorem eq_append_iff_take_drop {name front ending : String} {count : Nat}
    (length : ending.toList.length = count) :
    name = front ++ ending ↔
      String.ofList (name.toList.take (name.toList.length - count)) = front ∧
        String.ofList (name.toList.drop (name.toList.length - count)) = ending := by
  constructor
  · rintro rfl
    have size : (front ++ ending).toList.length - count = front.toList.length := by
      rw [String.toList_append, List.length_append]
      omega
    rw [size, String.toList_append, List.take_left, List.drop_left, String.ofList_toList,
      String.ofList_toList]
    exact ⟨rfl, rfl⟩
  · rintro ⟨rfl, rfl⟩
    rw [← String.ofList_append, List.take_append_drop, String.ofList_toList]

theorem length_of_equalIgnoringCase {left right : String}
    (alike : equalIgnoringCase left right = true) : left.toList.length = right.toList.length := by
  rw [equalIgnoringCase_iff] at alike
  simpa using congrArg List.length alike

/-- A name is cut before a suffix in any case, and something has to stand there. -/
theorem beforeSuffixIgnoringCase?_eq_some_iff {name suffix front : String} :
    beforeSuffixIgnoringCase? name suffix = some front ↔
      front ≠ "" ∧ ∃ ending, name = front ++ ending ∧ equalIgnoringCase ending suffix = true := by
  simp only [beforeSuffixIgnoringCase?, Option.ite_none_right_eq_some, Option.some.injEq,
    Bool.and_eq_true, Text.spells]
  constructor
  · rintro ⟨⟨more, isSuffix⟩, rfl⟩
    refine ⟨ofList_ne_empty_iff.mpr more, _, ?_, isSuffix⟩
    rw [eq_append_iff_take_drop (length_of_equalIgnoringCase isSuffix)]
    exact ⟨rfl, rfl⟩
  · rintro ⟨more, ending, cut, isSuffix⟩
    rw [eq_append_iff_take_drop (length_of_equalIgnoringCase isSuffix)] at cut
    obtain ⟨rfl, rfl⟩ := cut
    exact ⟨⟨ofList_ne_empty_iff.mp more, isSuffix⟩, rfl⟩

/-- A name is cut before a suffix as it is written, and something has to stand there. -/
theorem beforeSuffix?_eq_some_iff {name suffix front : String} :
    beforeSuffix? name suffix = some front ↔ front ≠ "" ∧ name = front ++ suffix := by
  simp only [beforeSuffix?, Option.ite_none_right_eq_some, Option.some.injEq,
    Bool.and_eq_true]
  rw [eq_append_iff_take_drop rfl]
  constructor
  · rintro ⟨⟨more, isSuffix⟩, rfl⟩
    refine ⟨ofList_ne_empty_iff.mpr more, rfl, ?_⟩
    rw [beq_iff_eq.mp isSuffix, String.ofList_toList]
  · rintro ⟨more, rfl, isSuffix⟩
    refine ⟨⟨ofList_ne_empty_iff.mp more, beq_iff_eq.mpr ?_⟩, rfl⟩
    exact String.toList_ofList.symm.trans (congrArg String.toList isSuffix)

/-- The last character of a name, in lower case. -/
def lastLetter? (name : String) : Option Char :=
  name.toList.getLast?.map Char.toLower

/-- A name that ends with a suffix in any case ends with its last letter. -/
theorem lastLetter?_of_suffix {name front ending suffix : String} (cut : name = front ++ ending)
    (isSuffix : equalIgnoringCase ending suffix = true) (letters : suffix.toList ≠ []) :
    lastLetter? name = lastLetter? suffix := by
  rw [equalIgnoringCase_iff] at isSuffix
  rw [lastLetter?, lastLetter?, cut, ← List.getLast?_map, ← List.getLast?_map,
    String.toList_append, List.map_append, isSuffix]
  exact List.getLast?_append_of_ne_nil _ (by simpa using letters)

namespace Dialect

/-- A name that ends with `_id` or with `_key` in any case, behind some other text. -/
inductive Underscored (name front : String) : Prop where
  | id {ending} (more : front ≠ "") (cut : name = front ++ ending)
      (isSuffix : equalIgnoringCase ending "_id" = true) : Underscored name front
  | key {ending} (more : front ≠ "") (cut : name = front ++ ending)
      (isSuffix : equalIgnoringCase ending "_key" = true) : Underscored name front

/-- What a field name has in front of a suffix by which it refers to an entity. -/
inductive Suggests (dialect : Dialect) (name front : String) : Prop where
  | underscored (cut : Underscored name front) : dialect.Suggests name front
  /-- The legacy dialect also has suffixes without `_`, as they are written. -/
  | joined (legacy : dialect = .legacy) (bare : ∀ other, ¬Underscored name other)
      (more : front ≠ "") (cut : name = front ++ "Id" ∨ name = front ++ "Key") :
      dialect.Suggests name front

/-- The two suffixes end with other letters, so the order in which they are tried is no matter. -/
theorem or_eq_some_iff_underscored {name front : String} :
    (beforeSuffixIgnoringCase? name "_id").or (beforeSuffixIgnoringCase? name "_key") =
      some front ↔ Underscored name front := by
  rw [Option.or_eq_some_iff, beforeSuffixIgnoringCase?_eq_some_iff,
    beforeSuffixIgnoringCase?_eq_some_iff]
  constructor
  · rintro (⟨more, ending, cut, isSuffix⟩ | ⟨_, more, ending, cut, isSuffix⟩)
    · exact .id more cut isSuffix
    · exact .key more cut isSuffix
  · rintro (⟨more, cut, isSuffix⟩ | ⟨more, cut, isSuffix⟩)
    · exact .inl ⟨more, _, cut, isSuffix⟩
    · refine .inr ⟨?_, more, _, cut, isSuffix⟩
      rw [Option.eq_none_iff_forall_not_mem]
      intro other isCut
      obtain ⟨_, ending, cutToo, isId⟩ := beforeSuffixIgnoringCase?_eq_some_iff.mp isCut
      have endsWithD := lastLetter?_of_suffix cutToo isId (by decide)
      have endsWithY := lastLetter?_of_suffix cut isSuffix (by decide)
      exact absurd (endsWithD.symm.trans endsWithY) (by decide)

/-- The dialect finds the suffixes that it has. -/
theorem foreignKeyPrefix?_eq_some_iff {dialect : Dialect} {name front : String} :
    dialect.foreignKeyPrefix? name = some front ↔ dialect.Suggests name front := by
  have bare_iff :
      (beforeSuffixIgnoringCase? name "_id").or (beforeSuffixIgnoringCase? name "_key") = none ↔
        ∀ other, ¬Underscored name other := by
    simp only [Option.eq_none_iff_forall_ne_some, ne_eq, or_eq_some_iff_underscored]
  cases dialect with
  | current =>
      simp only [foreignKeyPrefix?, or_eq_some_iff_underscored]
      constructor
      · exact .underscored
      · rintro (cut | legacy)
        · exact cut
        · contradiction
  | legacy =>
      simp only [foreignKeyPrefix?]
      rw [Option.or_eq_some_iff, or_eq_some_iff_underscored, bare_iff, Option.or_eq_some_iff,
        beforeSuffix?_eq_some_iff, beforeSuffix?_eq_some_iff]
      constructor
      · rintro (cut | ⟨bare, ⟨more, cut⟩ | ⟨_, more, cut⟩⟩)
        · exact .underscored cut
        · exact .joined rfl bare more (.inl cut)
        · exact .joined rfl bare more (.inr cut)
      · rintro (cut | ⟨_, bare, more, cut | cut⟩)
        · exact .inl cut
        · exact .inr ⟨bare, .inl ⟨more, cut⟩⟩
        · refine .inr ⟨bare, .inr ⟨?_, more, cut⟩⟩
          rw [Option.eq_none_iff_forall_not_mem]
          intro other isCut
          have endsWithD := lastLetter?_of_suffix (beforeSuffix?_eq_some_iff.mp isCut).2
            (equalIgnoringCase_self _) (by decide)
          have endsWithY := lastLetter?_of_suffix cut (equalIgnoringCase_self _) (by decide)
          exact absurd (endsWithD.symm.trans endsWithY) (by decide)

/-- A suffix with `_` goes before one without. -/
example : Dialect.legacy.foreignKeyPrefix? "Owner_Id" = some "Owner" := by decide

end Dialect

namespace Document

/-- The model that a name leads to: the one that is called so, or else the first one in the order
of declaration whose name differs in nothing but case. -/
inductive NamesModel (document : Document) (name : String) (target : Model) : Prop where
  | exact (isModel : target ∈ document.modelsOfKind .model) (same : target.name = name) :
      document.NamesModel name target
  | inAnyCase {earlier later : List Model}
      (missing : ∀ other ∈ document.modelsOfKind .model, other.name ≠ name)
      (models : document.modelsOfKind .model = earlier ++ target :: later)
      (alike : equalIgnoringCase target.name name = true)
      (isFirst : ∀ other ∈ earlier, equalIgnoringCase other.name name = false) :
      document.NamesModel name target

/-- A field that is a foreign key to a model by its name alone. -/
structure RefersByName (document : Document) (field : Field) (target : Model) : Prop where
  visible : field.name.toList.head? ≠ some '_'
  /-- No attribute, in square brackets or behind an `@`, marks the field as a foreign key. -/
  unmarked : ∀ call ∈ field.frameworkAttributes ++ field.semanticAttributes,
    ∀ mark ∈ ["fk", "foreignkey", "reference", "ref"], equalIgnoringCase call.name mark = false
  named : ∃ front, document.dialect.Suggests field.name front ∧ document.NamesModel front target

/-- A field is a foreign key to the model that it refers to by its name, or else the same as
before. -/
structure FieldInferred (document : Document) (field inferred : Field) : Prop where
  refers : ∀ target, document.RefersByName field target →
    inferred = { field with
      flags := field.flags.add .foreignKey
      referenceTarget := some target.name }
  stays : (∀ target, ¬document.RefersByName field target) → inferred = field

/-- An entity with the foreign keys among its fields, and nothing else of it changed. -/
inductive EntityInferred (document : Document) : Entity → Entity → Prop where
  | model {contents : Model} {fields : List Field}
      (each : List.Forall₂ document.FieldInferred contents.fields fields) :
      document.EntityInferred (.model contents) (.model { contents with fields })
  | enumeration {contents : Enumeration} :
      document.EntityInferred (.enumeration contents) (.enumeration contents)

/-- A document with its foreign keys, and nothing else of it changed. -/
structure Inferred (document inferred : Document) : Prop where
  dialect : inferred.dialect = document.dialect
  namespaceName : inferred.namespaceName = document.namespaceName
  entities : List.Forall₂ document.EntityInferred document.entities inferred.entities

/-- What reading returns without and with foreign keys: both fail alike, or both succeed with the
same warnings. -/
inductive ReadInferred :
    Except SchemaError (Document × List Diagnostic) →
      Except SchemaError (Document × List Diagnostic) → Prop where
  | read {document inferred : Document} {warnings : List Diagnostic}
      (infers : document.Inferred inferred) :
      ReadInferred (.ok (document, warnings)) (.ok (inferred, warnings))
  | refused {error : SchemaError} : ReadInferred (.error error) (.error error)

/-- A name leads to the model that the lookup finds. -/
theorem findNamed?_eq_some_iff_namesModel {document : Document} {name : String} {target : Model} :
    findNamed? Model.name (document.modelsOfKind .model) name = some target ↔
      document.NamesModel name target := by
  have distinct : ((document.modelsOfKind .model).map Model.name).Nodup :=
    document.nodup_names_models.sublist (List.filter_sublist.map _)
  rw [findNamed?, Option.or_eq_some_iff, find?_named_eq_some_iff distinct,
    List.find?_eq_some_iff_append]
  simp only [List.find?_eq_none, beq_iff_eq]
  constructor
  · rintro (⟨isModel, same⟩ | ⟨missing, alike, earlier, later, models, isFirst⟩)
    · exact .exact isModel same
    · exact .inAnyCase missing models alike (by simpa using isFirst)
  · rintro (⟨isModel, same⟩ | ⟨missing, models, alike, isFirst⟩)
    · exact .inl ⟨isModel, same⟩
    · exact .inr ⟨missing, alike, _, _, models, by simpa using isFirst⟩

/-- Attributes mark a field as a foreign key if one of them carries one of the names. -/
theorem hasExplicitForeignKey_eq_false_iff {field : Field} :
    field.hasExplicitForeignKey = false ↔
      ∀ call ∈ field.frameworkAttributes ++ field.semanticAttributes,
        ∀ mark ∈ ["fk", "foreignkey", "reference", "ref"],
          equalIgnoringCase call.name mark = false := by
  simp only [Field.hasExplicitForeignKey, List.any_eq_false, Field.hasAttribute, Field.attributes,
    Attribute.isNamed, foreignKeyNames, Bool.not_eq_true]
  exact ⟨fun none call listed mark isMark => none mark isMark call listed,
    fun none mark isMark call listed => none call listed mark isMark⟩

/-- The target that is inferred is the model that the field refers to by its name. -/
theorem inferredTarget?_eq_some_iff {document : Document} {field : Field} {name : String} :
    document.inferredTarget? field = some name ↔
      ∃ target, document.RefersByName field target ∧ target.name = name := by
  rw [inferredTarget?]
  split
  · next excluded =>
      simp only [reduceCtorEq, false_iff]
      rintro ⟨target, ⟨visible, unmarked, _⟩, _⟩
      rw [← hasExplicitForeignKey_eq_false_iff] at unmarked
      simp [unmarked, visible] at excluded
  · next considered =>
      simp only [Bool.or_eq_true, beq_iff_eq, not_or, Bool.not_eq_true] at considered
      obtain ⟨visible, unmarked⟩ := considered
      rw [hasExplicitForeignKey_eq_false_iff] at unmarked
      simp only [Option.bind_eq_some_iff, Option.map_eq_some_iff,
        Dialect.foreignKeyPrefix?_eq_some_iff, findNamed?_eq_some_iff_namesModel]
      constructor
      · rintro ⟨front, suggested, target, names, rfl⟩
        exact ⟨target, ⟨visible, unmarked, front, suggested, names⟩, rfl⟩
      · rintro ⟨target, ⟨_, _, front, suggested, names⟩, rfl⟩
        exact ⟨front, suggested, target, names, rfl⟩

/-- Inference takes those fields for foreign keys that refer to a model by their names. -/
theorem fieldInferred_inferForeignKey (document : Document) (field : Field) :
    document.FieldInferred field (document.inferForeignKey field) := by
  constructor
  · intro target refers
    have isTarget : document.inferredTarget? field = some target.name :=
      inferredTarget?_eq_some_iff.mpr ⟨target, refers, rfl⟩
    rw [inferForeignKey, isTarget]
  · intro alone
    have isNone : document.inferredTarget? field = none := by
      rw [Option.eq_none_iff_forall_not_mem]
      intro name isTarget
      obtain ⟨target, refers, _⟩ := inferredTarget?_eq_some_iff.mp isTarget
      exact alone target refers
    rw [inferForeignKey, isNone]

/-- Inference changes the fields of models and interfaces, and nothing else. -/
theorem inferred_inferForeignKeys (document : Document) :
    document.Inferred document.inferForeignKeys where
  dialect := rfl
  namespaceName := rfl
  entities := by
    rw [inferForeignKeys, mapModels, List.forall₂_map_right_iff, List.forall₂_same]
    intro entity _
    cases entity with
    | enumeration contents => exact .enumeration
    | model contents =>
        refine .model ?_
        rw [List.forall₂_map_right_iff, List.forall₂_same]
        exact fun field _ => document.fieldInferred_inferForeignKey field

/-- Reading with foreign keys succeeds where it does without them. It returns the same warnings,
and the same document but for the fields that refer to a model by their names: these are
foreign keys to that model. -/
theorem read_infersForeignKeys (dialect : DialectChoice) (source : Text) :
    ReadInferred (read { dialect, infersForeignKeys := false } source)
      (read { dialect, infersForeignKeys := true } source) := by
  simp only [read_eq, ofSpokenLines]
  generalize ofLines _ _ = outcome
  cases outcome with
  | error error => exact .refused
  | ok outcome => exact .read (inferred_inferForeignKeys outcome.1)

end Document

end SchemaMarkup
