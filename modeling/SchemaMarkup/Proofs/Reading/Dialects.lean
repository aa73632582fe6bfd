import SchemaMarkup.Proofs.Lookup
import SchemaMarkup.Proofs.Reading.ModelReadings
import SchemaMarkup.Proofs.Reading.SourceBlocks
import SchemaMarkup.Proofs.Text.Fronts

/-!
# The two dialects

Dialects differ in which headings open a block or name the document, in how a heading tells the
kind of its entity, in what interfaces may declare, in the names that indexes are given, and in
the names of fields that are taken for foreign keys. `Line.isDialectal` are the headings of the
first two kinds. In a source without them every entity is a model, so what is left are the names
of indexes, and the foreign keys, of which the legacy dialect finds no fewer:
`Document.read_dialects`.
-/

namespace SchemaMarkup

/-! ## Headings -/

/-- Whether the line is a heading that the dialects read differently: one of the first level, or
one of the second level with a kind mark or the name of an interface. -/
def Line.isDialectal (line : Line) : Bool :=
  match line.kind with
  | .heading level =>
      level == 1 || level == 2 &&
        (line.content.containsWord "::" || isInterfaceName (String.ofList line.content))
  | _ => false

/-- The content of a line stands between blanks. -/
theorem content_classify (surrounding : Surrounding) (raw : Text) :
    ∃ text : Text, (surrounding.classify raw).2 = text.trim := by
  have ofHeading : (raw.heading?.getD (.prose, raw.trim)).2 = raw.trim ∨
      (raw.heading?.getD (.prose, raw.trim)).2 = Text.trim (raw.dropWhile (· == '#')) := by
    simp only [Text.heading?]
    split
    · exact .inr rfl
    · exact .inl rfl
  have ofItem : (raw.item?.getD (.prose, raw.trim)).2 = raw.trim ∨
      (raw.item?.getD (.prose, raw.trim)).2 =
        Text.trim (List.dropWhile (· == '-') raw.trimStart) := by
    simp only [Text.item?]
    split
    · exact .inr rfl
    · exact .inl rfl
  rw [Surrounding.classify]
  split
  · exact ⟨_, rfl⟩
  · simp only [Text.classify]
    split
    · exact ⟨_, rfl⟩
    · split
      · exact ofHeading.elim (fun same => ⟨_, same⟩) fun same => ⟨_, same⟩
      · split
        · exact ofItem.elim (fun same => ⟨_, same⟩) fun same => ⟨_, same⟩
        · split <;> exact ⟨_, rfl⟩

/-- No line of a source has a content that starts with a blank. -/
theorem isBlank_head_content {source : Text} {line : Line} (listed : line ∈ readLines source) :
    ∀ first, line.content.head? = some first → isBlank first = false := by
  have ofLines : ∀ surrounding number offset segments,
      ∀ line ∈ readLinesFrom surrounding number offset segments,
        ∃ text : Text, line.content = text.trim := by
    intro surrounding number offset segments
    induction segments generalizing surrounding number offset with
    | nil => exact fun line listed => absurd listed List.not_mem_nil
    | cons segment later inductionHypothesis =>
        rw [readLinesFrom, List.forall_mem_cons]
        exact ⟨content_classify surrounding segment.dropReturn, inductionHypothesis _ _ _⟩
  obtain ⟨text, content⟩ := ofLines _ _ _ _ line listed
  rw [content]
  exact fun first => Text.isBlank_head_trim

/-- A text that starts with the name of an interface starts like one. -/
theorem isInterfaceName_of_isPrefix {name : String} {text : Text} (starts : name.toList <+: text)
    (isInterface : isInterfaceName name = true) :
    isInterfaceName (String.ofList text) = true := by
  obtain ⟨rest, rfl⟩ := starts
  rw [isInterfaceName] at isInterface
  split at isInterface
  · next second later spelled =>
      rw [isInterfaceName, String.toList_ofList, spelled]
      exact isInterface
  · contradiction

/-- Without a kind mark, a heading that does not start like an interface is one of a model in both
dialects. -/
theorem Dialect.entityKind_of_isPrefix (dialect : Dialect) {name : String} {text : Text}
    (named : isInterfaceName (String.ofList text) = false) (isFront : name.toList <+: text) :
    dialect.entityKind name none = .ok .model := by
  cases dialect with
  | current => rfl
  | legacy =>
      have noInterface : isInterfaceName name = false := by
        rw [← Bool.not_eq_true]
        intro isInterface
        exact absurd (isInterfaceName_of_isPrefix isFront isInterface) (by simp [named])
      simp [entityKind, noInterface]

/-- A heading without a kind mark and without the name of an interface is read alike in both
dialects, and declares a model. -/
theorem Header.sameOutcome_read {text : Text} (unmarked : text.containsWord "::" = false)
    (named : isInterfaceName (String.ofList text) = false)
    (starts : ∀ first, text.head? = some first → isBlank first = false) :
    SameOutcome (fun header twin => header = twin ∧ header.kind = .model)
      (Header.read .current text) (Header.read .legacy text) := by
  simp only [Header.read]
  refine .bind_left _ fun marked isMarked => ?_
  rw [splitKindMark_of_unmarked unmarked, Except.ok.injEq] at isMarked
  subst isMarked
  refine .bind_left _ fun _ _ => .bind_left _ fun attributes _ => .bind_left _ fun _ _ => ?_
  -- What is left once everything behind the name is cut off is the front of the heading.
  have isFront := (Text.isPrefix_takeTrailingQuoted _).trans
    ((Text.isPrefix_splitDescription _).trans (isPrefix_splitAttributes text))
  split
  · exact .error _
  · next name label isSplit =>
      have nameFront : name.toList <+: text := by
        split at isSplit
        · next cut found =>
            exact Text.isPrefix_name_of_splitNameLabel? starts
              ((Text.isPrefix_before_of_cutWhere found).trans isFront) isSplit
        · exact Text.isPrefix_name_of_splitNameLabel? starts isFront isSplit
      refine .bind_left _ fun parents _ => ?_
      rw [Dialect.entityKind_of_isPrefix .current named nameFront,
        Dialect.entityKind_of_isPrefix .legacy named nameFront]
      exact .ok ⟨rfl, rfl⟩

/-! ## Blocks -/

variable {lines : List Line}

/-- Where no heading tells the dialects apart, they have the same blocks. -/
theorem splitBlocks_legacy (shared : ∀ line ∈ lines, line.isDialectal = false) :
    splitBlocks .legacy lines = splitBlocks .current lines := by
  induction lines with
  | nil => rfl
  | cons line later inductionHypothesis =>
      obtain ⟨here, sharedLater⟩ := List.forall_mem_cons.mp shared
      have opens : Dialect.legacy.opensBlock line = Dialect.current.opensBlock line := by
        cases isKind : line.kind <;>
          simp_all [Dialect.opensBlock, Line.isDialectal]
      rw [splitBlocks, splitBlocks, inductionHypothesis sharedLater, opens]

/-- Where no heading tells the dialects apart, none of them names the document. -/
theorem namespaceName?_of_shared (dialect : Dialect)
    (shared : ∀ line ∈ lines, line.isDialectal = false) : dialect.namespaceName? lines = none := by
  have noTitle : ∀ line ∈ lines, dialect.isTitle line = false := by
    intro line listed
    have here := shared line listed
    cases dialect <;> cases isKind : line.kind <;>
      simp_all [Dialect.isTitle, Line.isDialectal]
  rw [Dialect.namespaceName?, List.find?_eq_none.mpr (by simpa using noTitle)]
  rfl

namespace Declaration

/-- The headings of blocks are read alike in both dialects, and declare models. -/
theorem readAllAfter_dialects {blocks : List Block}
    (opens : ∀ block ∈ blocks, Dialect.current.opensBlock block.heading = true)
    (shared : ∀ block ∈ blocks, block.heading.isDialectal = false)
    (starts : ∀ block ∈ blocks, ∀ first, block.heading.content.head? = some first →
      isBlank first = false) (earlier : List Declaration) :
    SameOutcome
      (fun declarations twins => declarations = twins ∧
        ∀ declaration ∈ declarations, declaration.header.kind = .model)
      (readAllAfter .current earlier blocks) (readAllAfter .legacy earlier blocks) := by
  induction blocks generalizing earlier with
  | nil => exact .ok ⟨rfl, fun _ listed => absurd listed List.not_mem_nil⟩
  | cons block later inductionHypothesis =>
      obtain ⟨opensHere, opensLater⟩ := List.forall_mem_cons.mp opens
      obtain ⟨sharedHere, sharedLater⟩ := List.forall_mem_cons.mp shared
      obtain ⟨startsHere, startsLater⟩ := List.forall_mem_cons.mp starts
      have plain : block.heading.content.containsWord "::" = false ∧
          isInterfaceName (String.ofList block.heading.content) = false := by
        cases isKind : block.heading.kind <;>
          simp_all [Dialect.opensBlock, Line.isDialectal]
      simp only [readAllAfter]
      refine ((Header.sameOutcome_read plain.1 plain.2 startsHere).mapError _).bind ?_
      rintro header _ ⟨rfl, isModel⟩
      split
      · exact .error _
      · refine (inductionHypothesis opensLater sharedLater startsLater _).bind ?_
        rintro declarations _ ⟨rfl, areModels⟩
        exact .ok ⟨rfl, List.forall_mem_cons.mpr ⟨isModel, areModels⟩⟩

end Declaration

/-! ## Documents -/

/-- Two readings of one entity. -/
inductive Entity.SameReading : Entity → Entity → Prop where
  | model {contents twin : Model} (same : contents.SameReading twin) :
      SameReading (.model contents) (.model twin)

theorem Entity.SameReading.name {entity twin : Entity} (same : entity.SameReading twin) :
    twin.name = entity.name := by
  obtain ⟨kept, _, _⟩ := same
  rw [Entity.name, kept]
  rfl

theorem Entity.map_name_of_sameReading {entities twins : List Entity}
    (same : List.Forall₂ Entity.SameReading entities twins) :
    twins.map Entity.name = entities.map Entity.name := by
  induction same with
  | nil => rfl
  | cons here _ inductionHypothesis =>
      rw [List.map_cons, List.map_cons, here.name, inductionHypothesis]

theorem Declaration.readEntity_dialects {declaration : Declaration}
    (isModel : declaration.header.kind = .model) :
    SameOutcome (fun outcome twin => outcome.1.SameReading twin.1 ∧ outcome.2 = twin.2)
      (declaration.readEntity .current) (declaration.readEntity .legacy) := by
  simp only [readEntity, isModel]
  refine (Model.sameReading_read _ _ _).bind ?_
  rintro ⟨contents, warnings⟩ ⟨twin, _⟩ ⟨same, rfl⟩
  exact .ok ⟨.model same, rfl⟩

namespace Document

/-- Two readings of one document, in the current dialect and in the legacy one. -/
structure SameReading (document twin : Document) : Prop where
  current : document.dialect = .current
  legacy : twin.dialect = .legacy
  namespaceName : document.namespaceName = twin.namespaceName
  entities : List.Forall₂ Entity.SameReading document.entities twin.entities

variable {document twin : Document}

theorem SameReading.names (same : document.SameReading twin) :
    twin.entities.map Entity.name = document.entities.map Entity.name :=
  Entity.map_name_of_sameReading same.entities

theorem SameReading.insert (same : document.SameReading twin) {entity other : Entity}
    (sameEntity : entity.SameReading other) :
    (document.insert entity).SameReading (twin.insert other) := by
  refine ⟨?_, ?_, ?_, ?_⟩
  · rw [dialect_insert, same.current]
  · rw [dialect_insert, same.legacy]
  · rw [namespaceName_insert, namespaceName_insert, same.namespaceName]
  · by_cases taken : entity.name ∈ document.entities.map Entity.name
    · have takenThere : other.name ∈ twin.entities.map Entity.name := by
        rwa [same.names, sameEntity.name]
      rw [Document.insert, dif_pos taken, Document.insert, dif_pos takenThere]
      rw [List.forall₂_map_left_iff, List.forall₂_map_right_iff]
      refine same.entities.imp fun before after sameBefore => ?_
      rw [sameBefore.name, sameEntity.name]
      split
      · exact sameEntity
      · exact sameBefore
    · have freeThere : other.name ∉ twin.entities.map Entity.name := by
        rwa [same.names, sameEntity.name]
      rw [Document.insert, dif_neg taken, Document.insert, dif_neg freeThere]
      exact List.rel_append same.entities (.cons sameEntity .nil)

theorem SameReading.insertAll (same : document.SameReading twin)
    {outcomes twins : List (Entity × List Diagnostic)}
    (sameOutcomes : List.Forall₂ (fun outcome twin => outcome.1.SameReading twin.1 ∧
      outcome.2 = twin.2) outcomes twins) :
    (outcomes.foldl (fun document outcome => document.insert outcome.1) document).SameReading
        (twins.foldl (fun document outcome => document.insert outcome.1) twin) ∧
      outcomes.flatMap Prod.snd = twins.flatMap Prod.snd := by
  induction sameOutcomes generalizing document twin with
  | nil => exact ⟨same, rfl⟩
  | cons here _ inductionHypothesis =>
      obtain ⟨inserted, warnings⟩ := inductionHypothesis (same.insert here.1)
      refine ⟨inserted, ?_⟩
      rw [List.flatMap_cons, List.flatMap_cons, here.2, warnings]

/-- Lines without a heading that tells the dialects apart are read alike in both. -/
theorem ofLines_dialects (shared : ∀ line ∈ lines, line.isDialectal = false)
    (starts : ∀ line ∈ lines, ∀ first, line.content.head? = some first → isBlank first = false) :
    SameOutcome (fun outcome twin => outcome.1.SameReading twin.1 ∧ outcome.2 = twin.2)
      (ofLines .current lines) (ofLines .legacy lines) := by
  have divided := isDivided_splitBlocks .current lines
  have isLine : ∀ block ∈ (splitBlocks .current lines).2, block.heading ∈ lines :=
    fun block listed => divided.lines_subset listed List.mem_cons_self
  have untitled : ∀ dialect : Dialect,
      dialect.namespaceName? (splitBlocks .current lines).1 = none := by
    intro dialect
    refine namespaceName?_of_shared dialect fun line listed => shared line ?_
    rw [divided.whole]
    exact List.mem_append_left _ listed
  simp only [ofLines, splitBlocks_legacy shared, untitled]
  refine (Declaration.readAllAfter_dialects divided.headings
    (fun block listed => shared _ (isLine block listed))
    (fun block listed => starts _ (isLine block listed)) []).bind ?_
  rintro declarations _ ⟨rfl, areModels⟩
  refine (SameOutcome.mapM fun declaration listed =>
    Declaration.readEntity_dialects (areModels declaration listed)).bind ?_
  intro outcomes twins same
  have start : SameReading { dialect := .current } { dialect := .legacy } := ⟨rfl, rfl, rfl, .nil⟩
  exact .ok (start.insertAll same)

/-! ## Foreign keys -/

/-- A model has one reading in each of the dialects. -/
theorem SameReading.exists_twin (same : document.SameReading twin) {model : Model}
    (listed : model ∈ document.models) : ∃ other ∈ twin.models, model.SameReading other := by
  rw [mem_models_iff] at listed
  obtain ⟨_, isTwin, ⟨sameModel⟩⟩ := exists_of_forall₂_of_mem same.entities.flip listed
  exact ⟨_, mem_models_iff.mpr isTwin, sameModel⟩

/-- The models of both readings are called the same. -/
theorem SameReading.names_modelsOfKind (same : document.SameReading twin) :
    (twin.modelsOfKind .model).map Model.name = (document.modelsOfKind .model).map Model.name := by
  obtain ⟨_, _, _, entities⟩ := same
  rw [modelsOfKind, modelsOfKind, models, models]
  generalize document.entities = before at entities ⊢
  generalize twin.entities = after at entities ⊢
  induction entities with
  | nil => rfl
  | cons here _ inductionHypothesis =>
      obtain ⟨sameModel⟩ := here
      have name := (Entity.SameReading.model sameModel).name
      simp only [List.filterMap_cons, Entity.model?, List.filter_cons, sameModel.isModel,
        sameModel.isModel_twin, beq_self_eq_true, if_true, List.map_cons, inductionHypothesis]
      exact congrArg (· :: _) name

/-- Whatever model a field refers to by its name in the current dialect, it refers to in the
legacy one. -/
theorem SameReading.inferredTarget? (same : document.SameReading twin) {field : Field}
    {target : String} (refers : document.inferredTarget? field = some target) :
    twin.inferredTarget? field = some target := by
  have byName : ∀ (models : List Model) (name : String),
      (findNamed? Model.name models name).map Model.name =
        findNamed? id (models.map Model.name) name :=
    fun models name => (findNamed?_map Model.name id models name).symm
  rw [Document.inferredTarget?] at refers ⊢
  split at refers
  · contradiction
  · next considered =>
      rw [if_neg considered]
      obtain ⟨front, isFront, found⟩ := Option.bind_eq_some_iff.mp refers
      rw [same.current, Dialect.foreignKeyPrefix?] at isFront
      rw [Option.bind_eq_some_iff]
      refine ⟨front, ?_, ?_⟩
      · rw [same.legacy, Dialect.foreignKeyPrefix?, isFront, Option.some_or]
      · rwa [byName, same.names_modelsOfKind, ← byName]

/-- Every foreign key of a document is one of another document as well: the model of the same name
has the same field with the same target. -/
def ForeignKeysAmong (document other : Document) : Prop :=
  ∀ model ∈ document.models, ∀ field ∈ model.fields, field.flags.foreignKey = true →
    ∃ twin ∈ other.models, twin.name = model.name ∧ field ∈ twin.fields

theorem SameReading.foreignKeysAmong (same : document.SameReading twin)
    (unflagged : ∀ model ∈ document.models, ∀ field ∈ model.fields, field.flags = {}) :
    document.inferForeignKeys.ForeignKeysAmong twin.inferForeignKeys := by
  intro model listed field isField marked
  rw [inferForeignKeys, models_mapModels] at listed
  obtain ⟨before, isBefore, rfl⟩ := List.mem_map.mp listed
  obtain ⟨declared, isDeclared, rfl⟩ := List.mem_map.mp isField
  obtain ⟨other, isOther, sameModel⟩ := same.exists_twin isBefore
  refine ⟨{ other with fields := other.fields.map twin.inferForeignKey }, ?_, ?_, ?_⟩
  · rw [inferForeignKeys, models_mapModels]
    exact List.mem_map_of_mem isOther
  · exact (Entity.SameReading.model sameModel).name
  · have sameFields : other.fields = before.fields := by rw [sameModel.kept]
    have sameField : document.inferForeignKey declared = twin.inferForeignKey declared := by
      cases refers : document.inferredTarget? declared with
      | none =>
          simp [inferForeignKey, refers, unflagged before isBefore declared isDeclared] at marked
      | some target => rw [inferForeignKey, inferForeignKey, refers, same.inferredTarget? refers]
    rw [sameField, sameFields]
    exact List.mem_map_of_mem isDeclared

/-! ## Sources -/

/-- The document without its dialect and without the names of its indexes. -/
def withoutDialect (document : Document) : Document :=
  { document.mapModels fun model => { model with indexes := model.indexes.map Index.unnamed } with
    dialect := .current }

theorem SameReading.withoutDialect (same : document.SameReading twin) :
    document.withoutDialect = twin.withoutDialect := by
  refine ext_entities rfl same.namespaceName ?_
  simp only [Document.withoutDialect, mapModels]
  rw [← List.forall₂_eq_eq_eq, List.forall₂_map_left_iff, List.forall₂_map_right_iff]
  refine same.entities.imp ?_
  rintro _ _ ⟨kept, indexes, _⟩
  rw [Entity.mapModel, Entity.mapModel, Index.map_unnamed_of_sameReading indexes, kept]

/-- Where no heading tells the dialects apart, a source is refused in both with the same error, or
read in both with the same warnings. Without foreign keys the documents differ in nothing but the
dialect and the names of indexes; with foreign keys, those of the current dialect are also in the
legacy one. -/
theorem read_dialects {source : Text}
    (shared : ∀ line ∈ readLines source, line.isDialectal = false) :
    SameOutcome (fun outcome twin => outcome.1.withoutDialect = twin.1.withoutDialect ∧
        outcome.2 = twin.2)
      (read { dialect := .fixed .current, infersForeignKeys := false } source)
      (read { dialect := .fixed .legacy, infersForeignKeys := false } source) ∧
    SameOutcome (fun outcome twin => outcome.1.ForeignKeysAmong twin.1 ∧ outcome.2 = twin.2)
      (read { dialect := .fixed .current, infersForeignKeys := true } source)
      (read { dialect := .fixed .legacy, infersForeignKeys := true } source) := by
  have declared := @ofLines_dialects ((readLines source).filter fun line => !line.isIgnorable)
    (fun line spoken => shared line (List.mem_filter.mp spoken).1)
    (fun line spoken => isBlank_head_content (List.mem_filter.mp spoken).1)
  simp only [read_eq, ofSpokenLines, spokenLines, DialectChoice.dialectFor]
  constructor
  · exact declared.bind fun _ _ same => .ok ⟨same.1.withoutDialect, same.2⟩
  · simp only [if_true]
    generalize isRead : ofLines .current _ = current at declared ⊢
    generalize ofLines .legacy _ = legacy at declared ⊢
    cases declared with
    | error error => exact .error error
    | ok same =>
        refine .ok ⟨same.1.foreignKeysAmong ?_, same.2⟩
        exact forall_models_of_ofLines (fun _ _ _ _ _ _ => Model.flags_of_read) isRead

/-- A model that refers to itself, by a name of both dialects and by one of the legacy dialect. Its
index is named by the dialect. -/
def petSource : Text :=
  "## Pet @index(Name)
- Name: text
- Pet_id: int
- PetId: int".toList

/-- The dialects name the index differently, and the second reference is a foreign key only in the
legacy one. -/
theorem petSource_dialects :
    let read := fun dialect infersForeignKeys =>
      read { dialect := .fixed dialect, infersForeignKeys } petSource
    let declared := fun (document : Document) => document.models.map fun model =>
      (model.indexes.map Index.name,
        (model.fields.filter fun field => field.flags.foreignKey).map Field.name)
    (read .current true).map (fun outcome => declared outcome.1) =
        .ok [(["Name"], ["Pet_id"])] ∧
      (read .legacy true).map (fun outcome => declared outcome.1) =
        .ok [(["IX_Name"], ["Pet_id", "PetId"])] ∧
      SameOutcome (fun outcome twin => outcome.1.withoutDialect = twin.1.withoutDialect ∧
        outcome.2 = twin.2) (read .current false) (read .legacy false) ∧
      SameOutcome (fun outcome twin => outcome.1.ForeignKeysAmong twin.1 ∧
        outcome.2 = twin.2) (read .current true) (read .legacy true) :=
  ⟨by decide +kernel, by decide +kernel, read_dialects (by decide +kernel)⟩

end Document

end SchemaMarkup
