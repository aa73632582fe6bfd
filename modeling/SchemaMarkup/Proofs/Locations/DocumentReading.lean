import SchemaMarkup.Proofs.Entities
import SchemaMarkup.Proofs.Locations.BlockReading
import SchemaMarkup.Proofs.Lookup

/-!
# Documents in other places

`Document.ofSpokenLines_relocate` is the law that the whole of reading comes to: moving the lines
that say something and then reading them is reading them and then moving the outcome. It has
two uses. Moving every line to one place shows that a document depends on no places, and
moving everything but some lines shows that it names no other places than theirs.
-/

namespace SchemaMarkup

variable {move : Location → Location}

/-! ## Blocks -/

theorem readEntriesUnder_relocate (parent : Option Nat) (lines : List Line) :
    readEntriesUnder parent (lines.map (Line.relocate move)) =
      Prod.map (List.map (Line.relocate move)) (List.map (Entry.relocate move))
        (readEntriesUnder parent lines) := by
  induction lines generalizing parent with
  | nil => rfl
  | cons line later inductionHypothesis =>
      have nests : (line.relocate move).isNestedUnder = line.isNestedUnder := rfl
      simp only [List.map_cons, readEntriesUnder, nests, Line.depth?_relocate,
        inductionHypothesis, Line.kind_relocate, Line.opensSection_relocate]
      split
      · rfl
      · cases line.kind with
        | heading level =>
            simp only
            split <;> rfl
        | ignorable | item | quote | prose => rfl

namespace Block

theorem entries_relocate (block : Block) :
    (block.relocate move).entries = block.entries.map (Entry.relocate move) := by
  rw [entries, entries, relocate, readEntriesUnder_relocate]
  rfl

end Block

theorem splitBlocks_relocate (dialect : Dialect) (lines : List Line) :
    splitBlocks dialect (lines.map (Line.relocate move)) =
      Prod.map (List.map (Line.relocate move)) (List.map (Block.relocate move))
        (splitBlocks dialect lines) := by
  induction lines with
  | nil => rfl
  | cons line later inductionHypothesis =>
      have opens : dialect.opensBlock (line.relocate move) = dialect.opensBlock line := rfl
      simp only [List.map_cons, splitBlocks, inductionHypothesis, opens]
      split <;> rfl

theorem namespaceName?_relocate (dialect : Dialect) (preamble : List Line) :
    dialect.namespaceName? (preamble.map (Line.relocate move)) =
      dialect.namespaceName? preamble := by
  rw [Dialect.namespaceName?, Dialect.namespaceName?, List.find?_map, Option.map_map]
  rfl

namespace Declaration

theorem location_relocate (declaration : Declaration) :
    (declaration.relocate move).location = move declaration.location :=
  Line.location_relocate move _

theorem readAllAfter_relocate (dialect : Dialect) (earlier : List Declaration)
    (blocks : List Block) :
    readAllAfter dialect (earlier.map (Declaration.relocate move))
        (blocks.map (Block.relocate move)) =
      relocateOutcome move (List.map (Declaration.relocate move))
        (readAllAfter dialect earlier blocks) := by
  induction blocks generalizing earlier with
  | nil => rfl
  | cons block later inductionHypothesis =>
      have location : (block.relocate move).heading.location = move block.heading.location :=
        Line.location_relocate move _
      simp only [List.map_cons, readAllAfter, location]
      refine bind_relocateOutcome (atLocation_move _ _) fun header => ?_
      rw [List.find?_map]
      have sameName : ((fun other : Declaration => other.header.name == (id header).name) ∘
          Declaration.relocate move) = fun other => other.header.name == header.name := rfl
      rw [sameName]
      cases earlier.find? fun other => other.header.name == header.name with
      | some first =>
          simp only [Option.map_some, location_relocate]
          rfl
      | none =>
          have reads := inductionHypothesis (earlier ++ [Declaration.mk header block])
          rw [List.map_append, List.map_singleton] at reads
          exact bind_relocateOutcome reads fun declarations => rfl

theorem readEntity_relocate (dialect : Dialect) (declaration : Declaration) :
    (declaration.relocate move).readEntity dialect =
      relocateOutcome move (Prod.map (Entity.relocate move) (List.map (Diagnostic.relocate move)))
        (declaration.readEntity dialect) := by
  have header : (declaration.relocate move).header = declaration.header := rfl
  have entries : (declaration.relocate move).block.entries =
      declaration.block.entries.map (Entry.relocate move) := Block.entries_relocate _
  simp only [readEntity, location_relocate, header, entries, Model.read_relocate,
    Enumeration.read_relocate]
  cases declaration.header.kind with
  | model | interface => exact bind_relocateOutcome rfl fun _ => rfl
  | enumeration => exact bind_relocateOutcome rfl fun _ => rfl

end Declaration

namespace Document

theorem insert_relocate (document : Document) (entity : Entity) :
    (document.relocate move).insert (entity.relocate move) =
      (document.insert entity).relocate move := by
  have names : (document.relocate move).entities.map Entity.name =
      document.entities.map Entity.name := Entity.map_name_relocate ..
  by_cases taken : entity.name ∈ document.entities.map Entity.name
  · have takenThere : (entity.relocate move).name ∈
        (document.relocate move).entities.map Entity.name := by
      rwa [names, Entity.name_relocate]
    rw [insert, dif_pos takenThere, insert, dif_pos taken]
    refine ext_entities rfl rfl ?_
    simp only [relocate, List.map_map, Function.comp_def, Entity.name_relocate,
      apply_ite (Entity.relocate move)]
  · have freeThere : (entity.relocate move).name ∉
        (document.relocate move).entities.map Entity.name := by
      rwa [names, Entity.name_relocate]
    rw [insert, dif_neg freeThere, insert, dif_neg taken]
    refine ext_entities rfl rfl ?_
    simp [relocate]

theorem insertAll_relocate (document : Document) (entities : List (Entity × List Diagnostic)) :
    (entities.map (Prod.map (Entity.relocate move) (List.map (Diagnostic.relocate move)))).foldl
        (fun document entity => document.insert entity.1) (document.relocate move) =
      (entities.foldl (fun document entity => document.insert entity.1) document).relocate
        move := by
  induction entities generalizing document with
  | nil => rfl
  | cons entity later inductionHypothesis =>
      rw [List.map_cons, List.foldl_cons, List.foldl_cons, Prod.map_fst, insert_relocate,
        inductionHypothesis]

theorem ofLines_relocate (dialect : Dialect) (lines : List Line) :
    ofLines dialect (lines.map (Line.relocate move)) =
      relocateOutcome move
        (Prod.map (Document.relocate move) (List.map (Diagnostic.relocate move)))
        (ofLines dialect lines) := by
  simp only [ofLines, splitBlocks_relocate, Prod.map_fst, Prod.map_snd]
  refine bind_relocateOutcome (Declaration.readAllAfter_relocate dialect [] _)
    fun declarations => ?_
  refine bind_relocateOutcome
    (mapM_relocateOutcome (Declaration.readEntity_relocate dialect) declarations)
    fun entities => ?_
  let start := empty dialect (dialect.namespaceName? (splitBlocks dialect lines).1)
  have inserts : (entities.map _).foldl _ (start.relocate move) = _ :=
    insertAll_relocate start entities
  rw [relocateOutcome_pure, Prod.map_apply, ← inserts, namespaceName?_relocate]
  simp only [List.flatMap_map, List.map_flatMap, Prod.map_snd]
  rfl

theorem models_relocate (document : Document) :
    (document.relocate move).models = document.models.map (Model.relocate move) := by
  rw [models, models, relocate, List.filterMap_map, List.map_filterMap]
  congr 1
  funext entity
  cases entity <;> rfl

theorem inferredTarget?_relocate (document : Document) (field : Field) :
    (document.relocate move).inferredTarget? (field.relocate move) =
      document.inferredTarget? field := by
  have candidates : (document.relocate move).modelsOfKind .model =
      (document.modelsOfKind .model).map (Model.relocate move) := by
    rw [modelsOfKind, modelsOfKind, models_relocate, List.filter_map]
    rfl
  simp only [inferredTarget?, candidates, findNamed?_map, Option.map_map]
  rfl

theorem inferForeignKey_relocate (document : Document) (field : Field) :
    (document.relocate move).inferForeignKey (field.relocate move) =
      (document.inferForeignKey field).relocate move := by
  rw [inferForeignKey, inferForeignKey, inferredTarget?_relocate]
  split <;> rfl

theorem inferForeignKeys_relocate (document : Document) :
    (document.relocate move).inferForeignKeys = document.inferForeignKeys.relocate move := by
  refine ext_entities rfl rfl ?_
  simp only [inferForeignKeys, mapModels, relocate, List.map_map]
  refine List.map_congr_left fun entity _ => ?_
  cases entity with
  | enumeration contents => rfl
  | model contents =>
    have fields : (contents.fields.map (Field.relocate move)).map
          (document.relocate move).inferForeignKey =
        (contents.fields.map document.inferForeignKey).map (Field.relocate move) := by
      rw [List.map_map, List.map_map]
      exact List.map_congr_left fun field _ => document.inferForeignKey_relocate field
    exact congrArg (fun fields => Entity.model { contents.relocate move with fields }) fields

/-! ## Sources -/

theorem dialectFor_relocate (choice : DialectChoice) (lines : List Line) :
    choice.dialectFor (lines.map (Line.relocate move)) = choice.dialectFor lines := by
  cases choice with
  | fixed dialect => rfl
  | auto =>
      simp only [DialectChoice.dialectFor, Dialect.detect, List.any_map]
      rfl

/-- Moved lines are read like the lines themselves, and what is read is moved with them. -/
theorem ofSpokenLines_relocate (options : ReadingOptions) (lines : List Line) :
    ofSpokenLines options (lines.map (Line.relocate move)) =
      relocateOutcome move
        (Prod.map (Document.relocate move) (List.map (Diagnostic.relocate move)))
        (ofSpokenLines options lines) := by
  simp only [ofSpokenLines, dialectFor_relocate]
  refine bind_relocateOutcome (ofLines_relocate ..) fun outcome => ?_
  rw [apply_ite (relocateOutcome move _)]
  refine if_congr Iff.rfl ?_ rfl
  rw [Prod.map_fst, Prod.map_snd, inferForeignKeys_relocate]
  rfl

end Document

end SchemaMarkup
