import SchemaMarkup.Proofs.Locations.BlockReading
import SchemaMarkup.Proofs.Locations.LocatedConstraints
import SchemaMarkup.Proofs.Reading.CallLists
import SchemaMarkup.Proofs.Reading.FieldLines
import SchemaMarkup.Reading.Document

/-!
# Reading with located errors

Most errors of an item are raised at one of its lines. Two checks come when its lines are behind and
only what has been read is at hand: whether a field has a type, and whether an interface may declare
a constraint. These are located by the line that the field or the constraint remembers, which is the
line of the item (`addFieldAt_eq`, `addRelationAt_eq`, `addIndexAt_eq`, `readDirectivesAt_eq`).

So a source is read with the same errors at the same lines, whether each error is located where it
is raised or the faults of a line are located together (`Document.readAt_eq`).
-/

namespace SchemaMarkup

/-! ## Locations that are remembered -/

/-- Two runs agree if they agree behind every outcome of their first step. -/
theorem bind_congr_of_ok {Fault Value Result : Type} {first : Except Fault Value}
    {next other : Value → Except Fault Result}
    (same : ∀ value, first = .ok value → next value = other value) :
    first >>= next = first >>= other := by
  cases first with
  | error fault => rfl
  | ok value => exact same value rfl

/-- What stays the same when all its locations are replaced by one has that location. -/
theorem exists_of_map_eq_ok {Fault Value Result : Type} {read : Except Fault Value}
    {change : Value → Result} {outcome : Except Fault Result} {result : Result}
    (same : outcome = change <$> read) (isRead : outcome = .ok result) :
    ∃ value, change value = result := by
  cases read with
  | error fault => rw [same] at isRead; contradiction
  | ok value => exact ⟨value, Except.ok.inj (same.symm.trans isRead)⟩

theorem Relation.location_of_readLine {location : Location} {text : Text} {relation : Relation}
    (isRead : readLine location text = .ok (some relation)) : relation.location = location := by
  obtain ⟨declared, same⟩ := exists_of_map_eq_ok
    (@readLine_relocate (fun _ => location) location text) isRead
  obtain ⟨_, _, rfl⟩ := Option.map_eq_some_iff.mp same
  rfl

theorem Relation.location_of_refine {relation refined : Relation} {text : Text}
    (isRefined : relation.refine text = .ok refined) : refined.location = relation.location := by
  obtain ⟨_, rfl⟩ := exists_of_map_eq_ok
    (@refine_relocate (fun _ => relation.location) relation text) isRefined
  rfl

theorem Index.location_of_readLine {dialect : Dialect} {location : Location} {text : Text}
    {index : Index} (isRead : readLine dialect location text = .ok index) :
    index.location = location := by
  obtain ⟨_, rfl⟩ := exists_of_map_eq_ok
    (@readLine_relocate (fun _ => location) dialect location text) isRead
  rfl

theorem Index.location_of_refine {dialect : Dialect} {index refined : Index} {text : Text}
    (isRefined : index.refine dialect text = .ok refined) : refined.location = index.location := by
  obtain ⟨_, rfl⟩ := exists_of_map_eq_ok
    (@refine_relocate (fun _ => index.location) dialect index text) isRefined
  rfl

namespace Directive

/-- The line that the constraint of a directive remembers. -/
def location? : Directive → Option Location
  | .index declared => some declared.location
  | .relation declared => some declared.location
  | .other _ => none

theorem location?_of_ofAttribute {dialect : Dialect} {location : Location} {call : Attribute}
    {directive : Directive} (isRead : ofAttribute dialect location call = .ok directive) :
    directive.location? = if directive.isConstraint then some location else none := by
  obtain ⟨declared, rfl⟩ := exists_of_map_eq_ok
    (@ofAttribute_relocate (fun _ => location) dialect location call) isRead
  cases declared <;> rfl

end Directive

/-- What a check of balance in front of a run of calls refuses is refused by the grammar of calls
as well, and for the same fault. -/
theorem atLine_checkBalance_callRun {Result : Type} (location : Location) (text : Text)
    (next : List Attribute → Except SchemaError Result) :
    (atLine location text.checkBalance >>= fun _ => atLine location text.callRun >>= next) =
      atLine location text.callRun >>= next := by
  have checked : (atLine location text.checkBalance >>= fun _ => atLine location text.callRun) =
      atLine location text.callRun := by
    rw [atLine, atLine, ← mapError_bind, Text.checkBalance_bind_callRun]
  rw [← bind_assoc, checked]

/-! ## Enumerations -/

namespace EnumValue

/-- The value with one property set from a line. -/
def setPropertyAt (location : Location) (declared : EnumValue) (key value : Text) :
    Except SchemaError EnumValue :=
  let isKey := fun (name : String) => keysMatch key name.toList
  let text := value.unquote.nonBlank?
  if isKey "description" || isKey "desc" then .ok { declared with description := text }
  else if isKey "value" then .ok { declared with value := text }
  else if isKey "group" then .ok { declared with group := text }
  else if isKey "label" then .ok { declared with label := text }
  else .error (.structural (.unknownEnumValueProperty (String.ofList key)) location)

theorem setPropertyAt_eq (location : Location) (declared : EnumValue) (key value : Text) :
    setPropertyAt location declared key value =
      atLocation location (declared.setProperty key value) := by
  simp only [setPropertyAt, setProperty, atLocation_ite, atLocation_ok, atLocation_error]

/-- The value refined by a nested line, whose errors are located where they are raised. -/
def refineAt (declared : EnumValue) (line : Line) : Except SchemaError EnumValue :=
  match line.kind with
  | .quote _ =>
      .ok { declared with description := appendParagraph declared.description line.content }
  | _ =>
      match line.content.splitKeyValue? with
      | some (key, value) => declared.setPropertyAt line.location key value
      | none => .error (orphanError line)

theorem refineAt_eq : refineAt = refine := by
  funext declared line
  simp only [refineAt, setPropertyAt_eq]
  rfl

end EnumValue

namespace Enumeration

/-- The enumeration with the attributes of an attribute line, located where they are raised. -/
def addAttributesAt (enumeration : Enumeration) (line : Line) :
    Except SchemaError Enumeration := do
  atLine line.location line.content.checkBalance
  let attributes ← atLine line.location line.content.callRun
  return { enumeration with attributes := enumeration.attributes ++ attributes }

theorem addAttributesAt_eq : addAttributesAt = addAttributes := by
  funext enumeration line
  simp only [addAttributesAt, addAttributes, atLine_checkBalance_callRun, atLocation_bind,
    atLocation_pure, atLocation_asLineFault]

/-- The enumeration with one more value, located where its errors are raised. -/
def addValueAt (enumeration : Enumeration) (group : Option String) (line : Line)
    (nested : List Line) : Except SchemaError Enumeration := do
  let declared ← EnumValue.readAt line.location line.content
  let grouped := { declared with group := declared.group.or group }
  let value ← nested.foldlM EnumValue.refineAt grouped
  if enumeration.values.any fun other => other.name == value.name then
    throw (.duplicateField enumeration.name value.name line.location)
  return { enumeration with values := enumeration.values ++ [value] }

theorem addValueAt_eq : addValueAt = addValue := by
  funext enumeration group line nested
  simp only [addValueAt, addValue, EnumValue.readAt_eq, EnumValue.refineAt_eq]

/-- Reads one more entry, located where its errors are raised. -/
def Progress.addAt (progress : Progress) (entry : Entry) : Except SchemaError Progress :=
  match entry with
  | .sectionHeading line => .ok { progress with group := line.content.nonBlank? }
  | .quote line => do
      let enumeration ← progress.enumeration.addLoose line
      return { progress with enumeration }
  | .item depth line nested => do
      if 1 < depth then
        throw (orphanError line)
      if line.content.head? == some '@' then
        let attributed ← progress.enumeration.addAttributesAt line
        let enumeration ← nested.foldlM addLoose attributed
        return { progress with enumeration }
      else
        let enumeration ← progress.enumeration.addValueAt progress.group line nested
        return { progress with enumeration }

/-- Every entry of an enumeration is read with the same errors at the same lines. -/
theorem Progress.addAt_eq : addAt = add := by
  funext progress entry
  simp only [addAt, addAttributesAt_eq, addValueAt_eq]
  rfl

/-- Reads the enumeration of a block, located where its errors are raised. -/
def assembleAt (header : Header) (location : Location) (stop : Nat) (cursor : Cursor) :
    Except SchemaError Enumeration := do
  let start ← ofHeader header location
  let progress ← cursor.readBody ownsNested Progress.addAt stop { enumeration := start }
  return progress.enumeration

theorem assembleAt_eq : assembleAt = assemble := by
  funext header location stop cursor
  simp only [assembleAt, assemble, Progress.addAt_eq]

end Enumeration

/-! ## Models -/

namespace Field

/-- The field refined by a nested line, whose errors are located where they are raised. -/
def refineByLineAt (field : Field) (line : Line) : Except SchemaError Field :=
  match line.kind with
  | .quote _ =>
      .ok { field with description := appendParagraph field.description line.content }
  | _ => field.refineAt line.location line.content

theorem refineByLineAt_eq : refineByLineAt = refineByLine := by
  funext field line
  simp only [refineByLineAt, refineAt_eq]
  rfl

end Field

namespace Model

/-- Refuses a constraint of a line on an interface if the dialect allows none. -/
def checkConstraintAt (model : Model) (dialect : Dialect) (location : Location) :
    Except SchemaError Unit :=
  if model.isInterface && !dialect.interfacesCarryConstraints then
    .error (.structural (.constrainedInterface model.name dialect) location)
  else
    .ok ()

theorem checkConstraintAt_eq (model : Model) (dialect : Dialect) (location : Location) :
    model.checkConstraintAt dialect location =
      atLocation location (model.checkConstraint dialect) := by
  simp only [checkConstraintAt, checkConstraint, atLocation_ite, atLocation_ok, atLocation_error]

/-- Reads the directives of a line. A constraint that is not allowed is refused at the line that it
remembers. -/
def readDirectivesAt (model : Model) (dialect : Dialect) (location : Location)
    (calls : List Attribute) : Except SchemaError (List Directive) :=
  calls.mapM fun call => do
    let directive ← Directive.ofAttributeAt dialect location call
    directive.location?.forM (model.checkConstraintAt dialect)
    return directive

/-- The constraints of a line remember that line. -/
theorem readDirectivesAt_eq (model : Model) (dialect : Dialect) (location : Location)
    (calls : List Attribute) :
    model.readDirectivesAt dialect location calls =
      atLocation location (model.readDirectives dialect location calls) := by
  simp only [readDirectivesAt, readDirectives, atLocation_listMapM, atLocation_bind,
    Directive.ofAttributeAt_eq]
  congr 1
  funext call
  refine bind_congr_of_ok fun directive isRead => ?_
  rw [Directive.location?_of_ofAttribute (atLocation_eq_ok_iff.mp isRead)]
  cases directive.isConstraint with
  | false => rfl
  | true =>
      simp only [if_true, atLocation_bind, atLocation_pure, ← checkConstraintAt_eq]
      rfl

/-- The model with the field of an item. That the field has a type is checked at the line that it
remembers. -/
def addFieldAt (model : Model) (line : Line) (nested : List Line) : Except SchemaError Model := do
  let (declared, _) ← Field.readAt line.location line.content
  let field ← nested.foldlM Field.refineByLineAt { declared with declaredIn := model.name }
  field.checkTypedAt field.location
  if (model.field? field.name).isSome then
    throw (.duplicateField model.name field.name line.location)
  return { model with fields := model.fields ++ [field] }

/-- The field of an item remembers the line of the item. -/
theorem addFieldAt_eq : addFieldAt = addField := by
  funext model line nested
  simp only [addFieldAt, addField, Field.readAt_eq, Field.refineByLineAt_eq, Field.checkTypedAt_eq]
  refine bind_congr_of_ok fun declared isRead => bind_congr_of_ok fun field isRefined => ?_
  obtain ⟨refines, _⟩ := Field.refines_item (atLocation_eq_ok_iff.mp isRead) isRefined
  rw [refines.kept]
  rfl

/-- The model with the relation of an item. That it may be declared is checked at the line that it
remembers. -/
def addRelationAt (model : Model) (dialect : Dialect) (line : Line) (nested : List Line) :
    Except SchemaError Model := do
  let some declared ← Relation.readLineAt line.location line.content
    | throw (.structural (.notARelation (String.ofList line.content)) line.location)
  let relation ← nested.foldlM
    (fun relation line => relation.refineAt line.location line.content) declared
  model.checkConstraintAt dialect relation.location
  return { model with relations := model.relations ++ [relation] }

/-- The relation of an item remembers the line of the item. -/
theorem addRelationAt_eq : addRelationAt = addRelation := by
  funext model dialect line nested
  simp only [addRelationAt, addRelation, Relation.readLineAt_eq, Relation.refineAt_eq,
    checkConstraintAt_eq]
  refine bind_congr_of_ok fun read isRead => ?_
  cases read with
  | none => rfl
  | some declared =>
      refine bind_congr_of_ok fun relation isRefined => ?_
      have remembered := foldlM_keeps (fun relation : Relation => relation.location = line.location)
        (fun _ _ _ step kept =>
          (Relation.location_of_refine (atLocation_eq_ok_iff.mp step)).trans kept)
        isRefined (Relation.location_of_readLine (atLocation_eq_ok_iff.mp isRead))
      rw [remembered]

/-- The model with the index of an item. That it may be declared is checked at the line that it
remembers. -/
def addIndexAt (model : Model) (dialect : Dialect) (line : Line) (nested : List Line) :
    Except SchemaError Model := do
  let declared ← Index.readLineAt dialect line.location line.content
  let index ← nested.foldlM
    (fun index line => index.refineAt dialect line.location line.content) declared
  model.checkConstraintAt dialect index.location
  return { model with indexes := model.indexes ++ [index] }

/-- The index of an item remembers the line of the item. -/
theorem addIndexAt_eq : addIndexAt = addIndex := by
  funext model dialect line nested
  simp only [addIndexAt, addIndex, Index.readLineAt_eq, Index.refineAt_eq, checkConstraintAt_eq]
  refine bind_congr_of_ok fun declared isRead => bind_congr_of_ok fun index isRefined => ?_
  have remembered := foldlM_keeps (fun index : Index => index.location = line.location)
    (fun _ _ _ step kept => (Index.location_of_refine (atLocation_eq_ok_iff.mp step)).trans kept)
    isRefined (Index.location_of_readLine (atLocation_eq_ok_iff.mp isRead))
  rw [remembered]

/-- The model with the directives of an item, located where their errors are raised. -/
def addDirectiveLineAt (model : Model) (dialect : Dialect) (line : Line) (nested : List Line) :
    Except SchemaError Model := do
  let (body, description) := line.content.splitDescription
  atLine line.location body.checkBalance
  let calls ← atLine line.location body.callRun
  let directives ← model.readDirectivesAt dialect line.location calls
  let refine := fun directive => nested.foldlM
    (fun (directive : Directive) line => directive.refineAt dialect line.location line.content)
    (description.elim directive directive.describe)
  match refineLastConstraint refine directives, nested with
  | some refined, _ => return (← refined).foldl addDirective model
  | none, [] => return directives.foldl addDirective model
  | none, orphan :: _ => throw (orphanError orphan)

theorem addDirectiveLineAt_eq : addDirectiveLineAt = addDirectiveLine := by
  funext model dialect line nested
  simp only [addDirectiveLineAt, atLine_checkBalance_callRun, readDirectivesAt_eq,
    Directive.refineAt_eq]
  rw [← bind_assoc, ← atLocation_asLineFault, ← atLocation_bind]
  rfl

/-- The model with an item of a section, located where its errors are raised. -/
def addItemAt (model : Model) (dialect : Dialect) (bodySection : BodySection) (line : Line)
    (nested : List Line) : Except SchemaError Model :=
  if line.content.head? == some '@' && bodySection != .metadata then
    model.addDirectiveLineAt dialect line nested
  else
    match bodySection with
    | .fields => model.addFieldAt line nested
    | .relations => model.addRelationAt dialect line nested
    | .indexes => model.addIndexAt dialect line nested
    | .metadata => model.addMetadata line nested
    | .unknown => .ok model

theorem addItemAt_eq : addItemAt = addItem := by
  funext model dialect bodySection line nested
  simp only [addItemAt, addDirectiveLineAt_eq, addFieldAt_eq, addRelationAt_eq, addIndexAt_eq]
  rfl

/-- Reads one more entry, located where its errors are raised. -/
def Progress.addAt (dialect : Dialect) (progress : Progress) (entry : Entry) :
    Except SchemaError Progress :=
  match entry with
  | .sectionHeading line =>
      match BodySection.ofHeading line.content with
      | .unknown =>
          let warning := Diagnostic.unknownSection (String.ofList line.content) line.location
          .ok { progress with
            bodySection := .unknown
            warnings := progress.warnings ++ [warning] }
      | bodySection => .ok { progress with bodySection }
  | .quote line =>
      let description := appendParagraph progress.model.description line.content
      .ok { progress with model := { progress.model with description } }
  | .item depth line nested =>
      if progress.bodySection == .unknown then
        .ok progress
      else if 1 < depth then
        .error (orphanError line)
      else do
        let model ← progress.model.addItemAt dialect progress.bodySection line nested
        return { progress with model }

/-- Every entry of a model is read with the same errors at the same lines. -/
theorem Progress.addAt_eq : addAt = add := by
  funext dialect progress entry
  simp only [addAt, addItemAt_eq]
  rfl

/-- The model that a header declares by itself. A constraint that is not allowed is refused at the
line that it remembers. -/
def ofHeaderAt (dialect : Dialect) (kind : ModelKind) (header : Header) (location : Location) :
    Except SchemaError Model := do
  let start : Model := {
    name := header.name
    label := header.label
    description := header.description
    kind
    isAbstract := header.hasAttribute "abstract"
    isDefault := header.hasAttribute "default"
    inherits := header.inherits
    location }
  let directives ← start.readDirectivesAt dialect location header.attributes
  let model := directives.foldl addDirective start
  return { model with attributes := header.attributes }

/-- Reads the model of a block, located where its errors are raised. -/
def assembleAt (dialect : Dialect) (kind : ModelKind) (header : Header) (location : Location)
    (stop : Nat) (cursor : Cursor) : Except SchemaError (Model × List Diagnostic) := do
  let start ← ofHeaderAt dialect kind header location
  let progress ← cursor.readBody (fun _ => true) (Progress.addAt dialect) stop { model := start }
  return (progress.model, progress.warnings)

theorem assembleAt_eq : assembleAt = assemble := by
  funext dialect kind header location stop cursor
  simp only [assembleAt, assemble, ofHeaderAt, ofHeader, readDirectivesAt_eq, Progress.addAt_eq]

end Model

/-! ## Documents -/

namespace HeaderPass

/-- Looks at one more line, located where the errors of its header are raised. -/
def addAt (dialect : Dialect) (pass : HeaderPass) (line : Line) (place : Nat) :
    Except SchemaError HeaderPass :=
  if dialect.isTitle line then
    if pass.blocks.isEmpty && pass.namespaceName.isNone then
      .ok { pass with namespaceName := some (titleName line.content) }
    else
      .ok pass
  else if dialect.opensBlock line then do
    let location := line.location
    let header ← Header.readAt dialect location line.content
    if let some first := pass.blocks.find? fun other => other.header.name == header.name then
      throw (.duplicateEntity header.name location first.location)
    return { pass with blocks := pass.blocks ++ [{ header, start := place, location }] }
  else
    .ok pass

theorem addAt_eq : addAt = add := by
  funext dialect pass line place
  simp only [addAt, Header.readAt_eq]
  rfl

end HeaderPass

/-- Reads the entity of a block, located where its errors are raised. -/
def BlockHeader.assembleAt (dialect : Dialect) (cursor : Cursor) (block : BlockHeader)
    (stop : Nat) : Except SchemaError (Entity × List Diagnostic) :=
  let body := cursor.seek (block.start + 1)
  let assembleModel := fun kind => do
    let (model, warnings) ←
      Model.assembleAt dialect kind block.header block.location stop body
    return (.model model, warnings)
  match block.header.kind with
  | .model => assembleModel .model
  | .interface => assembleModel .interface
  | .enumeration => do
      let enumeration ← Enumeration.assembleAt block.header block.location stop body
      return (.enumeration enumeration, [])

theorem BlockHeader.assembleAt_eq : assembleAt = assemble := by
  funext dialect cursor block stop
  simp only [assembleAt, Model.assembleAt_eq, Enumeration.assembleAt_eq]
  rfl

namespace Document

/-- Reads a document, with every error located where it is raised. -/
def readAt (options : ReadingOptions) (source : Text) :
    Except SchemaError (Document × List Diagnostic) := do
  let cursor := Cursor.ofSource source
  let dialect := options.dialect.dialectFor cursor.lines
  let pass ← cursor.lines.zipIdx.foldlM
    (fun (pass : HeaderPass) line => pass.addAt dialect line.1 line.2) {}
  let start := Document.empty dialect pass.namespaceName
  let (document, warnings) ←
    (pass.blocks.zip (BlockHeader.stops pass.blocks cursor.lines.length)).foldlM
      (fun (read : Document × List Diagnostic) block => do
        let (entity, warnings) ← block.1.assembleAt dialect cursor block.2
        return (read.1.insert entity, read.2 ++ warnings))
      (start, [])
  if options.infersForeignKeys then
    return (document.inferForeignKeys, warnings)
  else
    return (document, warnings)

/-- A source is read with the same errors at the same lines. -/
theorem readAt_eq : readAt = read := by
  funext options source
  simp only [readAt, read, HeaderPass.collect, assembleBlocks, HeaderPass.addAt_eq,
    BlockHeader.assembleAt_eq]

end Document

end SchemaMarkup
