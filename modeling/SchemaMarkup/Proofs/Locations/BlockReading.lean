import SchemaMarkup.Proofs.Locations.LineGrammars

/-!
# Blocks in other places

The body of a block is read entry by entry, and each step looks at the kinds and the contents
of lines alone; where they stand only goes into what is read and into errors. So reading a
moved block gives the moved entity or the moved error.
-/

namespace SchemaMarkup

variable {move : Location → Location}

/-! ## Enumerations -/

theorem orphanError_relocate (line : Line) :
    orphanError (line.relocate move) = (orphanError line).relocate move := by
  simp [orphanError, SchemaError.relocate]

theorem EnumValue.refine_relocate (declared : EnumValue) (line : Line) :
    declared.refine (line.relocate move) = relocateOutcome move id (declared.refine line) := by
  simp only [refine, Line.kind_relocate, Line.content_relocate, Line.location_relocate]
  split
  · rfl
  · split
    · exact atLocation_move _ _
    · rw [orphanError_relocate]
      rfl

namespace Enumeration

/-- The progress with what has been read in another place. -/
def Progress.relocate (move : Location → Location) (progress : Progress) : Progress :=
  { progress with enumeration := progress.enumeration.relocate move }

theorem addLoose_relocate (enumeration : Enumeration) (line : Line) :
    (enumeration.relocate move).addLoose (line.relocate move) =
      relocateOutcome move (Enumeration.relocate move) (enumeration.addLoose line) := by
  simp only [addLoose, Line.kind_relocate, Line.content_relocate]
  split
  · rfl
  · rw [orphanError_relocate]
    rfl

theorem addAttributes_relocate (enumeration : Enumeration) (line : Line) :
    (enumeration.relocate move).addAttributes (line.relocate move) =
      relocateOutcome move (Enumeration.relocate move) (enumeration.addAttributes line) := by
  simp only [addAttributes, Line.content_relocate, Line.location_relocate]
  rw [← atLocation_map, map_bind]
  rfl

theorem addValue_relocate (enumeration : Enumeration) (group : Option String) (line : Line)
    (nested : List Line) :
    (enumeration.relocate move).addValue group (line.relocate move)
        (nested.map (Line.relocate move)) =
      relocateOutcome move (Enumeration.relocate move)
        (enumeration.addValue group line nested) := by
  simp only [addValue, Line.content_relocate, Line.location_relocate]
  refine bind_relocateOutcome (atLocation_move _ _) fun declared => ?_
  refine bind_relocateOutcome (foldlM_relocateOutcome EnumValue.refine_relocate _ _) fun value => ?_
  rw [apply_ite (relocateOutcome move (Enumeration.relocate move))]
  rfl

theorem Progress.add_relocate (progress : Progress) (entry : Entry) :
    (progress.relocate move).add (entry.relocate move) =
      relocateOutcome move (Progress.relocate move) (progress.add entry) := by
  cases entry with
  | sectionHeading line => rfl
  | quote line =>
      exact bind_relocateOutcome (addLoose_relocate ..) fun enumeration => rfl
  | item depth line nested =>
      simp only [Progress.add, Entry.relocate, orphanError_relocate]
      split
      · rfl
      · rw [apply_ite (relocateOutcome move (Progress.relocate move))]
        refine if_congr Iff.rfl ?_ ?_
        · refine bind_relocateOutcome (addAttributes_relocate ..) fun attributed => ?_
          exact bind_relocateOutcome (foldlM_relocateOutcome addLoose_relocate _ _) fun _ => rfl
        · exact bind_relocateOutcome (addValue_relocate ..) fun _ => rfl

theorem read_relocate (header : Header) (location : Location) (entries : List Entry) :
    Enumeration.read header (move location) (entries.map (Entry.relocate move)) =
      relocateOutcome move (Enumeration.relocate move)
        (Enumeration.read header location entries) := by
  let start : Enumeration := {
    name := header.name
    label := header.label
    description := header.description
    attributes := header.attributes
    location }
  simp only [Enumeration.read]
  split
  · rfl
  · exact bind_relocateOutcome
      (foldlM_relocateOutcome Progress.add_relocate { enumeration := start } entries) fun _ => rfl

end Enumeration

/-! ## Models -/

theorem Field.refineByLine_relocate (field : Field) (line : Line) :
    (field.relocate move).refineByLine (line.relocate move) =
      relocateOutcome move (Field.relocate move) (field.refineByLine line) := by
  simp only [refineByLine, Line.kind_relocate, Line.content_relocate, Line.location_relocate]
  split
  · rfl
  · rw [Field.refine_relocate, atLocation_map]

/-- The last constraint of a line is the same one, and it is refined into the same one. -/
theorem refineLastConstraint_relocate
    {refine moved : Directive → Except SchemaError Directive}
    (each : ∀ directive,
      moved (directive.relocate move) =
        relocateOutcome move (Directive.relocate move) (refine directive))
    (directives : List Directive) :
    refineLastConstraint moved (directives.map (Directive.relocate move)) =
      (refineLastConstraint refine directives).map
        (relocateOutcome move (List.map (Directive.relocate move))) := by
  induction directives with
  | nil => rfl
  | cons directive later inductionHypothesis =>
      rw [List.map_cons, refineLastConstraint, refineLastConstraint, inductionHypothesis]
      cases refineLastConstraint refine later with
      | some refined => cases refined <;> rfl
      | none =>
          simp only [Option.map_none, Directive.isConstraint_relocate, each]
          split
          · cases refine directive <;> rfl
          · rfl

namespace Model

theorem addDirective_relocate (model : Model) (directive : Directive) :
    (model.relocate move).addDirective (directive.relocate move) =
      (model.addDirective directive).relocate move := by
  cases directive <;> simp [addDirective, Directive.relocate, relocate]

theorem addDirectives_relocate (model : Model) (directives : List Directive) :
    (directives.map (Directive.relocate move)).foldl addDirective (model.relocate move) =
      (directives.foldl addDirective model).relocate move := by
  induction directives generalizing model with
  | nil => rfl
  | cons directive later inductionHypothesis =>
      rw [List.map_cons, List.foldl_cons, List.foldl_cons, addDirective_relocate,
        inductionHypothesis]

theorem readDirectives_relocate (model : Model) (dialect : Dialect) (location : Location)
    (calls : List Attribute) :
    (model.relocate move).readDirectives dialect (move location) calls =
      List.map (Directive.relocate move) <$> model.readDirectives dialect location calls := by
  refine mapM_map_value (fun call => ?_) calls
  simp only [Directive.ofAttribute_relocate, bind_map_left, map_bind]
  refine bind_congr fun directive => ?_
  rw [apply_ite (Directive.relocate move <$> ·)]
  refine if_congr (by rw [Directive.isConstraint_relocate]) ?_ rfl
  simp only [map_bind, map_pure]
  rfl

theorem field?_relocate (model : Model) (name : String) :
    (model.relocate move).field? name = (model.field? name).map (Field.relocate move) := by
  rw [field?, relocate, List.find?_map]
  rfl

theorem addField_relocate (model : Model) (line : Line) (nested : List Line) :
    (model.relocate move).addField (line.relocate move) (nested.map (Line.relocate move)) =
      relocateOutcome move (Model.relocate move) (model.addField line nested) := by
  simp only [addField, Line.content_relocate, Line.location_relocate, Field.read_relocate,
    atLocation_map]
  refine bind_relocateOutcome rfl fun declared => ?_
  refine bind_relocateOutcome (foldlM_relocateOutcome Field.refineByLine_relocate
    { declared.1 with declaredIn := model.name } nested) fun field => ?_
  refine bind_relocateOutcome (atLocation_move _ _) fun _ => ?_
  rw [apply_ite (relocateOutcome move (Model.relocate move)), field?_relocate, Option.isSome_map]
  refine if_congr Iff.rfl rfl ?_
  simp [relocate]

theorem addRelation_relocate (model : Model) (dialect : Dialect) (line : Line)
    (nested : List Line) :
    (model.relocate move).addRelation dialect (line.relocate move)
        (nested.map (Line.relocate move)) =
      relocateOutcome move (Model.relocate move) (model.addRelation dialect line nested) := by
  have refines : ∀ (relation : Relation) (line : Line),
      atLocation (line.relocate move).location
          ((relation.relocate move).refine (line.relocate move).content) =
        relocateOutcome move (Relation.relocate move)
          (atLocation line.location (relation.refine line.content)) := by
    intro relation line
    rw [Line.location_relocate, Line.content_relocate, Relation.refine_relocate, atLocation_map]
  simp only [addRelation, Line.content_relocate, Line.location_relocate,
    Relation.readLine_relocate, atLocation_map]
  refine bind_relocateOutcome rfl fun declared? => ?_
  cases declared? with
  | none => rfl
  | some declared =>
      refine bind_relocateOutcome (foldlM_relocateOutcome refines declared nested) fun _ => ?_
      refine bind_relocateOutcome (atLocation_move _ _) fun _ => ?_
      simp [relocate]

theorem addIndex_relocate (model : Model) (dialect : Dialect) (line : Line)
    (nested : List Line) :
    (model.relocate move).addIndex dialect (line.relocate move)
        (nested.map (Line.relocate move)) =
      relocateOutcome move (Model.relocate move) (model.addIndex dialect line nested) := by
  have refines : ∀ (index : Index) (line : Line),
      atLocation (line.relocate move).location
          ((index.relocate move).refine dialect (line.relocate move).content) =
        relocateOutcome move (Index.relocate move)
          (atLocation line.location (index.refine dialect line.content)) := by
    intro index line
    rw [Line.location_relocate, Line.content_relocate, Index.refine_relocate, atLocation_map]
  simp only [addIndex, Line.content_relocate, Line.location_relocate,
    Index.readLine_relocate, atLocation_map]
  refine bind_relocateOutcome rfl fun declared => ?_
  refine bind_relocateOutcome (foldlM_relocateOutcome refines declared nested) fun _ => ?_
  refine bind_relocateOutcome (atLocation_move _ _) fun _ => ?_
  simp [relocate]

theorem addMetadata_relocate (model : Model) (line : Line) (nested : List Line) :
    (model.relocate move).addMetadata (line.relocate move) (nested.map (Line.relocate move)) =
      relocateOutcome move (Model.relocate move) (model.addMetadata line nested) := by
  simp only [addMetadata, Line.content_relocate, Line.location_relocate]
  cases line.content.splitKeyValue? with
  | none => rfl
  | some property =>
      cases nested with
      | nil => rfl
      | cons orphan later => simp [orphanError_relocate]

theorem addDirectiveLine_relocate (model : Model) (dialect : Dialect) (line : Line)
    (nested : List Line) :
    (model.relocate move).addDirectiveLine dialect (line.relocate move)
        (nested.map (Line.relocate move)) =
      relocateOutcome move (Model.relocate move) (model.addDirectiveLine dialect line nested) := by
  have refines : ∀ (directive : Directive) (line : Line),
      atLocation (line.relocate move).location
          ((directive.relocate move).refine dialect (line.relocate move).content) =
        relocateOutcome move (Directive.relocate move)
          (atLocation line.location (directive.refine dialect line.content)) := by
    intro directive line
    rw [Line.location_relocate, Line.content_relocate, Directive.refine_relocate, atLocation_map]
  simp only [addDirectiveLine, Line.content_relocate, Line.location_relocate,
    readDirectives_relocate, ← map_bind, atLocation_map]
  refine bind_relocateOutcome rfl fun directives => ?_
  have refinesAll : ∀ directive : Directive,
      (nested.map (Line.relocate move)).foldlM
          (fun directive line => atLocation line.location (directive.refine dialect line.content))
          (line.content.splitDescription.2.elim (directive.relocate move)
            (directive.relocate move).describe) =
        relocateOutcome move (Directive.relocate move)
          (nested.foldlM
            (fun directive line => atLocation line.location (directive.refine dialect line.content))
            (line.content.splitDescription.2.elim directive directive.describe)) := by
    intro directive
    have described : line.content.splitDescription.2.elim (directive.relocate move)
          (directive.relocate move).describe =
        (line.content.splitDescription.2.elim directive directive.describe).relocate move := by
      cases line.content.splitDescription.2 with
      | none => rfl
      | some description => exact directive.describe_relocate description
    rw [described]
    exact foldlM_relocateOutcome refines _ nested
  rw [refineLastConstraint_relocate refinesAll]
  cases refineLastConstraint _ directives with
  | some refined =>
      refine bind_relocateOutcome rfl fun refined => ?_
      rw [addDirectives_relocate]
      rfl
  | none =>
      cases nested with
      | nil =>
          rw [addDirectives_relocate]
          rfl
      | cons orphan later => simp [orphanError_relocate]

theorem addItem_relocate (model : Model) (dialect : Dialect) (bodySection : BodySection)
    (line : Line) (nested : List Line) :
    (model.relocate move).addItem dialect bodySection (line.relocate move)
        (nested.map (Line.relocate move)) =
      relocateOutcome move (Model.relocate move)
        (model.addItem dialect bodySection line nested) := by
  simp only [addItem]
  rw [apply_ite (relocateOutcome move (Model.relocate move))]
  refine if_congr Iff.rfl (addDirectiveLine_relocate ..) ?_
  cases bodySection with
  | fields => exact addField_relocate ..
  | relations => exact addRelation_relocate ..
  | indexes => exact addIndex_relocate ..
  | metadata => exact addMetadata_relocate ..
  | unknown => rfl

/-- The progress with what has been read in another place. -/
def Progress.relocate (move : Location → Location) (progress : Progress) : Progress :=
  { progress with
    model := progress.model.relocate move
    warnings := progress.warnings.map (Diagnostic.relocate move) }

theorem Progress.add_relocate (dialect : Dialect) (progress : Progress) (entry : Entry) :
    (progress.relocate move).add dialect (entry.relocate move) =
      relocateOutcome move (Progress.relocate move) (progress.add dialect entry) := by
  cases entry with
  | sectionHeading line =>
      simp only [Progress.add, Entry.relocate, Line.content_relocate, Line.location_relocate]
      split
      · simp [Progress.relocate, Diagnostic.relocate, Diagnostic.unknownSection]
      · rfl
  | quote line => rfl
  | item depth line nested =>
      simp only [Progress.add, Entry.relocate, orphanError_relocate]
      rw [apply_ite (relocateOutcome move (Progress.relocate move)),
        apply_ite (relocateOutcome move (Progress.relocate move))]
      refine if_congr Iff.rfl rfl (if_congr Iff.rfl rfl ?_)
      exact bind_relocateOutcome (addItem_relocate ..) fun _ => rfl

theorem ofHeader_relocate (dialect : Dialect) (kind : ModelKind) (header : Header)
    (location : Location) :
    ofHeader dialect kind header (move location) =
      relocateOutcome move (Model.relocate move) (ofHeader dialect kind header location) := by
  let start : Model := {
    name := header.name
    label := header.label
    description := header.description
    kind
    isAbstract := header.hasAttribute "abstract"
    isDefault := header.hasAttribute "default"
    inherits := header.inherits
    location }
  have reads : (start.relocate move).readDirectives dialect (move location) header.attributes =
      _ := readDirectives_relocate ..
  refine bind_relocateOutcome ((congrArg _ reads).trans (atLocation_map ..)) fun directives => ?_
  have declares : (directives.map (Directive.relocate move)).foldl addDirective
      (start.relocate move) = _ := addDirectives_relocate ..
  exact congrArg (fun model => Except.ok { model with attributes := header.attributes }) declares

theorem read_relocate (dialect : Dialect) (kind : ModelKind) (header : Header)
    (location : Location) (entries : List Entry) :
    Model.read dialect kind header (move location) (entries.map (Entry.relocate move)) =
      relocateOutcome move (Prod.map (Model.relocate move) (List.map (Diagnostic.relocate move)))
        (Model.read dialect kind header location entries) := by
  refine bind_relocateOutcome (ofHeader_relocate ..) fun start => ?_
  exact bind_relocateOutcome
    (foldlM_relocateOutcome (Progress.add_relocate dialect) { model := start } entries) fun _ => rfl

end Model

end SchemaMarkup
