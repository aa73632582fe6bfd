import SchemaMarkup.Proofs.SameOutcome
import SchemaMarkup.Proofs.Reading.SpokenLines

/-!
# Models in two dialects

The body of a block is read in a dialect for two reasons: an index without a name is given the one
that the dialect generates, and interfaces may be refused a constraint. So the readings of a model
in two dialects are followed side by side, and after each step they are `Model.SameReading`: they
differ in the names of indexes alone, and these names are looked at only to be changed.
-/

namespace SchemaMarkup

/-! ## Indexes -/

variable {first second : Dialect}

namespace Index

/-- The index without its name. -/
def unnamed (index : Index) : Index :=
  { index with name := "" }

theorem unnamed_renamedFrom (changed earlier : Index) (dialect : Dialect) :
    (changed.renamedFrom earlier dialect).unnamed = changed.unnamed := by
  rw [renamedFrom]
  split <;> rfl

/-- Two readings of one index, which may give it different names. -/
abbrev SameReading (index twin : Index) : Prop :=
  index.unnamed = twin.unnamed

theorem map_unnamed_of_sameReading {indexes twins : List Index}
    (same : List.Forall₂ SameReading indexes twins) :
    indexes.map unnamed = twins.map unnamed := by
  induction same with
  | nil => rfl
  | cons here _ inductionHypothesis => rw [List.map_cons, List.map_cons, here, inductionHypothesis]

theorem sameReading_build (location : Location) (name : Option String) (fields : List String)
    (isUnique : Bool) (description : Option String) :
    SameOutcome SameReading (build first location name fields isUnique description)
      (build second location name fields isUnique description) := by
  simp only [build]
  split
  · exact .error _
  · exact .ok rfl

theorem sameReading_ofAttribute (location : Location) (call : Attribute) :
    SameOutcome SameReading (ofAttribute first location call)
      (ofAttribute second location call) := by
  simp only [ofAttribute]
  exact .bind_left _ fun fields _ => sameReading_build ..

theorem sameReading_readLine (location : Location) (text : Text) :
    SameOutcome SameReading (readLine first location text) (readLine second location text) := by
  simp only [readLine]
  refine .bind_left _ fun _ _ => .bind_left _ fun annotated _ => .bind_left _ fun fields _ => ?_
  exact sameReading_build ..

/-- A property line looks at the name of an index only to give it another one. -/
theorem SameReading.refine {index twin : Index} (same : index.SameReading twin) (text : Text) :
    SameOutcome SameReading (index.refine first text) (twin.refine second text) := by
  have isTwin : twin = { index with name := twin.name } := by
    cases index
    cases twin
    simpa [SameReading, unnamed] using Eq.symm same
  rw [isTwin]
  simp only [Index.refine]
  refine .bind_left _ fun property _ => ?_
  split
  · refine .bind_left _ fun fields _ => .ok ?_
    rw [SameReading, unnamed_renamedFrom, unnamed_renamedFrom]
    rfl
  · split
    · split
      · refine .ok ?_
        rw [SameReading, unnamed_renamedFrom, unnamed_renamedFrom]
        rfl
      · exact .error _
    · repeat' split
      · exact .ok rfl
      · exact .ok rfl
      · exact .error _

end Index

/-! ## Directives -/

namespace Directive

/-- The directive without the name of its index. -/
def unnamed : Directive → Directive
  | .index declared => .index declared.unnamed
  | directive => directive

/-- Two readings of one directive. -/
abbrev SameReading (directive twin : Directive) : Prop :=
  directive.unnamed = twin.unnamed

theorem SameReading.refl (directive : Directive) : directive.SameReading directive :=
  rfl

theorem sameReading_ofAttribute (location : Location) (call : Attribute) :
    SameOutcome SameReading (ofAttribute first location call)
      (ofAttribute second location call) := by
  simp only [ofAttribute]
  split
  · exact (Index.sameReading_ofAttribute location call).map fun _ _ => congrArg Directive.index
  · exact .refl SameReading.refl _

variable {directive twin : Directive}

/-- Readings of one directive are of one form. -/
theorem SameReading.cases (same : directive.SameReading twin) :
    directive = twin ∨ ∃ index other, directive = .index index ∧ twin = .index other ∧
      index.SameReading other := by
  cases directive with
  | index declared =>
      cases twin with
      | index other => exact .inr ⟨declared, other, rfl, rfl, Directive.index.inj same⟩
      | relation | other => contradiction
  | relation | other =>
      cases twin with
      | index other => contradiction
      | relation | other => exact .inl same

theorem SameReading.isConstraint (same : directive.SameReading twin) :
    directive.isConstraint = twin.isConstraint := by
  rcases same.cases with rfl | ⟨_, _, rfl, rfl, _⟩ <;> rfl

theorem SameReading.describe (same : directive.SameReading twin) (description : String) :
    (directive.describe description).SameReading (twin.describe description) := by
  rcases same.cases with rfl | ⟨index, other, rfl, rfl, sameIndex⟩
  · rfl
  · exact congrArg (fun index : Index => Directive.index { index with description := description })
      sameIndex

theorem SameReading.refine (same : directive.SameReading twin) (text : Text) :
    SameOutcome SameReading (directive.refine first text) (twin.refine second text) := by
  rcases same.cases with rfl | ⟨index, other, rfl, rfl, sameIndex⟩
  · cases directive with
    | index declared =>
        exact (Index.SameReading.refine (Eq.refl declared.unnamed) text).map fun _ _ =>
          congrArg Directive.index
    | relation | other => exact .refl SameReading.refl _
  · exact (sameIndex.refine text).map fun _ _ => congrArg Directive.index

/-- The description and the property lines of a directive refine two readings of it alike. -/
theorem SameReading.refineLines (same : directive.SameReading twin) (first second : Dialect)
    (description : Option String) (nested : List Line) :
    SameOutcome SameReading
      (nested.foldlM (fun (directive : Directive) line =>
          atLocation line.location (directive.refine first line.content))
        (description.elim directive directive.describe))
      (nested.foldlM (fun (directive : Directive) line =>
          atLocation line.location (directive.refine second line.content))
        (description.elim twin twin.describe)) := by
  have described : (description.elim directive directive.describe).SameReading
      (description.elim twin twin.describe) := by
    cases description with
    | none => exact same
    | some description => exact same.describe description
  exact .foldlM (fun _ _ line same => (same.refine line.content).mapError _) nested described

end Directive

/-- To refine the last constraint of two readings of some directives has the same outcome, if it
has for the one. -/
theorem sameOutcome_refineLastConstraint {Fault : Type}
    {refine refineTwin : Directive → Except Fault Directive}
    (each : ∀ directive twin, directive.SameReading twin →
      SameOutcome Directive.SameReading (refine directive) (refineTwin twin))
    {directives twins : List Directive}
    (same : List.Forall₂ Directive.SameReading directives twins) :
    Option.Rel (SameOutcome (List.Forall₂ Directive.SameReading))
      (refineLastConstraint refine directives) (refineLastConstraint refineTwin twins) := by
  induction same with
  | nil => exact .none
  | @cons directive twin later laterTwins here sameLater inductionHypothesis =>
      rw [refineLastConstraint, refineLastConstraint]
      generalize refineLastConstraint refine later = refined at inductionHypothesis ⊢
      generalize refineLastConstraint refineTwin laterTwins = refinedTwin at inductionHypothesis ⊢
      cases inductionHypothesis with
      | some outcome => exact .some (outcome.map fun _ _ others => .cons here others)
      | none =>
          simp only [here.isConstraint]
          split
          · exact .some ((each directive twin here).map fun _ _ changed => .cons changed sameLater)
          · exact .none

/-! ## Models -/

namespace Model

/-- Two readings of one entity that is a model: they differ in the names of indexes alone. -/
structure SameReading (model twin : Model) : Prop where
  kept : twin = { model with indexes := twin.indexes }
  indexes : List.Forall₂ Index.SameReading model.indexes twin.indexes
  isModel : model.kind = .model

variable {model twin : Model}

theorem SameReading.refl (isModel : model.kind = .model) : model.SameReading model :=
  ⟨rfl, List.forall₂_same.mpr fun _ _ => rfl, isModel⟩

/-- Both dialects let a model declare constraints. -/
theorem checkConstraint_of_model (isModel : model.kind = .model) (dialect : Dialect) :
    model.checkConstraint dialect = .ok () := by
  rw [checkConstraint, isInterface, isModel]
  rfl

theorem SameReading.isModel_twin (same : model.SameReading twin) : twin.kind = .model := by
  rw [same.kept]
  exact same.isModel

theorem SameReading.readDirectives (same : model.SameReading twin) (location : Location)
    (calls : List Attribute) :
    SameOutcome (List.Forall₂ Directive.SameReading)
      (model.readDirectives first location calls) (twin.readDirectives second location calls) := by
  refine .mapM fun call _ => ?_
  refine (Directive.sameReading_ofAttribute location call).bind ?_
  intro directive other sameDirective
  rw [checkConstraint_of_model same.isModel, checkConstraint_of_model same.isModel_twin,
    sameDirective.isConstraint]
  cases other.isConstraint <;> exact .ok sameDirective

theorem SameReading.addDirective (same : model.SameReading twin) {directive other : Directive}
    (sameDirective : directive.SameReading other) :
    (model.addDirective directive).SameReading (twin.addDirective other) := by
  obtain ⟨kept, indexes, isModel⟩ := same
  rcases sameDirective.cases with rfl | ⟨index, otherIndex, rfl, rfl, sameIndex⟩
  · cases directive with
    | index declared =>
        refine ⟨?_, List.rel_append indexes (.cons rfl .nil), isModel⟩
        rw [kept]
        rfl
    | relation | other =>
        refine ⟨?_, indexes, isModel⟩
        rw [kept]
        rfl
  · refine ⟨?_, List.rel_append indexes (.cons sameIndex .nil), isModel⟩
    rw [kept]
    rfl

theorem SameReading.addDirectives (same : model.SameReading twin)
    {directives others : List Directive}
    (sameDirectives : List.Forall₂ Directive.SameReading directives others) :
    (directives.foldl Model.addDirective model).SameReading
      (others.foldl Model.addDirective twin) := by
  induction sameDirectives generalizing model twin with
  | nil => exact same
  | cons here _ inductionHypothesis => exact inductionHypothesis (same.addDirective here)

theorem SameReading.addField (same : model.SameReading twin) (line : Line) (nested : List Line) :
    SameOutcome SameReading (model.addField line nested) (twin.addField line nested) := by
  obtain ⟨kept, indexes, isModel⟩ := same
  have sameField : twin.field? = model.field? := by
    rw [kept]
    rfl
  have name : twin.name = model.name := by rw [kept]
  simp only [Model.addField, sameField, name]
  refine .bind_left _ fun declared _ => .bind_left _ fun field _ => .bind_left _ fun _ _ => ?_
  by_cases taken : (model.field? field.name).isSome = true
  · rw [if_pos taken, if_pos taken]
    exact .error _
  · rw [if_neg taken, if_neg taken]
    refine .ok ⟨?_, indexes, isModel⟩
    rw [kept]

theorem SameReading.addRelation (same : model.SameReading twin) (line : Line)
    (nested : List Line) :
    SameOutcome SameReading (model.addRelation first line nested)
      (twin.addRelation second line nested) := by
  simp only [Model.addRelation, checkConstraint_of_model same.isModel,
    checkConstraint_of_model same.isModel_twin]
  refine .bind_left _ fun declared _ => ?_
  split
  · refine .bind_left _ fun relation _ => .ok ⟨?_, same.indexes, same.isModel⟩
    rw [same.kept]
  · exact .error _

theorem SameReading.addIndex (same : model.SameReading twin) (line : Line) (nested : List Line) :
    SameOutcome SameReading (model.addIndex first line nested)
      (twin.addIndex second line nested) := by
  simp only [Model.addIndex, checkConstraint_of_model same.isModel,
    checkConstraint_of_model same.isModel_twin]
  refine ((Index.sameReading_readLine _ _).mapError _).bind fun declared other sameIndex => ?_
  refine (SameOutcome.foldlM (fun index other line same => (same.refine line.content).mapError _)
    nested sameIndex).bind fun index other sameIndex => ?_
  refine .ok ⟨?_, List.rel_append same.indexes (.cons sameIndex .nil), same.isModel⟩
  rw [same.kept]

theorem SameReading.addMetadata (same : model.SameReading twin) (line : Line)
    (nested : List Line) :
    SameOutcome SameReading (model.addMetadata line nested) (twin.addMetadata line nested) := by
  simp only [Model.addMetadata]
  split
  · exact .error _
  · exact .error _
  · refine .ok ⟨?_, same.indexes, same.isModel⟩
    rw [same.kept]

theorem SameReading.addDirectiveLine (same : model.SameReading twin) (line : Line)
    (nested : List Line) :
    SameOutcome SameReading (model.addDirectiveLine first line nested)
      (twin.addDirectiveLine second line nested) := by
  simp only [Model.addDirectiveLine]
  refine .bind (SameOutcome.mapError (.bind_left _ fun calls _ =>
    same.readDirectives line.location calls) _) fun directives twins sameDirectives => ?_
  have refines := sameOutcome_refineLastConstraint (fun _ _ sameDirective =>
    sameDirective.refineLines first second line.content.splitDescription.2 nested) sameDirectives
  generalize refineLastConstraint _ directives = refined at refines ⊢
  generalize refineLastConstraint _ twins = refinedTwin at refines ⊢
  cases refines with
  | some outcome =>
      exact outcome.bind fun _ _ sameRefined => .ok (same.addDirectives sameRefined)
  | none =>
      cases nested with
      | nil => exact .ok (same.addDirectives sameDirectives)
      | cons orphan later => exact .error _

theorem SameReading.addItem (same : model.SameReading twin) (bodySection : BodySection)
    (line : Line) (nested : List Line) :
    SameOutcome SameReading (model.addItem first bodySection line nested)
      (twin.addItem second bodySection line nested) := by
  simp only [Model.addItem]
  split
  · exact same.addDirectiveLine line nested
  · cases bodySection with
    | fields => exact same.addField line nested
    | relations => exact same.addRelation line nested
    | indexes => exact same.addIndex line nested
    | metadata => exact same.addMetadata line nested
    | unknown => exact .ok same

/-- Two readings of some entries of one block. -/
structure Progress.SameReading (progress twin : Progress) : Prop where
  model : progress.model.SameReading twin.model
  bodySection : progress.bodySection = twin.bodySection
  warnings : progress.warnings = twin.warnings

theorem Progress.SameReading.add {progress twin : Progress} (same : progress.SameReading twin)
    (entry : Entry) :
    SameOutcome SameReading (progress.add first entry) (twin.add second entry) := by
  obtain ⟨sameModel, bodySection, warnings⟩ := same
  cases entry with
  | sectionHeading line =>
      simp only [Progress.add, warnings]
      split <;> exact .ok ⟨sameModel, rfl, by simp⟩
  | quote line =>
      refine .ok ⟨⟨?_, sameModel.indexes, sameModel.isModel⟩, bodySection, warnings⟩
      rw [sameModel.kept]
  | item depth line nested =>
      simp only [Progress.add, bodySection]
      split
      · exact .ok ⟨sameModel, bodySection, warnings⟩
      · split
        · exact .error _
        · exact (sameModel.addItem _ line nested).bind fun _ _ sameNext =>
            .ok ⟨sameNext, rfl, warnings⟩

theorem sameReading_ofHeader (header : Header) (location : Location) :
    SameOutcome SameReading (ofHeader first .model header location)
      (ofHeader second .model header location) := by
  simp only [ofHeader]
  refine (SameOutcome.mapError ((SameReading.refl rfl).readDirectives location _) _).bind
    fun directives twins sameDirectives => ?_
  have same := fun start (isModel : Model.kind start = .model) =>
    (SameReading.refl isModel).addDirectives sameDirectives
  refine .ok ⟨?_, (same _ rfl).indexes, (same _ rfl).isModel⟩
  rw [(same _ rfl).kept]

/-- A model is read alike in both dialects. -/
theorem sameReading_read (header : Header) (location : Location) (entries : List Entry) :
    SameOutcome (fun outcome twin => outcome.1.SameReading twin.1 ∧ outcome.2 = twin.2)
      (Model.read first .model header location entries)
      (Model.read second .model header location entries) := by
  simp only [Model.read]
  refine (sameReading_ofHeader header location).bind fun start twin same => ?_
  have started : Progress.SameReading { model := start } { model := twin } := ⟨same, rfl, rfl⟩
  refine (SameOutcome.foldlM (fun _ _ entry same => same.add entry) entries started).bind
    fun progress twin same => ?_
  exact .ok ⟨same.model, same.warnings⟩

end Model

end SchemaMarkup
