import SchemaMarkup.Proofs.Locations.Relocation

/-!
# Line grammars in other places

The grammar of a line is told the location of the line and does nothing but keep it. So what
it reads in another place is what it reads here, moved there, and its faults are the same:
a `LineFault` says nothing of places. A property line refines a moved value into the moved
refinement.
-/

namespace SchemaMarkup

variable {move : Location → Location}

namespace Field

theorem setType_relocate (field : Field) (text : Text) :
    (field.relocate move).setType text = Field.relocate move <$> field.setType text := by
  simp only [setType]
  split
  · rfl
  · split
    · rfl
    · split
      · simp only [map_bind, map_pure]
        rfl
      · split
        · simp only [map_bind, map_pure]
          rfl
        · rfl

theorem setTypeAndDefault_relocate (field : Field) (text : Text) :
    (field.relocate move).setTypeAndDefault text =
      Field.relocate move <$> field.setTypeAndDefault text := by
  simp only [setTypeAndDefault, map_bind, map_pure, setType_relocate, bind_map_left]
  rfl

theorem setProperty_relocate (field : Field) (key value : Text) :
    (field.relocate move).setProperty key value =
      Field.relocate move <$> field.setProperty key value := by
  simp only [setProperty]
  split
  · exact setTypeAndDefault_relocate field value
  · rfl
  · simp only [map_bind, map_pure]
    rfl
  · rfl
  · split <;> rfl
  · simp only [map_bind, map_pure]
    rfl
  · simp only [map_bind, map_pure]
    rfl
  · rfl

theorem refine_relocate (field : Field) (text : Text) :
    (field.relocate move).refine text = Field.relocate move <$> field.refine text := by
  simp only [refine]
  split
  · simp only [addFrameworkLine, map_bind, map_pure]
    rfl
  · split
    · simp only [addSemanticLine, map_bind, map_pure]
      rfl
    · rw [apply_ite (Field.relocate move <$> ·)]
      refine if_congr Iff.rfl ?_ ?_
      · simp only [map_bind, map_pure]
        rfl
      · simp only [map_bind]
        refine bind_congr fun _ => ?_
        split
        · exact setProperty_relocate ..
        · rfl

theorem read_relocate (location : Location) (text : Text) :
    Field.read (move location) text =
      Prod.map (Field.relocate move) id <$> Field.read location text := by
  simp only [Field.read, map_bind]
  refine bind_congr fun framework => bind_congr fun _ => bind_congr fun annotated => ?_
  split
  · split
    · rfl
    · next name label _ =>
      let declared : Field := {
        name, label, location
        frameworkAttributes := framework.2
        semanticAttributes := annotated.attributes }
      simp only [map_bind, map_pure]
      change ((declared.relocate move).setTypeAndDefault _ >>= _) = _
      rw [setTypeAndDefault_relocate, bind_map_left]
      rfl
  · split <;> rfl

end Field

namespace Relation

theorem ofAttribute_relocate (location : Location) (call : Attribute) :
    Relation.ofAttribute (move location) call =
      Relation.relocate move <$> Relation.ofAttribute location call := by
  simp only [Relation.ofAttribute, map_bind, map_pure]
  rfl

theorem readLine_relocate (location : Location) (text : Text) :
    Relation.readLine (move location) text =
      Option.map (Relation.relocate move) <$> Relation.readLine location text := by
  simp only [Relation.readLine]
  split
  · rfl
  · simp only [map_bind]
    refine bind_congr fun _ => ?_
    split
    · rfl
    · simp only [map_bind, map_pure]
      rfl

theorem refine_relocate (relation : Relation) (text : Text) :
    (relation.relocate move).refine text = Relation.relocate move <$> relation.refine text := by
  simp only [refine, map_bind]
  refine bind_congr fun _ => ?_
  split
  · rfl
  · split
    · simp only [map_bind, map_pure]
      rfl
    · split
      · simp only [map_bind, map_pure]
        rfl
      · split
        · rfl
        · split <;> rfl

end Relation

namespace Index

theorem build_relocate (dialect : Dialect) (location : Location) (name : Option String)
    (fields : List String) (isUnique : Bool) (description : Option String) :
    Index.build dialect (move location) name fields isUnique description =
      Index.relocate move <$> Index.build dialect location name fields isUnique description := by
  simp only [build]
  split <;> rfl

theorem ofAttribute_relocate (dialect : Dialect) (location : Location) (call : Attribute) :
    Index.ofAttribute dialect (move location) call =
      Index.relocate move <$> Index.ofAttribute dialect location call := by
  simp only [Index.ofAttribute, map_bind, build_relocate]

theorem readLine_relocate (dialect : Dialect) (location : Location) (text : Text) :
    Index.readLine dialect (move location) text =
      Index.relocate move <$> Index.readLine dialect location text := by
  simp only [Index.readLine, map_bind, build_relocate]

theorem refine_relocate (dialect : Dialect) (index : Index) (text : Text) :
    (index.relocate move).refine dialect text =
      Index.relocate move <$> index.refine dialect text := by
  have renamed : ∀ changed : Index,
      (changed.relocate move).renamedFrom (index.relocate move) dialect =
        (changed.renamedFrom index dialect).relocate move := by
    intro changed
    rw [renamedFrom, renamedFrom, apply_ite (Index.relocate move)]
    rfl
  simp only [refine, map_bind]
  refine bind_congr fun _ => ?_
  split
  · simp only [map_bind, map_pure, ← renamed]
    rfl
  · split
    · split
      · simp only [map_pure, ← renamed]
        rfl
      · rfl
    · split
      · rfl
      · split <;> rfl

end Index

namespace Directive

theorem ofAttribute_relocate (dialect : Dialect) (location : Location) (call : Attribute) :
    Directive.ofAttribute dialect (move location) call =
      Directive.relocate move <$> Directive.ofAttribute dialect location call := by
  simp only [Directive.ofAttribute]
  split
  · rw [Index.ofAttribute_relocate]
    cases Index.ofAttribute dialect location call <;> rfl
  · split
    · rw [Relation.ofAttribute_relocate]
      cases Relation.ofAttribute location call <;> rfl
    · rfl

theorem isConstraint_relocate (directive : Directive) :
    (directive.relocate move).isConstraint = directive.isConstraint := by
  cases directive <;> rfl

theorem describe_relocate (description : String) (directive : Directive) :
    (directive.relocate move).describe description =
      (directive.describe description).relocate move := by
  cases directive <;> rfl

theorem refine_relocate (dialect : Dialect) (directive : Directive) (text : Text) :
    (directive.relocate move).refine dialect text =
      Directive.relocate move <$> directive.refine dialect text := by
  cases directive with
  | index declared =>
      simp only [refine, relocate, Index.refine_relocate]
      cases declared.refine dialect text <;> rfl
  | relation declared =>
      simp only [refine, relocate, Relation.refine_relocate]
      cases declared.refine text <;> rfl
  | other call => rfl

end Directive

end SchemaMarkup
