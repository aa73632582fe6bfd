import SchemaMarkup.Proofs.Outcome
import SchemaMarkup.Reading.Model

/-!
# Identifiers

Names that one part of a document gives to another are identifiers: `[A-Za-z_][A-Za-z0-9_.]*`. The
line grammars are the only places where such names are made, and each of them checks what it makes.
Labels, and the names of relations and indexes, are free text.
-/

namespace SchemaMarkup

/-- A character of `[A-Za-z_]`. -/
def StartsIdentifier (character : Char) : Prop :=
  'A' ≤ character ∧ character ≤ 'Z' ∨ 'a' ≤ character ∧ character ≤ 'z' ∨ character = '_'

/-- A name of the form `[A-Za-z_][A-Za-z0-9_.]*`. -/
def IsIdentifier (name : String) : Prop :=
  ∃ first rest, name.toList = first :: rest ∧ StartsIdentifier first ∧
    ∀ character ∈ rest, StartsIdentifier character ∨
      '0' ≤ character ∧ character ≤ '9' ∨ character = '.'

theorem startsIdentifier_iff {character : Char} :
    (character.isAlpha || character == '_') = true ↔ StartsIdentifier character := by
  have upper : character.isUpper = true ↔ 'A' ≤ character ∧ character ≤ 'Z' :=
    decide_eq_true_iff
  have lower : character.isLower = true ↔ 'a' ≤ character ∧ character ≤ 'z' :=
    Bool.and_eq_true_iff.trans (and_congr decide_eq_true_iff decide_eq_true_iff)
  have letter : character.isAlpha = (character.isUpper || character.isLower) := rfl
  rw [letter, Bool.or_eq_true, Bool.or_eq_true, upper, lower, beq_iff_eq, or_assoc,
    StartsIdentifier]

theorem isNameCharacter_iff {character : Char} :
    isNameCharacter character = true ↔
      StartsIdentifier character ∨ '0' ≤ character ∧ character ≤ '9' ∨ character = '.' := by
  rw [← startsIdentifier_iff]
  simp [isNameCharacter, Char.isAlphanum, Char.isDigit, Char.le_def, or_assoc]
  tauto

theorem isIdentifier_iff {text : Text} :
    text.isIdentifier = true ↔ IsIdentifier (String.ofList text) := by
  rw [IsIdentifier, String.toList_ofList]
  cases text with
  | nil => simp [Text.isIdentifier]
  | cons first rest =>
      simp only [Text.isIdentifier, Bool.and_eq_true, List.all_eq_true, startsIdentifier_iff,
        isNameCharacter_iff]
      constructor
      · exact fun identifier => ⟨first, rest, rfl, identifier⟩
      · rintro ⟨_, _, same, identifier⟩
        cases same
        exact identifier

/-- A name that is split off its label is an identifier. -/
theorem isIdentifier_splitNameLabel? {text : Text} {name : String} {label : Option String}
    (isSplit : text.splitNameLabel? = some (name, label)) : IsIdentifier name := by
  simp only [Text.splitNameLabel?] at isSplit
  split at isSplit
  · split at isSplit
    · next identifier =>
        obtain ⟨rfl, _⟩ := Prod.mk.inj (Option.some.inj isSplit)
        exact isIdentifier_iff.mp identifier
    · contradiction
  · split at isSplit
    · next identifier =>
        obtain ⟨rfl, _⟩ := Prod.mk.inj (Option.some.inj isSplit)
        exact isIdentifier_iff.mp (Bool.and_eq_true_iff.mp identifier).2
    · contradiction

/-! ## Headers and values -/

namespace Header

theorem isIdentifier_readParent {text : Text} {parent : String}
    (run : readParent text = .ok parent) : IsIdentifier parent := by
  rw [readParent] at run
  split at run
  · next identifier =>
      cases run
      exact isIdentifier_iff.mp identifier
  · contradiction

/-- A header declares an identifier and inherits identifiers. -/
theorem isIdentifier_read {dialect : Dialect} {text : Text} {header : Header}
    (run : Header.read dialect text = .ok header) :
    IsIdentifier header.name ∧ ∀ parent ∈ header.inherits, IsIdentifier parent := by
  simp only [Header.read, bind_eq_ok_iff] at run
  obtain ⟨_, _, _, _, attributes, _, _, _, run⟩ := run
  split at run
  · simp only [throw_eq_ok_iff] at run
  · next name label isSplit =>
      simp only [bind_eq_ok_iff, pure_eq_ok_iff] at run
      obtain ⟨parents, areRead, kind, _, rfl⟩ := run
      refine ⟨isIdentifier_splitNameLabel? isSplit, fun parent listed => ?_⟩
      obtain ⟨piece, _, isRead⟩ := exists_of_mem_mapM areRead listed
      exact isIdentifier_readParent isRead

end Header

/-- A value of an enumeration and an option of a field are named by an identifier. -/
theorem EnumValue.isIdentifier_read {text : Text} {declared : EnumValue}
    (run : EnumValue.read text = .ok declared) : IsIdentifier declared.name := by
  simp only [EnumValue.read, bind_eq_ok_iff] at run
  obtain ⟨_, _, annotated, _, run⟩ := run
  split at run
  · contradiction
  · next name label isSplit =>
      cases run
      exact isIdentifier_splitNameLabel? isSplit

/-! ## Relations and indexes -/

namespace Relation

theorem isIdentifier_readTarget {text : Text} {target : String}
    (run : readTarget text = .ok target) : IsIdentifier target := by
  simp only [readTarget] at run
  split at run
  · next identifier =>
      cases run
      exact isIdentifier_iff.mp identifier
  · contradiction

/-- A positional argument keeps the target or reads another one. -/
theorem Positional.isIdentifier_add {positional next : Positional} {argument : String}
    (run : positional.add argument = .ok next)
    (identifier : ∀ kind target, positional.target = some (kind, target) → IsIdentifier target) :
    ∀ kind target, next.target = some (kind, target) → IsIdentifier target := by
  rw [Positional.add] at run
  split at run
  · simp only [bind_eq_ok_iff, pure_eq_ok_iff] at run
    obtain ⟨read, isRead, rfl⟩ := run
    rintro kind target isTarget
    obtain ⟨_, rfl⟩ := Prod.mk.inj (Option.some.inj isTarget)
    exact isIdentifier_readTarget isRead
  · split at run
    · contradiction
    · cases run
      exact identifier

/-- A directive leads to an identifier. -/
theorem isIdentifier_ofAttribute {location : Location} {call : Attribute} {relation : Relation}
    (run : ofAttribute location call = .ok relation) : IsIdentifier relation.target := by
  simp only [ofAttribute, bind_eq_ok_iff, pure_eq_ok_iff] at run
  obtain ⟨positional, added, ⟨kind, target⟩, isDestination, _, _, _, _, rfl⟩ := run
  have identifier := foldlM_keeps
    (fun positional : Positional =>
      ∀ kind target, positional.target = some (kind, target) → IsIdentifier target)
    (fun _ _ _ step kept => Positional.isIdentifier_add step kept) added nofun
  rw [Positional.destination] at isDestination
  split at isDestination
  · next isTarget =>
      cases isDestination
      exact identifier kind target isTarget
  · obtain ⟨_, isTarget, same⟩ := map_eq_ok_iff.mp isDestination
    cases same
    exact isIdentifier_readTarget isTarget
  · contradiction

/-- A relation line leads to an identifier. -/
theorem isIdentifier_readLine {location : Location} {text : Text} {relation : Relation}
    (run : readLine location text = .ok (some relation)) : IsIdentifier relation.target := by
  rw [readLine] at run
  split at run
  · cases run
  · simp only [bind_eq_ok_iff] at run
    obtain ⟨_, _, run⟩ := run
    split at run
    · simp only [throw_eq_ok_iff] at run
    · simp only [bind_eq_ok_iff, pure_eq_ok_iff, Option.some.injEq] at run
      obtain ⟨target, isTarget, _, _, rfl⟩ := run
      exact isIdentifier_readTarget isTarget

/-- No property line leads a relation elsewhere. -/
theorem target_refine {relation refined : Relation} {text : Text}
    (run : relation.refine text = .ok refined) : refined.target = relation.target := by
  simp only [refine, bind_eq_ok_iff] at run
  obtain ⟨_, _, run⟩ := run
  repeat' split at run
  all_goals simp only [bind_eq_ok_iff, pure_eq_ok_iff, throw_eq_ok_iff] at run
  -- The two properties that are actions are read first.
  · exact run ▸ rfl
  · obtain ⟨_, _, rfl⟩ := run
    rfl
  · obtain ⟨_, _, rfl⟩ := run
    rfl
  · exact run ▸ rfl
  · exact run ▸ rfl

end Relation

namespace Index

/-- Every field that the index names is an identifier. -/
def NamesFields (index : Index) : Prop :=
  ∀ field ∈ index.fields, IsIdentifier field

theorem isIdentifier_readField {text : Text} {field : String}
    (run : readField text = .ok field) : IsIdentifier field := by
  simp only [readField] at run
  split at run
  · next identifier =>
      cases run
      exact isIdentifier_iff.mp identifier
  · contradiction

theorem isIdentifier_of_mem_mapM {Source : Type} {texts : List Source} {text : Source → Text}
    {fields : List String} (run : (texts.mapM fun source => readField (text source)) = .ok fields) :
    ∀ field ∈ fields, IsIdentifier field := by
  intro field listed
  obtain ⟨_, _, isRead⟩ := exists_of_mem_mapM run listed
  exact isIdentifier_readField isRead

theorem fields_build {dialect : Dialect} {location : Location} {name : Option String}
    {fields : List String} {isUnique : Bool} {description : Option String} {index : Index}
    (run : build dialect location name fields isUnique description = .ok index) :
    index.fields = fields := by
  rw [build] at run
  split at run
  · contradiction
  · exact Except.ok.inj run ▸ rfl

/-- A directive names identifiers. -/
theorem namesFields_ofAttribute {dialect : Dialect} {location : Location} {call : Attribute}
    {index : Index} (run : ofAttribute dialect location call = .ok index) :
    index.NamesFields := by
  simp only [ofAttribute, bind_eq_ok_iff] at run
  obtain ⟨fields, areRead, built⟩ := run
  rw [NamesFields, fields_build built]
  exact isIdentifier_of_mem_mapM areRead

/-- An index line names identifiers. -/
theorem namesFields_readLine {dialect : Dialect} {location : Location} {text : Text}
    {index : Index} (run : readLine dialect location text = .ok index) : index.NamesFields := by
  simp only [readLine, bind_eq_ok_iff] at run
  obtain ⟨_, _, annotated, _, fields, areRead, built⟩ := run
  rw [NamesFields, fields_build built]
  exact isIdentifier_of_mem_mapM areRead

theorem fields_renamedFrom (changed earlier : Index) (dialect : Dialect) :
    (changed.renamedFrom earlier dialect).fields = changed.fields := by
  rw [renamedFrom]
  split <;> rfl

/-- A property line keeps the fields of an index or names others. -/
theorem namesFields_refine {dialect : Dialect} {index refined : Index} {text : Text}
    (run : index.refine dialect text = .ok refined) (names : index.NamesFields) :
    refined.NamesFields := by
  simp only [refine, bind_eq_ok_iff] at run
  obtain ⟨⟨key, value⟩, _, run⟩ := run
  split at run
  · simp only [bind_eq_ok_iff, pure_eq_ok_iff] at run
    obtain ⟨fields, areRead, rfl⟩ := run
    rw [NamesFields, fields_renamedFrom]
    exact isIdentifier_of_mem_mapM areRead
  · repeat' split at run
    all_goals simp only [pure_eq_ok_iff, throw_eq_ok_iff] at run
    · rw [NamesFields, ← run, fields_renamedFrom]
      exact names
    · exact run ▸ names
    · exact run ▸ names

end Index

namespace Directive

/-- Whatever entities and fields the directive names are identifiers. -/
def NamesIdentifiers : Directive → Prop
  | .index declared => declared.NamesFields
  | .relation declared => IsIdentifier declared.target
  | .other _ => True

variable {dialect : Dialect} {directive refined : Directive}

theorem namesIdentifiers_ofAttribute {location : Location} {call : Attribute}
    (run : ofAttribute dialect location call = .ok directive) : directive.NamesIdentifiers := by
  rw [ofAttribute] at run
  split at run
  · obtain ⟨index, isRead, rfl⟩ := map_eq_ok_iff.mp run
    exact Index.namesFields_ofAttribute isRead
  · split at run
    · obtain ⟨relation, isRead, rfl⟩ := map_eq_ok_iff.mp run
      exact Relation.isIdentifier_ofAttribute isRead
    · cases run
      trivial

theorem namesIdentifiers_describe {description : String} (names : directive.NamesIdentifiers) :
    (directive.describe description).NamesIdentifiers := by
  cases directive <;> exact names

theorem namesIdentifiers_refine {text : Text} (run : directive.refine dialect text = .ok refined)
    (names : directive.NamesIdentifiers) : refined.NamesIdentifiers := by
  cases directive with
  | index declared =>
      obtain ⟨changed, isRefined, rfl⟩ := map_eq_ok_iff.mp run
      exact Index.namesFields_refine isRefined names
  | relation declared =>
      obtain ⟨changed, isRefined, rfl⟩ := map_eq_ok_iff.mp run
      rw [NamesIdentifiers, Relation.target_refine isRefined]
      exact names
  | other call => exact Except.ok.inj run ▸ names

end Directive

/-! ## Lines of directives -/

/-- The directives of a line are what its calls declare, in their order. -/
theorem Model.forall₂_readDirectives {model : Model} {dialect : Dialect} {location : Location}
    {calls : List Attribute} {directives : List Directive}
    (areRead : model.readDirectives dialect location calls = .ok directives) :
    List.Forall₂ (fun call directive => Directive.ofAttribute dialect location call = .ok directive)
      calls directives := by
  refine (mapM_eq_ok_iff.mp areRead).imp fun call directive isRead => ?_
  simp only [bind_eq_ok_iff] at isRead
  obtain ⟨declared, isDeclared, run⟩ := isRead
  split at run
  · simp only [bind_eq_ok_iff, pure_eq_ok_iff] at run
    obtain ⟨_, _, rfl⟩ := run
    exact isDeclared
  · rw [pure_eq_ok_iff] at run
    exact run ▸ isDeclared

section RefineLastConstraint

variable {Fault : Type} {refine : Directive → Except Fault Directive}
  {directives refined : List Directive}

theorem refineLastConstraint_eq_none_iff :
    refineLastConstraint refine directives = none ↔
      ∀ directive ∈ directives, directive.isConstraint = false := by
  induction directives with
  | nil => simp [refineLastConstraint]
  | cons directive later inductionHypothesis =>
      rw [refineLastConstraint, List.forall_mem_cons, ← inductionHypothesis]
      cases refineLastConstraint refine later <;> cases directive.isConstraint <;> simp

/-- The last constraint of some directives is refined, and the others stay. -/
theorem exists_of_refineLastConstraint
    (run : refineLastConstraint refine directives = some (.ok refined)) :
    ∃ front directive back changed, directives = front ++ directive :: back ∧
      directive.isConstraint = true ∧ (∀ other ∈ back, other.isConstraint = false) ∧
      refine directive = .ok changed ∧ refined = front ++ changed :: back := by
  induction directives generalizing refined with
  | nil => contradiction
  | cons directive later inductionHypothesis =>
      rw [refineLastConstraint] at run
      split at run
      · next outcome isLater =>
          obtain ⟨others, rfl, rfl⟩ := map_eq_ok_iff.mp (Option.some.inj run)
          obtain ⟨front, last, back, changed, rfl, isLast, noneBehind, isRefined, rfl⟩ :=
            inductionHypothesis isLater
          exact ⟨directive :: front, last, back, changed, rfl, isLast, noneBehind, isRefined, rfl⟩
      · next noLater =>
          split at run
          · next isConstraint =>
              obtain ⟨changed, isRefined, rfl⟩ := map_eq_ok_iff.mp (Option.some.inj run)
              exact ⟨[], directive, later, changed, rfl, isConstraint,
                refineLastConstraint_eq_none_iff.mp noLater, isRefined, rfl⟩
          · contradiction

/-- To refine the last constraint keeps what every directive has, if it keeps it of the one. -/
theorem refineLastConstraint_keeps (holds : Directive → Prop)
    (keeps : ∀ directive refined, refine directive = .ok refined → holds directive → holds refined)
    (run : refineLastConstraint refine directives = some (.ok refined))
    (all : ∀ directive ∈ directives, holds directive) : ∀ directive ∈ refined, holds directive := by
  obtain ⟨front, directive, back, changed, rfl, _, _, isRefined, rfl⟩ :=
    exists_of_refineLastConstraint run
  simp only [List.forall_mem_append, List.forall_mem_cons] at all ⊢
  obtain ⟨inFront, here, behind⟩ := all
  exact ⟨inFront, keeps directive changed isRefined here, behind⟩

end RefineLastConstraint

end SchemaMarkup
